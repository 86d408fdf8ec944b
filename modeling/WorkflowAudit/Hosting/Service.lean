import WorkflowAudit.Dialogue
import WorkflowAudit.Runs.Record
import WorkflowAudit.Text.Blank

namespace WorkflowAudit.Hosting

inductive FetchError
  | transport (url reason : String)
  | status (url : String) (code : Nat)
  | decode (url reason : String)
  | other (text : String)
  deriving DecidableEq, Repr

def FetchError.message : FetchError → String
  | .transport url reason => "request to " ++ url ++ " failed: " ++ reason
  | .status url code => url ++ " returned HTTP " ++ toString code
  | .decode url reason => "unexpected response from " ++ url ++ ": " ++ reason
  | .other text => text

inductive Call
  | repositories (owner : String)
  | runs (repository : String) (limit : Nat)
  | files (repository : String)
  | definition (repository file : String)
  deriving DecidableEq, Repr

def Call.Answer : Call → Type
  | .repositories _ => Except FetchError (List String)
  | .runs _ _ => Except FetchError (List Runs.Record)
  | .files _ => Except FetchError (List String)
  | .definition _ _ => Except FetchError (Option String)

def isDefinitionFile (name : String) : Bool :=
  Text.endsLowered name ".yml" || Text.endsLowered name ".yaml"

end WorkflowAudit.Hosting
