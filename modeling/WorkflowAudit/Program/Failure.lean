import WorkflowAudit.Audit.Diagnostic
import WorkflowAudit.Config.Error
import WorkflowAudit.Files.Discovery
import WorkflowAudit.Hosting.GitHub.Client
import WorkflowAudit.Runs.Aggregate
import WorkflowAudit.Text.Layout

namespace WorkflowAudit.Program

inductive Failure
  | settings (e : Config.Error)
  | changedSettings (e : Config.Error)
  | nothingToAudit
  | client (e : Hosting.GitHub.ClientError)
  | noRepositories (listing : List Audit.Diagnostic)
  | window (e : Runs.WindowError)
  | exportDirectory (path : String) (e : Files.Error)
  | exportFile (path : String) (e : Files.Error)
  | discovery (e : Files.DiscoveryError)
  | noFiles (path : String)
  | noReadableFiles (count : Nat) (path : String)

namespace Failure

def settingsCauses : Config.Error → List String
  | e@(.unreadable _ cause) => [e.message, cause.message]
  | e@(.malformed _) => [e.message, Config.Error.readerText]
  | e@(.invalid _) => [e.message]

def listingReasons (listing : List Audit.Diagnostic) : String :=
  if listing.isEmpty then ""
  else " (" ++ Text.joined "; " (listing.map fun d => d.repository ++ ": " ++ d.message) ++ ")"

def message : Failure → String
  | .settings _ => "Failed to load configuration"
  | .changedSettings _ => "Invalid command-line override"
  | .nothingToAudit => "Nothing to audit. Pass --owner <org> or --repo <owner/name>."
  | .client e => e.message
  | .noRepositories listing =>
    "No repositories found for the given owners" ++ listingReasons listing
  | .window e => e.message
  | .exportDirectory path _ => "Failed to create export directory " ++ path
  | .exportFile path _ => "Failed to write " ++ path
  | .discovery e => e.message
  | .noFiles path => "No workflow files found at '" ++ path ++
      "'. Make sure the path points to a YAML workflow file or directory."
  | .noReadableFiles count path => "None of the " ++ toString count ++ " workflow files at '" ++
      path ++ "' could be read"

def causes : Failure → List String
  | .settings e | .changedSettings e => settingsCauses e
  | .client .invalidToken => ["failed to parse header value"]
  | .exportDirectory _ e | .exportFile _ e => [e.message]
  | .discovery .badPattern => ["the path is no pattern"]
  | _ => []

/-- A window before all time ends the program in another way than other failures. -/
def exitCode : Failure → Nat
  | .window _ => 101
  | _ => 1

def indentLines (indent text : String) : String :=
  Text.joined ("\n" ++ indent) ((Text.splitOn '\n' text.toList).map String.ofList)

def causeLines (causes : List String) : List String :=
  match causes with
  | [] => []
  | [cause] => ["", "Caused by:", "    " ++ indentLines "    " cause]
  | causes => ["", "Caused by:"] ++ causes.zipIdx.map fun (cause, i) =>
      Text.padStart 5 (toString i) ++ ": " ++ indentLines "       " cause

def text (f : Failure) : String :=
  Text.page (("Error: " ++ f.message) :: causeLines f.causes)

end Failure

end WorkflowAudit.Program
