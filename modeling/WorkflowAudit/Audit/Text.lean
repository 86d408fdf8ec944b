import WorkflowAudit.Audit.Diagnostic
import WorkflowAudit.Terminal.Style

namespace WorkflowAudit.Audit

open Terminal (Paint)

def Kind.title : Kind → String
  | .repositoryListing => "RepositoryListing"
  | .runHistory => "RunHistory"
  | .fileListing => "FileListing"
  | .fileContent => "FileContent"
  | .parse => "Parse"
  | .rule => "Rule"

namespace Diagnostic

def place (d : Diagnostic) : String :=
  match d.file with
  | some file => d.repository ++ "/" ++ file
  | none => d.repository

def line (paint : Paint) (d : Diagnostic) : String :=
  "   " ++ paint .dim d.kind.title ++ " " ++ paint (.ofColor .cyan) d.place ++ " " ++ d.message

end Diagnostic

def diagnosticLines (paint : Paint) (diagnostics : List Diagnostic) : List String :=
  if diagnostics.isEmpty then []
  else
    [paint .bright (" Diagnostics (" ++ toString diagnostics.length ++ ")")] ++
      diagnostics.map (·.line paint) ++ [""]

end WorkflowAudit.Audit
