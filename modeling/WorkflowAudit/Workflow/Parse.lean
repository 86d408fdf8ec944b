import WorkflowAudit.Workflow.OfYaml
import WorkflowAudit.Workflow.Recovery
import WorkflowAudit.Yaml.Read

namespace WorkflowAudit.Workflow.Document

def parseWith (read : Reader) (text : String) : Document :=
  match read text with
  | .ok root => ofYaml [] root
  | .error _ =>
    let recovered := recoverSections read text.toList
    ofYaml (.unreadable :: recovered.issues) (.mapping recovered.entries)

def parse (text : String) : Document := parseWith Yaml.read text

end WorkflowAudit.Workflow.Document
