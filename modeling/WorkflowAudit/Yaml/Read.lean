import WorkflowAudit.Yaml.Node.Parse
import WorkflowAudit.Yaml.Token.Stream
import WorkflowAudit.Yaml.Value.OfNode

namespace WorkflowAudit.Yaml

def read (text : String) : Except Error Value := do
  match ← Node.ofTokens (← Token.ofText text.toList) with
  | none => return .null
  | some n => Value.ofNode n

end WorkflowAudit.Yaml
