import WorkflowAudit.Lint.Finding
import WorkflowAudit.Workflow.Document

namespace WorkflowAudit.Lint

inductive RuleError
  | evaluation (reason : String)
  | crashed (reason : String)
  deriving DecidableEq, Repr

def RuleError.message : RuleError → String
  | .evaluation reason => "evaluation failed: " ++ reason
  | .crashed reason => "rule panicked: " ++ reason

/-- How a rule ends. A crash may leave a text behind. -/
inductive Verdict
  | detected (detections : List Detection)
  | refused (error : RuleError)
  | crashed (text : Option String)
  deriving DecidableEq, Repr

def Verdict.toExcept : Verdict → Except RuleError (List Detection)
  | .detected detections => .ok detections
  | .refused error => .error error
  | .crashed text => .error (.crashed (text.getD "unknown panic"))

structure Rule where
  id : String
  summary : String
  apply : Workflow.Document → Verdict

def Rule.ofDetections (id summary : String) (detect : Workflow.Document → List Detection) : Rule :=
  ⟨id, summary, fun d => .detected (detect d)⟩

def sortedNames (l : List String) : List String := (KeyMap.ofList (l.map fun s => (s, ()))).keys

end WorkflowAudit.Lint
