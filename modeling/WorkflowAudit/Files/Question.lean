import WorkflowAudit.Dialogue
import WorkflowAudit.Files.Error

namespace WorkflowAudit.Files

inductive Layout
  | file
  | directory (children : List (String × Layout))

inductive Question
  | layout (path : String)
  | read (path : String)
  | makeDirectory (path : String)
  | write (path text : String)
  deriving DecidableEq, Repr

def Question.Answer : Question → Type
  | .layout _ => Option Layout
  | .read _ => Except Error String
  | .makeDirectory _ => Except Error Unit
  | .write _ _ => Except Error Unit

abbrev Dialogue (α : Type) := WorkflowAudit.Dialogue Question.Answer α

end WorkflowAudit.Files
