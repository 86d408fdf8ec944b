import WorkflowAudit.Text.Blank

namespace WorkflowAudit.Workflow

def isDimensionChar (c : Char) : Bool := c.isAlphanum || c = '_' || c = '-'

def after? : List Char → List Char → Option (List Char)
  | [], s => some s
  | _ :: _, [] => none
  | c :: start, d :: s => if c = d then after? start s else none

/-- The dimension of a text that is an expression and in it a reference to the matrix. Blanks around
the reference are free. -/
def matrixReference? (s : String) : Option String := do
  let s ← after? "$\x7b\x7b".toList s.toList
  let s ← after? "matrix.".toList (Text.trimStart s)
  let name := s.takeWhile isDimensionChar
  guard !name.isEmpty
  guard (Text.trimStart (s.dropWhile isDimensionChar) = "\x7d\x7d".toList)
  return String.ofList name

end WorkflowAudit.Workflow
