namespace WorkflowAudit.Yaml

structure Cursor where
  rest : List Char
  index : Nat
  line : Nat
  column : Nat

namespace Cursor

def start (text : List Char) : Cursor := ⟨text, 0, 0, 0⟩

def peek (c : Cursor) : Option Char := c.rest.head?

def skip (c : Cursor) (n : Nat) : Cursor :=
  { c with rest := c.rest.drop n, index := c.index + n, column := c.column + n }

end Cursor

def isBreak (c : Char) : Bool :=
  c = '\n' || c = '\r' || c = '\u0085' || c = '\u2028' || c = '\u2029'

def isSpaceOrTab (c : Char) : Bool := c = ' ' || c = '\t'

def isGap : Option Char → Bool
  | none => true
  | some c => isSpaceOrTab c || isBreak c

def isNameChar (c : Char) : Bool := c.isAlphanum || c = '_' || c = '-'

namespace Cursor

def takeWhile (c : Cursor) (p : Char → Bool) : List Char × Cursor :=
  let taken := c.rest.takeWhile p
  (taken, c.skip taken.length)

def skipWhile (c : Cursor) (p : Char → Bool) : Cursor := (c.takeWhile p).2

/-- Moves past the end of the line, if the cursor is there. The first component is the line end as
it counts in a scalar: a newline, or the Unicode separator as it stands. -/
def takeBreak (c : Cursor) : List Char × Cursor :=
  let next (n : Nat) (text : List Char) : List Char × Cursor :=
    (text, ⟨c.rest.drop n, c.index + n, c.line + 1, 0⟩)
  match c.rest with
  | '\r' :: '\n' :: _ => next 2 ['\n']
  | '\r' :: _ => next 1 ['\n']
  | '\n' :: _ => next 1 ['\n']
  | '\u0085' :: _ => next 1 ['\n']
  | '\u2028' :: _ => next 1 ['\u2028']
  | '\u2029' :: _ => next 1 ['\u2029']
  | _ => ([], c)

def skipBreak (c : Cursor) : Cursor := c.takeBreak.2

def skipToLineEnd (c : Cursor) : Cursor :=
  let c := c.skipWhile isSpaceOrTab
  if c.peek = some '#' then c.skipWhile fun c => !isBreak c else c

def atMarker (c : Cursor) (m : Char) : Bool :=
  c.column = 0 && match c.rest with
    | a :: b :: d :: rest => a = m && b = m && d = m && isGap rest.head?
    | _ => false

def atAnyMarker (c : Cursor) : Bool := c.atMarker '-' || c.atMarker '.'

end Cursor

end WorkflowAudit.Yaml
