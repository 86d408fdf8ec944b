import WorkflowAudit.Text.Blank
import WorkflowAudit.Text.WordChar

namespace WorkflowAudit.Text

/-- Simple case folding, as far as it leads to an ASCII character: the long s and the Kelvin sign
fold to `s` and `k`. -/
def foldCase (c : Char) : Char :=
  if c = 'ſ' then 's' else if c = '\u212A' then 'k' else c.toLower

inductive Pattern
  | empty
  | letter (c : Char)
  | blanks
  | blank
  | wordEdge
  | lineStart
  | lineEnd
  | seq (first second : Pattern)
  | either (left right : Pattern)

namespace Pattern

/-- A place in a text is the character before it, if there is one, and what follows. -/
def isWordEdge (before : Option Char) (s : List Char) : Bool :=
  (before.map isWordChar).getD false != (s.head?.map isWordChar).getD false

def afterBlanks (next : Option Char → List Char → Bool) (before : Option Char) :
    List Char → Bool
  | [] => next before []
  | c :: s => next before (c :: s) || (isBlank c && afterBlanks next (some c) s)

/-- Whether the pattern takes some of what follows a place so that `next` holds after it. -/
def matchesThen : Pattern → (Option Char → List Char → Bool) → Option Char → List Char → Bool
  | .empty, next, before, s => next before s
  | .letter p, next, _, s =>
    match s with
    | [] => false
    | c :: s => foldCase c = p && next (some c) s
  | .blank, next, _, s =>
    match s with
    | [] => false
    | c :: s => isBlank c && next (some c) s
  | .blanks, next, before, s => afterBlanks next before s
  | .wordEdge, next, before, s => isWordEdge before s && next before s
  | .lineStart, next, before, s => (before = none || before = some '\n') && next before s
  | .lineEnd, next, before, s => (s.head? = none || s.head? = some '\n') && next before s
  | .seq p q, next, before, s => matchesThen p (matchesThen q next) before s
  | .either p q, next, before, s => matchesThen p next before s || matchesThen q next before s

def occursFrom (p : Pattern) (before : Option Char) : List Char → Bool
  | [] => p.matchesThen (fun _ _ => true) before []
  | c :: s => p.matchesThen (fun _ _ => true) before (c :: s) || occursFrom p (some c) s

def occursIn (p : Pattern) (s : String) : Bool := p.occursFrom none s.toList

def chain : List Pattern → Pattern
  | [] => .empty
  | [p] => p
  | p :: rest => .seq p (chain rest)

def text (s : String) : Pattern := chain (s.toList.map .letter)

def oneOf : List Pattern → Pattern
  | [] => .empty
  | [p] => p
  | p :: rest => .either p (oneOf rest)

def words (l : List String) : Pattern := oneOf (l.map text)

def gap : Pattern := .seq .blank .blanks

end Pattern

end WorkflowAudit.Text
