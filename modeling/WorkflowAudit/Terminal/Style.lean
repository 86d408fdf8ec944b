import WorkflowAudit.Text.Blank
import WorkflowAudit.Text.Split

namespace WorkflowAudit.Terminal

inductive Color
  | black
  | red
  | green
  | yellow
  | blue
  | cyan
  | white
  | gray
  deriving DecidableEq, Repr

namespace Color

def code : Color → Nat
  | .black => 30
  | .red => 31
  | .green => 32
  | .yellow => 33
  | .blue => 34
  | .cyan => 36
  | .white => 37
  | .gray => 90

def backgroundCode (c : Color) : Nat := c.code + 10

end Color

structure Style where
  bold : Bool := false
  dimmed : Bool := false
  underlined : Bool := false
  background : Option Color := none
  foreground : Option Color := none
  deriving DecidableEq, Repr

namespace Style

def bright : Style := { bold := true }

def dim : Style := { dimmed := true }

def ofColor (c : Color) : Style := { foreground := some c }

def strong (c : Color) : Style := { bold := true, foreground := some c }

def codes (s : Style) : List Nat :=
  (if s.bold then [1] else []) ++ (if s.dimmed then [2] else []) ++
    (if s.underlined then [4] else []) ++ (s.background.map Color.backgroundCode).toList ++
    (s.foreground.map Color.code).toList

end Style

def controlSequence (codes : List Nat) : String :=
  "\x1b[" ++ Text.joined ";" (codes.map toString) ++ "m"

def reset : String := controlSequence [0]

abbrev Paint := Style → String → String

namespace Paint

def plain : Paint := fun _ text => text

/-- Switches the style on for the text, and again after every place where the text itself switches
styles off. -/
def styled : Paint := fun style text =>
  let start := controlSequence style.codes
  start ++ String.ofList (Text.insertAfter reset.toList start.toList text.toList) ++ reset

end Paint

end WorkflowAudit.Terminal
