import WorkflowAudit.Text.Blank
import WorkflowAudit.Workflow.Issue
import WorkflowAudit.Yaml.Error
import WorkflowAudit.Yaml.Value

/-! Recovery of a malformed workflow. The text is cut at the lines that start a key of a given
indentation, and every block is read on its own; a malformed jobs section is cut once more. -/

namespace WorkflowAudit.Workflow

open Yaml (Value Mapping)

abbrev Reader := String → Except Yaml.Error Value

def isContentLine (line : List Char) : Bool :=
  match Text.trimStart line with
  | [] => false
  | c :: _ => c ≠ '#'

/-- A line that starts a block: a key at the indentation, with its colon. -/
def startsBlock (indent : Nat) (line : List Char) : Bool :=
  isContentLine line && Text.indentation line = indent && (Text.trimStart line).head? ≠ some '-' &&
    line.contains ':'

structure Block where
  first : List Char
  rest : List (List Char)
  deriving DecidableEq, Repr

namespace Block

def lines (b : Block) : List (List Char) := b.first :: b.rest

def text (b : Block) : List Char := Text.unlines b.lines

def isQuote (c : Char) : Bool := c = '"' || c = '\''

def key (b : Block) : String :=
  let word := (Text.trim b.first).takeWhile (· ≠ ':')
  String.ofList (((word.dropWhile isQuote).reverse.dropWhile isQuote).reverse)

end Block

/-- The blocks of a list of lines. Lines before the first block are dropped. -/
def blocks (indent : Nat) : List (List Char) → List Block
  | [] => []
  | line :: rest =>
    if startsBlock indent line then
      ⟨line, rest.takeWhile (!startsBlock indent ·)⟩ :: blocks indent rest
    else blocks indent rest

structure Recovered where
  entries : Mapping
  issues : List Issue

namespace Recovered

def none : Recovered := ⟨[], []⟩

def append (a b : Recovered) : Recovered :=
  ⟨Mapping.insertAll a.entries b.entries, a.issues ++ b.issues⟩

def ofIssue (i : Issue) : Recovered := ⟨[], [i]⟩

def join (l : List Recovered) : Recovered := l.foldl append none

end Recovered

/-- A line without the indentation of its job, in bytes; a line that has no such start loses all
its blanks. -/
def dedent (indent : Nat) (line : List Char) : List Char :=
  (Text.dropBytes? indent line).getD (Text.trimStart line)

def dedentedText (indent : Nat) (b : Block) : List Char :=
  Text.unlines ((Text.lines b.text).map (dedent indent))

def recoverJob (read : Reader) (indent : Nat) (b : Block) : Recovered :=
  match read (String.ofList (dedentedText indent b)) with
  | .ok (.mapping entries) => ⟨entries, []⟩
  | .ok _ => .ofIssue (.jobNotMapping b.key)
  | .error _ => .ofIssue (.jobSkipped b.key)

def sectionBody (text : List Char) : List (List Char) :=
  Text.lines (Text.unlines ((Text.lines text).drop 1))

/-- The jobs of a malformed jobs section. The first line of content sets their indentation. -/
def recoverJobs (read : Reader) (text : List Char) : Recovered :=
  let body := sectionBody text
  match body.find? isContentLine with
  | none => .none
  | some line =>
    let indent := Text.indentation line
    .join ((blocks indent body).map (recoverJob read indent))

def recoverSection (read : Reader) (b : Block) : Recovered :=
  match read (String.ofList b.text) with
  | .ok (.mapping entries) => ⟨entries, []⟩
  | .ok _ => .ofIssue (.sectionNotMapping b.key)
  | .error _ =>
    if b.key = "jobs" then
      let jobs := recoverJobs read b.text
      ⟨[(.string "jobs", .mapping jobs.entries)], .jobsUnreadable :: jobs.issues⟩
    else .ofIssue (.sectionSkipped b.key)

def recoverSections (read : Reader) (text : List Char) : Recovered :=
  .join ((blocks 0 (Text.lines text)).map (recoverSection read))

end WorkflowAudit.Workflow
