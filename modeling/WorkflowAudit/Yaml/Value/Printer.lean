import WorkflowAudit.Decimal.Notation
import WorkflowAudit.Text.Blank
import WorkflowAudit.Yaml.Cursor
import WorkflowAudit.Yaml.Value.Plain

/-! YAML text of a value in block style. Only empty collections are written in brackets. A string
is written plain where that reads back as the same string, and quoted or as a block of its lines
where it does not. -/

namespace WorkflowAudit.Yaml

def Number.write : Number → String
  | .int i => toString i
  | .float x => Decimal.Notation.data.write x

def isPrintable (c : Char) : Bool :=
  let n := c.toNat
  n = 0x0A || (0x20 ≤ n && n ≤ 0x7E) || (0xA0 ≤ n && n ≠ 0xFEFF && n ≠ 0xFFFE && n ≠ 0xFFFF)

inductive Scalar.Style
  | plain
  | singleQuoted
  | doubleQuoted
  | literal
  deriving DecidableEq, Repr

namespace Scalar

def truthWords : List String :=
  ["y", "Y", "yes", "Yes", "YES", "n", "N", "no", "No", "NO", "true", "True", "TRUE", "false",
    "False", "FALSE", "on", "On", "ON", "off", "Off", "OFF"]

/-- Whether a plain scalar with this text would be something else than the string, or could be
taken for it. -/
def readsOtherwise (s : String) : Bool :=
  truthWords.contains s || hasOtherType || Plain.hasLeadingZero s.toList
where
  hasOtherType : Bool :=
    match Plain.value s with
    | .ok (.string _) => false
    | _ => true

def hasPair (first second : Char → Bool) : List Char → Bool
  | a :: b :: rest => (first a && second b) || hasPair first second (b :: rest)
  | _ => false

def hasIndicator (s : List Char) : Bool :=
  let blank c := c = ' ' || c = '\t' || c = '\x00' || isBreak c
  ['-', '-', '-'].isPrefixOf s || ['.', '.', '.'].isPrefixOf s ||
    (match s with
      | [] => false
      | c :: rest =>
        "#,[]\x7b\x7d&*!|>'\"%@\u0060".toList.contains c ||
          ((c = '?' || c = '-') && (rest.head?.map blank).getD true)) ||
    hasPair (· = ':') blank s || s.getLast? = some ':' || hasPair blank (· = '#') s

def styleOf (s : String) (wanted : Style) : Style :=
  let cs := s.toList
  let isEdge c := c = ' ' || isBreak c
  let broken := cs.any isBreak
  let special := cs.any (!isPrintable ·)
  let breakSpace := hasPair isBreak (· = ' ') cs
  let spaceBreak := hasPair (· = ' ') isBreak cs
  let trailingSpace := cs.getLast? = some ' '
  let plainAllowed := !(broken || special || hasIndicator cs || (cs.head?.map isEdge).getD false ||
    (cs.getLast?.map isEdge).getD false)
  let singleAllowed := !(breakSpace || spaceBreak || special)
  let literalAllowed := !(cs.isEmpty || trailingSpace || spaceBreak || special)
  let quoted := if singleAllowed then .singleQuoted else .doubleQuoted
  match wanted with
  | .plain => if plainAllowed then .plain else quoted
  | .singleQuoted => quoted
  | .literal => if literalAllowed then .literal else .doubleQuoted
  | .doubleQuoted => .doubleQuoted

def style (s : String) : Style :=
  if truthWords.contains s then styleOf s .singleQuoted
  else if s.toList.contains '\n' then styleOf s .literal
  else if readsOtherwise s then styleOf s .singleQuoted
  else styleOf s .plain

def spaces (n : Nat) : String := String.ofList (List.replicate n ' ')

def indentLines (indent : Nat) (afterBreak : Bool) : List Char → String
  | [] => ""
  | c :: rest =>
    if isBreak c then String.singleton c ++ indentLines indent true rest
    else (if afterBreak then spaces indent else "") ++ String.singleton c ++
      indentLines indent false rest

/-- Single quotes are doubled. A newline would be doubled too, but no text with one is written in
single quotes. -/
def writeSingleQuoted (indent : Nat) (s : String) : String :=
  let inner := s.toList.flatMap fun c => if c = '\'' then ['\'', '\''] else [c]
  let closing := if (s.toList.getLast?.map isBreak).getD false then spaces indent else ""
  "'" ++ indentLines indent false inner ++ closing ++ "'"

def escape (c : Char) : String :=
  match c with
  | '\x00' => "\\0"
  | '\x07' => "\\a"
  | '\x08' => "\\b"
  | '\t' => "\\t"
  | '\n' => "\\n"
  | '\x0b' => "\\v"
  | '\x0c' => "\\f"
  | '\r' => "\\r"
  | '\x1b' => "\\e"
  | '"' => "\\\""
  | '\\' => "\\\\"
  | '\u0085' => "\\N"
  | '\u2028' => "\\L"
  | '\u2029' => "\\P"
  | c =>
    let hex (width : Nat) := String.ofList (Text.upperHexDigits width c.toNat)
    if isPrintable c then String.singleton c
    else if c.toNat ≤ 0xFF then "\\x" ++ hex 2
    else if c.toNat ≤ 0xFFFF then "\\u" ++ hex 4
    else "\\U" ++ hex 8

def writeDoubleQuoted (s : String) : String :=
  "\"" ++ s.foldl (fun text c => text ++ escape c) "" ++ "\""

/-- What stands after the bar: the indentation if the text starts with a blank, and what is done
with the line ends at its end: strip them, keep one, or keep all. -/
def literalHints (s : List Char) : String :=
  let indent := match s with
    | c :: _ => if c = ' ' || isBreak c then "2" else ""
    | [] => ""
  let chomp := match s.reverse with
    | [] => "-"
    | [c] => if isBreak c then "+" else "-"
    | c :: d :: _ => if !isBreak c then "-" else if isBreak d then "+" else ""
  indent ++ chomp

def writeLiteral (indent : Nat) (s : String) : String :=
  "|" ++ literalHints s.toList ++ "\n" ++ indentLines indent true s.toList

def writeString (indent : Nat) (s : String) : String :=
  match style s with
  | .plain => s
  | .singleQuoted => writeSingleQuoted indent s
  | .doubleQuoted => writeDoubleQuoted s
  | .literal => writeLiteral indent s

end Scalar

def writeTag (tag : String) : String :=
  let content (s : String) := s.foldl (fun text c => text ++ tagChar c) ""
  if tag = "!" then "!<" ++ content tag ++ ">" else "!" ++ content tag
where
  tagChar (c : Char) : String :=
    if c.isAlphanum || "_-;/?:@&=+$,.~*'()[]".toList.contains c then String.singleton c
    else (String.singleton c).toUTF8.toList.foldl
      (fun text b => text ++ "%" ++ String.ofList (Text.upperHexDigits 2 b.toNat)) ""

namespace Value

def scalarText? : Value → Option String
  | .null => some "null"
  | .bool b => some (if b then "true" else "false")
  | .number n => some n.write
  | .string s => some s
  | _ => none

def isSimpleKey (key : Value) : Bool :=
  match key with
  | .tagged tag content =>
    fits (if tag = "!" then 1 else 1 + tag.utf8ByteSize) content
  | key => fits 0 key
where
  fits (size : Nat) : Value → Bool
    | .sequence [] => size ≤ 128
    | .mapping [] => size ≤ 128
    | v => match v.scalarText? with
      | some s => !s.toList.any isBreak && size + s.utf8ByteSize ≤ 128
      | none => false

structure Place where
  around : Option Nat
  inMapping : Bool
  /-- Nothing but indicators stands on the line, so that a collection may start on it. -/
  inlineStart : Bool
  /-- Something stands right before, so that a blank has to be put in between. -/
  afterText : Bool

namespace Place

def root : Place := ⟨none, false, true, false⟩

def lead (p : Place) : String := if p.afterText then " " else ""

def scalarColumn (p : Place) : Nat := (p.around.getD 0) + 2

def mappingColumn (p : Place) : Nat :=
  match p.around with
  | none => 0
  | some n => n + 2

def sequenceColumn (p : Place) : Nat :=
  match p.around with
  | none => 0
  | some n => if p.inMapping && !p.inlineStart then n else n + 2

def afterTag (p : Place) : Place := { p with inlineStart := false, afterText := true }

end Place

def newLine (column : Nat) (out : String) : String :=
  let out := match out.toList.getLast? with
    | some c => if isBreak c then out else out ++ "\n"
    | none => out
  out ++ Scalar.spaces column

def firstLine (p : Place) (column : Nat) (out : String) : String :=
  if p.inlineStart then out ++ p.lead else newLine column out

mutual

def put (p : Place) (out : String) : Value → String
  | .string s => out ++ p.lead ++ Scalar.writeString p.scalarColumn s
  | .null => out ++ p.lead ++ "null"
  | .bool b => out ++ p.lead ++ if b then "true" else "false"
  | .number n => out ++ p.lead ++ n.write
  | .sequence [] => out ++ p.lead ++ "[]"
  | .sequence (v :: rest) =>
    let column := p.sequenceColumn
    let out := put ⟨some column, false, true, true⟩ (firstLine p column out ++ "-") v
    putItems column out rest
  | .mapping [] => out ++ p.lead ++ "\x7b\x7d"
  | .mapping ((k, v) :: rest) =>
    let column := p.mappingColumn
    let out := putKey column (firstLine p column out) k
    let out := put ⟨some column, true, !k.isSimpleKey, true⟩ out v
    putEntries column out rest
  | .tagged tag content => put p.afterTag (out ++ p.lead ++ writeTag tag) content

def putKey (column : Nat) (out : String) (key : Value) : String :=
  if key.isSimpleKey then put ⟨some column, true, true, false⟩ out key ++ ":"
  else newLine column (put ⟨some column, true, true, true⟩ (out ++ "?") key) ++ ":"

def putItems (column : Nat) (out : String) : List Value → String
  | [] => out
  | v :: rest =>
    putItems column (put ⟨some column, false, true, true⟩ (newLine column out ++ "-") v) rest

def putEntries (column : Nat) (out : String) : Mapping → String
  | [] => out
  | (k, v) :: rest =>
    let out := putKey column (newLine column out) k
    putEntries column (put ⟨some column, true, !k.isSimpleKey, true⟩ out v) rest

end

def write (v : Value) : String := String.ofList (Text.trim (put .root "" v).toList)

end Value

end WorkflowAudit.Yaml
