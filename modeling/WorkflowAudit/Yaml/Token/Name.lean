import WorkflowAudit.Yaml.Cursor
import WorkflowAudit.Yaml.Error
import WorkflowAudit.Yaml.Token
import WorkflowAudit.Yaml.Token.Scalar

namespace WorkflowAudit.Yaml.Token

def readName (c : Cursor) : Except Error (String × Cursor) :=
  let (name, c) := (c.skip 1).takeWhile isNameChar
  let follows := match c.peek with
    | none => true
    | some ch => isGap ch || "?:,]\x7d%@\u0060".toList.contains ch
  if name.isEmpty || !follows then .error .badAnchor else .ok (String.ofList name, c)

def readHandle (directive : Bool) (c : Cursor) : Except Error (List Char × Cursor) :=
  if c.peek ≠ some '!' then .error .badTag else
    let (name, c) := (c.skip 1).takeWhile isNameChar
    if c.peek = some '!' then .ok ('!' :: name ++ ['!'], c.skip 1)
    else if directive && !name.isEmpty then .error .badTag
    else .ok ('!' :: name, c)

def isTagChar (marked : Bool) (c : Char) : Bool :=
  isNameChar c || ";/?:@&=+$.%!~*'()".toList.contains c || marked && ",[]".toList.contains c

def escapeWidth? (byte : Nat) : Option Nat :=
  if byte < 0x80 then some 1
  else if 0xC0 ≤ byte && byte < 0xE0 then some 2
  else if 0xE0 ≤ byte && byte < 0xF0 then some 3
  else if 0xF0 ≤ byte && byte < 0xF8 then some 4
  else none

def escapedBytes : Nat → List Char → List Nat
  | n + 1, '%' :: a :: b :: rest =>
    match Text.hexDigit? a, Text.hexDigit? b with
    | some a, some b => (16 * a + b) :: escapedBytes n rest
    | _, _ => []
  | _, _ => []

def escapedChar? (s : List Char) : Option (Char × Nat) := do
  let first ← (escapedBytes 1 s).head?
  let width ← escapeWidth? first
  let bytes := escapedBytes width s
  guard (bytes.length = width)
  let text ← String.fromUTF8? ⟨(bytes.map UInt8.ofNat).toArray⟩
  let c ← text.toList.head?
  return (c, width)

def readTagText (fuel : Nat) (marked : Bool) (done : List Char) (c : Cursor) :
    Except Error (List Char × Cursor) :=
  match fuel with
  | 0 => .ok (done.reverse, c)
  | fuel + 1 =>
    match c.peek with
    | none => .ok (done.reverse, c)
    | some ch =>
      if ch = '%' then
        match escapedChar? c.rest with
        | none => .error .badTag
        | some (ch, width) => readTagText fuel marked (ch :: done) (c.skip (3 * width))
      else if isTagChar marked ch then readTagText fuel marked (ch :: done) (c.skip 1)
      else .ok (done.reverse, c)

/-- A tag: spelled out as `!<tag>`, or a handle and a suffix. The lone `!` counts as spelled out. -/
def readTag (fuel : Nat) (flow : Bool) (c : Cursor) : Except Error (Token × Cursor) := do
  let (token, c) ← match c.rest with
    | '!' :: '<' :: _ =>
      let (text, c) ← readTagText fuel true [] (c.skip 2)
      if text.isEmpty || c.peek ≠ some '>' then throw .badTag
      pure (Token.tag "" (String.ofList text), c.skip 1)
    | _ =>
      let (handle, c) ← readHandle false c
      let (text, c) ← readTagText fuel false [] c
      if handle.length > 1 && handle.getLast? = some '!' then
        if text.isEmpty then throw .badTag
        pure (Token.tag (String.ofList handle) (String.ofList text), c)
      else
        let suffix := handle.tail ++ text
        if suffix.isEmpty then pure (Token.tag "" "!", c)
        else pure (Token.tag "!" (String.ofList suffix), c)
  if isGap c.peek || flow && c.peek = some ',' then return (token, c) else throw .badTag

def skipBlanks (c : Cursor) : Cursor := c.skipWhile isSpaceOrTab

def readVersionNumber (c : Cursor) : Except Error (Nat × Cursor) :=
  let (digits, c) := c.takeWhile Char.isDigit
  if digits.isEmpty || digits.length > 9 then .error .badDirective
  else .ok (Text.decimalValue digits, c)

def readDirective (fuel : Nat) (c : Cursor) : Except Error (Token × Cursor) := do
  let (name, c) := (c.skip 1).takeWhile isNameChar
  if !isGap c.peek then throw .badDirective
  let (token, c) ← match String.ofList name with
    | "YAML" =>
      let (major, c) ← readVersionNumber (skipBlanks c)
      if c.peek ≠ some '.' then throw .badDirective
      let (minor, c) ← readVersionNumber (c.skip 1)
      pure (Token.versionDirective major minor, c)
    | "TAG" =>
      let (handle, c) ← readHandle true (skipBlanks c)
      if !(c.peek.map isSpaceOrTab).getD false then throw .badDirective
      let (text, c) ← readTagText fuel true [] (skipBlanks c)
      if text.isEmpty || !isGap c.peek then throw .badDirective
      pure (Token.tagDirective (String.ofList handle) (String.ofList text), c)
    | _ => throw .badDirective
  let c := c.skipToLineEnd
  if (c.peek.map isBreak).getD true then return (token, c.skipBreak) else throw .badDirective

end WorkflowAudit.Yaml.Token
