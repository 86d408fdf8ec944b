import WorkflowAudit.Decimal.Binary
import WorkflowAudit.Json.Value
import WorkflowAudit.Text.Digits

namespace WorkflowAudit.Json

inductive ReadError
  | unexpectedEnd
  | unexpected (c : Char)
  | badEscape
  | controlCharacter
  | numberOutOfRange
  | tooDeep
  | trailing
  deriving DecidableEq, Repr

def isSpace (c : Char) : Bool := c = ' ' || c = '\n' || c = '\t' || c = '\r'

def skipSpace (s : List Char) : List Char := s.dropWhile isSpace

def keyword (word : List Char) (s : List Char) : Except ReadError (List Char) :=
  match word, s with
  | [], s => .ok s
  | _ :: _, [] => .error .unexpectedEnd
  | w :: word, c :: s => if w = c then keyword word s else .error (.unexpected c)

def codeUnit : List Char → Except ReadError (Nat × List Char)
  | a :: b :: c :: d :: rest =>
    match Text.hexValue? [a, b, c, d] with
    | some n => .ok (n, rest)
    | none => .error .badEscape
  | _ => .error .unexpectedEnd

def isHighSurrogate (n : Nat) : Bool := 0xD800 ≤ n && n < 0xDC00

def isLowSurrogate (n : Nat) : Bool := 0xDC00 ≤ n && n < 0xE000

def unicodeEscape (s : List Char) : Except ReadError (Char × List Char) := do
  let (high, s) ← codeUnit s
  if isHighSurrogate high then
    match s with
    | '\\' :: 'u' :: s =>
      let (low, s) ← codeUnit s
      if isLowSurrogate low then
        .ok (Char.ofNat (0x10000 + (high - 0xD800) * 0x400 + (low - 0xDC00)), s)
      else .error .badEscape
    | _ => .error .badEscape
  else if isLowSurrogate high then .error .badEscape
  else .ok (Char.ofNat high, s)

/-- The rest of a string after its opening quote; `fuel` is at least the number of characters. -/
def stringBody : Nat → List Char → List Char → Except ReadError (String × List Char)
  | 0, _, _ => .error .unexpectedEnd
  | _ + 1, _, [] => .error .unexpectedEnd
  | fuel + 1, done, c :: rest =>
    if c = '"' then .ok (String.ofList done.reverse, rest)
    else if c = '\\' then
      match rest with
      | [] => .error .unexpectedEnd
      | 'u' :: rest => do
        let (c, rest) ← unicodeEscape rest
        stringBody fuel (c :: done) rest
      | e :: rest =>
        match escaped? e with
        | some c => stringBody fuel (c :: done) rest
        | none => .error .badEscape
    else if c.toNat < 0x20 then .error .controlCharacter
    else stringBody fuel (c :: done) rest
where
  escaped? : Char → Option Char
    | '"' => some '"'
    | '\\' => some '\\'
    | '/' => some '/'
    | 'b' => some '\x08'
    | 'f' => some '\x0c'
    | 'n' => some '\n'
    | 'r' => some '\r'
    | 't' => some '\t'
    | _ => none

structure NumberText where
  negative : Bool
  whole : List Char
  fraction : List Char
  exponent : Option Int

def numberText (s : List Char) : Except ReadError (NumberText × List Char) := do
  let (negative, s) := match s with
    | '-' :: rest => (true, rest)
    | s => (false, s)
  let (whole, s) ← digits1 s
  if whole.length > 1 && whole.head? = some '0' then throw (.unexpected '0')
  let (fraction, s) ← match s with
    | '.' :: rest => digits1 rest
    | s => pure ([], s)
  let (exponent, s) ← match s with
    | 'e' :: rest => signed rest
    | 'E' :: rest => signed rest
    | s => pure (none, s)
  return (⟨negative, whole, fraction, exponent⟩, s)
where
  digits1 (s : List Char) : Except ReadError (List Char × List Char) :=
    match s.takeWhile Char.isDigit, s.dropWhile Char.isDigit with
    | [], [] => .error .unexpectedEnd
    | [], c :: _ => .error (.unexpected c)
    | ds, rest => .ok (ds, rest)
  signed (s : List Char) : Except ReadError (Option Int × List Char) := do
    let (negative, s) := match s with
      | '-' :: rest => (true, rest)
      | '+' :: rest => (false, rest)
      | s => (false, s)
    let (ds, s) ← digits1 s
    let n : Int := Text.decimalValue ds
    return (some (if negative then -n else n), s)

def maxWord : Nat := Nat.pow 2 64 - 1

/-- Digits taken into a 64-bit significand as long as they fit. Those of the whole part that do not
fit raise the exponent, those of the fraction are dropped. -/
def NumberText.significand (t : NumberText) : Nat × Int :=
  let rec take (n : Nat) : List Char → Nat × List Char
    | [] => (n, [])
    | c :: rest =>
      if 10 * n + Text.digitValue c ≤ maxWord then take (10 * n + Text.digitValue c) rest
      else (n, c :: rest)
  match take 0 t.whole with
  | (n, []) =>
    let (n, unread) := take n t.fraction
    (n, -((t.fraction.length - unread.length : Nat) : Int))
  | (n, unread) => (n, (unread.length : Nat))

/-- A significand scaled by a power of ten in one multiplication or division of doubles, after as
many divisions by `1e308` as a very small exponent takes. -/
def scaled (fuel : Nat) (x : Float) (exponent : Int) : Except ReadError Float :=
  match fuel with
  | 0 => .ok 0
  | fuel + 1 =>
    if exponent.natAbs ≤ 308 then
      let power := Decimal.nearest 1 exponent.natAbs
      if exponent ≥ 0 then
        if (x * power).isFinite then .ok (x * power) else .error .numberOutOfRange
      else .ok (x / power)
    else if x == 0 then .ok x
    else if exponent ≥ 0 then .error .numberOutOfRange
    else scaled fuel (x / Decimal.nearest 1 308) (exponent + 308)

def NumberText.value (t : NumberText) : Except ReadError Number := do
  let (n, place) := t.significand
  if t.fraction.isEmpty && t.exponent.isNone && place = 0 then
    if !t.negative then return .int n
    if 0 < n && n ≤ Nat.pow 2 63 then return .int (-n)
  let x ← scaled 5 (Float.ofNat n) (place + t.exponent.getD 0)
  return .float (if t.negative then -x else x)

def depthLimit : Nat := 128

mutual

/-- A value with blanks before it. `fuel` bounds the steps and `depth` the nesting. -/
def value (fuel depth : Nat) (s : List Char) : Except ReadError (Json × List Char) :=
  match fuel with
  | 0 => .error .unexpectedEnd
  | fuel + 1 =>
    match skipSpace s with
    | [] => .error .unexpectedEnd
    | 'n' :: rest => do return (.null, ← keyword "ull".toList rest)
    | 't' :: rest => do return (.bool true, ← keyword "rue".toList rest)
    | 'f' :: rest => do return (.bool false, ← keyword "alse".toList rest)
    | '"' :: rest => do
      let (text, rest) ← stringBody (rest.length + 1) [] rest
      return (.str text, rest)
    | '[' :: rest =>
      match depth with
      | 0 => .error .tooDeep
      | depth + 1 =>
        match skipSpace rest with
        | ']' :: rest => .ok (.arr [], rest)
        | rest => items fuel depth [] rest
    | '\x7b' :: rest =>
      match depth with
      | 0 => .error .tooDeep
      | depth + 1 =>
        match skipSpace rest with
        | '\x7d' :: rest => .ok (.obj [], rest)
        | rest => members fuel depth [] rest
    | c :: rest =>
      if c = '-' || c.isDigit then do
        let (text, rest) ← numberText (c :: rest)
        return (.num (← text.value), rest)
      else .error (.unexpected c)

def items (fuel depth : Nat) (done : List Json) (s : List Char) :
    Except ReadError (Json × List Char) :=
  match fuel with
  | 0 => .error .unexpectedEnd
  | fuel + 1 => do
    let (item, rest) ← value fuel depth s
    match skipSpace rest with
    | ',' :: rest => items fuel depth (item :: done) rest
    | ']' :: rest => .ok (.arr (item :: done).reverse, rest)
    | c :: _ => .error (.unexpected c)
    | [] => .error .unexpectedEnd

def members (fuel depth : Nat) (done : List (String × Json)) (s : List Char) :
    Except ReadError (Json × List Char) :=
  match fuel with
  | 0 => .error .unexpectedEnd
  | fuel + 1 =>
    match skipSpace s with
    | '"' :: rest => do
      let (name, rest) ← stringBody (rest.length + 1) [] rest
      match skipSpace rest with
      | ':' :: rest =>
        let (item, rest) ← value fuel depth rest
        let done := setMember done name item
        match skipSpace rest with
        | ',' :: rest => members fuel depth done rest
        | '\x7d' :: rest => .ok (.obj done, rest)
        | c :: _ => .error (.unexpected c)
        | [] => .error .unexpectedEnd
      | c :: _ => .error (.unexpected c)
      | [] => .error .unexpectedEnd
    | c :: _ => .error (.unexpected c)
    | [] => .error .unexpectedEnd

end

def read (text : String) : Except ReadError Json := do
  let s := text.toList
  let (j, rest) ← value (s.length + 1) depthLimit s
  match skipSpace rest with
  | [] => return j
  | _ => throw .trailing

end WorkflowAudit.Json
