import WorkflowAudit.Decimal.Binary
import WorkflowAudit.Text.Digits
import WorkflowAudit.Time.Calendar
import WorkflowAudit.Toml.Value

namespace WorkflowAudit.Toml

open Text (decimalValue hexDigit? hexValue? valueInBase)

abbrev Reader (α : Type) := List Char → Option (α × List Char)

def isBlank (c : Char) : Bool := c = ' ' || c = '\t'

def skipBlanks (s : List Char) : List Char := s.dropWhile isBlank

def newline? : List Char → Option (List Char)
  | '\n' :: s => some s
  | '\r' :: '\n' :: s => some s
  | _ => none

def isPrinted (c : Char) : Bool := c = '\t' || (0x20 ≤ c.toNat && c.toNat ≠ 0x7F)

def skipComment : List Char → List Char
  | '#' :: s => s.dropWhile isPrinted
  | s => s

def skipLines : Nat → List Char → List Char
  | 0, s => s
  | fuel + 1, s =>
    match skipBlanks s with
    | '#' :: rest =>
      match newline? (skipComment ('#' :: rest)) with
      | some rest => skipLines fuel rest
      | none => '#' :: rest
    | rest =>
      match newline? rest with
      | some rest => skipLines fuel rest
      | none => rest

def skipAll (s : List Char) : List Char := skipLines s.length s

def codePoint (width : Nat) : Reader Char := fun s => do
  let digits := s.take width
  guard (digits.length = width)
  let n ← hexValue? digits
  if n.isValidChar then some (Char.ofNat n, s.drop width) else none

def escaped : Reader Char
  | 'b' :: s => some ('\x08', s)
  | 't' :: s => some ('\t', s)
  | 'n' :: s => some ('\n', s)
  | 'f' :: s => some ('\x0c', s)
  | 'r' :: s => some ('\r', s)
  | '"' :: s => some ('"', s)
  | '\\' :: s => some ('\\', s)
  | 'u' :: s => codePoint 4 s
  | 'U' :: s => codePoint 8 s
  | _ => none

def basicRest : Nat → List Char → Reader (List Char)
  | 0, _, _ => none
  | _ + 1, done, '"' :: s => some (done.reverse, s)
  | fuel + 1, done, '\\' :: s => do
    let (c, s) ← escaped s
    basicRest fuel (c :: done) s
  | fuel + 1, done, c :: s => if isPrinted c then basicRest fuel (c :: done) s else none
  | _ + 1, _, [] => none

def literalRest : List Char → Reader (List Char)
  | done, '\'' :: s => some (done.reverse, s)
  | done, c :: s => if isPrinted c then literalRest (c :: done) s else none
  | _, [] => none

def skipBlankLines : List Char → List Char
  | ' ' :: s => skipBlankLines s
  | '\t' :: s => skipBlankLines s
  | '\n' :: s => skipBlankLines s
  | '\r' :: '\n' :: s => skipBlankLines s
  | s => s

def multilineRest (quote : Char) : Nat → List Char → Reader (List Char)
  | 0, _, _ => none
  | fuel + 1, done, s =>
    if [quote, quote, quote].isPrefixOf s then
      let quotes := (s.take 5).takeWhile (· = quote)
      some (List.replicate (quotes.length - 3) quote ++ done |>.reverse, s.drop quotes.length)
    else match s with
      | [] => none
      | '\\' :: rest =>
        if quote = '"' then
          match newline? (skipBlanks rest) with
          | some rest => multilineRest quote fuel done (skipBlankLines rest)
          | none => do
            let (c, rest) ← escaped rest
            multilineRest quote fuel (c :: done) rest
        else multilineRest quote fuel ('\\' :: done) rest
      | c :: rest =>
        match newline? (c :: rest) with
        | some rest => multilineRest quote fuel ('\n' :: done) rest
        | none => if isPrinted c then multilineRest quote fuel (c :: done) rest else none

def lineString : Reader String
  | '"' :: s => (basicRest (s.length + 1) [] s).map fun (cs, s) => (String.ofList cs, s)
  | '\'' :: s => (literalRest [] s).map fun (cs, s) => (String.ofList cs, s)
  | _ => none

def string (s : List Char) : Option (String × List Char) :=
  let multiline (quote : Char) (s : List Char) : Option (String × List Char) :=
    let s := (newline? s).getD s
    (multilineRest quote (s.length + 1) [] s).map fun (cs, s) => (String.ofList cs, s)
  match s with
  | '"' :: '"' :: '"' :: rest => multiline '"' rest
  | '\'' :: '\'' :: '\'' :: rest => multiline '\'' rest
  | s => lineString s

def isBareKeyChar (c : Char) : Bool := c.isAlphanum || c = '-' || c = '_'

def simpleKey (s : List Char) : Option (String × List Char) :=
  match s with
  | '"' :: _ => lineString s
  | '\'' :: _ => lineString s
  | s =>
    let bare := s.takeWhile isBareKeyChar
    if bare.isEmpty then none else some (String.ofList bare, s.drop bare.length)

def depthLimit : Nat := 80

def key : Nat → Reader (List String)
  | 0, _ => none
  | fuel + 1, s => do
    let (part, s) ← simpleKey (skipBlanks s)
    match skipBlanks s with
    | '.' :: s =>
      let (parts, s) ← key fuel s
      return (part :: parts, s)
    | s => return ([part], s)

def digits (isDigit : Char → Bool) : List Char → List Char × List Char
  | c :: '_' :: d :: s =>
    if isDigit c then
      if isDigit d then
        let (more, s) := digits isDigit (d :: s)
        (c :: more, s)
      else ([c], '_' :: d :: s)
    else ([], c :: '_' :: d :: s)
  | c :: s =>
    if isDigit c then
      let (more, s) := digits isDigit s
      (c :: more, s)
    else ([], c :: s)
  | [] => ([], [])

def digitsInBase (base : Nat) (s : List Char) : Option (Nat × List Char) :=
  let isDigit (c : Char) : Bool := ((hexDigit? c).map (· < base : Nat → Bool)).getD false
  match digits isDigit s with
  | ([], _) => none
  | (ds, s) => some (valueInBase base (ds.filterMap hexDigit?), s)

def sign : List Char → Bool × List Char
  | '-' :: s => (true, s)
  | '+' :: s => (false, s)
  | s => (false, s)

def wholeDigits (s : List Char) : Option (List Char × List Char) :=
  match s with
  | '0' :: s => some (['0'], s)
  | s => match digits Char.isDigit s with
    | ([], _) => none
    | result => some result

def fits64 (i : Int) : Option Int := if -Int.pow 2 63 ≤ i && i < Int.pow 2 63 then some i else none

def integer (s : List Char) : Option (Value × List Char) := do
  let (n, s) ← match s with
    | '0' :: 'x' :: s => (digitsInBase 16 s).map fun (n, s) => ((n : Int), s)
    | '0' :: 'o' :: s => (digitsInBase 8 s).map fun (n, s) => ((n : Int), s)
    | '0' :: 'b' :: s => (digitsInBase 2 s).map fun (n, s) => ((n : Int), s)
    | s =>
      let (negative, s) := sign s
      (wholeDigits s).map fun (ds, s) =>
        (if negative then -(decimalValue ds : Int) else decimalValue ds, s)
  return (.integer (← fits64 n), s)

def exponent (s : List Char) : Option (Int × List Char) :=
  match s with
  | e :: s =>
    if e = 'e' || e = 'E' then
      let (negative, s) := sign s
      match digits Char.isDigit s with
      | ([], _) => none
      | (ds, s) => some (if negative then -(decimalValue ds : Int) else decimalValue ds, s)
    else none
  | [] => none

def fractionAndExponent (s : List Char) : Option ((List Char × Int) × List Char) :=
  match s with
  | '.' :: s =>
    match digits Char.isDigit s with
    | ([], _) => none
    | (ds, s) =>
      match exponent s with
      | some (e, s) => some ((ds, e), s)
      | none => some ((ds, 0), s)
  | s => (exponent s).map fun (e, s) => (([], e), s)

/-- A double. One that is too large is refused, unless it is negative, which makes it infinite. -/
def float (s : List Char) : Option (Value × List Char) := do
  let (negative, s) := sign s
  match s with
  | 'i' :: 'n' :: 'f' :: s =>
    let infinity := Float.ofBits 0x7FF0000000000000
    return (.float (if negative then -infinity else infinity), s)
  | 'n' :: 'a' :: 'n' :: s => return (.float (Float.ofBits 0x7FF8000000000000), s)
  | s =>
    let (whole, s) ← wholeDigits s
    let ((fraction, e), s) ← fractionAndExponent s
    let x := Decimal.nearest (decimalValue (whole ++ fraction)) (e - fraction.length)
    guard (x.isFinite || negative)
    return (.float (if negative then -x else x), s)

def fixedDigits (width : Nat) : Reader Nat := fun s =>
  let ds := s.take width
  if ds.length = width && ds.all Char.isDigit then some (decimalValue ds, s.drop width) else none

def mark (c : Char) : List Char → Option (List Char)
  | d :: s => if d = c then some s else none
  | [] => none

def timeOfDay (s : List Char) : Option (List Char) := do
  let (hour, s) ← fixedDigits 2 s
  let (minute, s) ← fixedDigits 2 (← mark ':' s)
  let (second, s) ← fixedDigits 2 (← mark ':' s)
  guard (hour ≤ 23 && minute ≤ 59 && second ≤ 60)
  match s with
  | '.' :: rest =>
    let ds := rest.takeWhile Char.isDigit
    if ds.isEmpty then none else some (rest.drop ds.length)
  | s => some s

def offset (s : List Char) : Option (List Char) :=
  match s with
  | 'Z' :: s => some s
  | 'z' :: s => some s
  | c :: s =>
    if c = '+' || c = '-' then do
      let (hour, s) ← fixedDigits 2 s
      let (minute, s) ← fixedDigits 2 (← mark ':' s)
      guard (hour ≤ 23 && minute ≤ 59)
      return s
    else none
  | [] => none

def isTimeMark (c : Char) : Bool := c = 'T' || c = 't' || c = ' '

def moment (s : List Char) : Option (Value × List Char) :=
  let date : Option (List Char) := do
    let (year, s) ← fixedDigits 4 s
    let (month, s) ← fixedDigits 2 (← mark '-' s)
    let (day, s) ← fixedDigits 2 (← mark '-' s)
    guard (Time.Date.isValid ⟨year, month, day⟩)
    return s
  match date with
  | some rest =>
    let withTime : Option (List Char) := do
      let c :: rest := rest | none
      guard (isTimeMark c)
      let rest ← timeOfDay rest
      return (offset rest).getD rest
    some (.moment, withTime.getD rest)
  | none => (timeOfDay s).map fun s => (.moment, s)

def word (w : String) (value : Value) (s : List Char) : Option (Value × List Char) :=
  if w.toList.isPrefixOf s then some (value, s.drop w.length) else none

def scalar (s : List Char) : Option (Value × List Char) :=
  match s with
  | '"' :: _ => (string s).map fun (text, s) => (.string text, s)
  | '\'' :: _ => (string s).map fun (text, s) => (.string text, s)
  | 't' :: _ => word "true" (.bool true) s
  | 'f' :: _ => word "false" (.bool false) s
  | s => moment s <|> float s <|> integer s

end WorkflowAudit.Toml
