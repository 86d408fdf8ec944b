import WorkflowAudit.Decimal.Binary
import WorkflowAudit.Yaml.Error
import WorkflowAudit.Yaml.Token.Scalar
import WorkflowAudit.Yaml.Value

namespace WorkflowAudit.Yaml.Plain

def null? (s : String) : Bool := s = "null" || s = "Null" || s = "NULL" || s = "~"

def bool? (s : String) : Option Bool :=
  if s = "true" || s = "True" || s = "TRUE" then some true
  else if s = "false" || s = "False" || s = "FALSE" then some false
  else none

def hasLeadingZero (s : List Char) : Bool :=
  let s := match s with
    | '-' :: rest => rest
    | '+' :: rest => rest
    | s => s
  s.length > 1 && s.head? = some '0' && s.all Char.isDigit

def integer? (s : List Char) : Option Int :=
  match s with
  | '-' :: rest => (natural? rest).map fun n => -(n : Int)
  | '+' :: rest => (natural? rest).map fun n => (n : Int)
  | rest => (natural? rest).map fun n => (n : Int)
where
  natural? : List Char → Option Nat
    | '0' :: 'x' :: rest => Text.numeral? 16 rest
    | '0' :: 'o' :: rest => Text.numeral? 8 rest
    | '0' :: 'b' :: rest => Text.numeral? 2 rest
    | s => if hasLeadingZero s then none else Text.numeral? 10 s

def decimal? (s : List Char) : Option Float := do
  let whole := s.takeWhile Char.isDigit
  let s := s.dropWhile Char.isDigit
  let (fraction, s) := match s with
    | '.' :: rest => (rest.takeWhile Char.isDigit, rest.dropWhile Char.isDigit)
    | s => ([], s)
  guard !(whole.isEmpty && fraction.isEmpty)
  let exponent ← match s with
    | [] => some 0
    | e :: rest => if e = 'e' || e = 'E' then signed? rest else none
  let digits := Text.decimalValue (whole ++ fraction)
  return Decimal.nearest digits (exponent - fraction.length)
where
  signed? : List Char → Option Int
    | '-' :: rest => (Text.numeral? 10 rest).map fun n => -(n : Int)
    | '+' :: rest => (Text.numeral? 10 rest).map fun n => (n : Int)
    | rest => (Text.numeral? 10 rest).map fun n => (n : Int)

def infinity : Float := Float.ofBits 0x7FF0000000000000

def nan : Float := Float.ofBits 0x7FF8000000000000

def float? (s : String) : Option Float :=
  match s with
  | ".inf" | ".Inf" | ".INF" | "+.inf" | "+.Inf" | "+.INF" => some infinity
  | "-.inf" | "-.Inf" | "-.INF" => some (-infinity)
  | ".nan" | ".NaN" | ".NAN" => some nan
  | s =>
    let (negative, digits) := match s.toList with
      | '-' :: rest => (true, rest)
      | '+' :: rest => (false, rest)
      | rest => (false, rest)
    (decimal? digits).bind fun x =>
      if x.isFinite then some (if negative then -x else x) else none

/-- Integers of more than 64 bits that fit 128 bits are an error, longer ones are no integers. -/
def sized (i : Int) : Option (Except Error Value) :=
  if -Int.pow 2 63 ≤ i && i < Int.pow 2 64 then some (.ok (.number (.int i)))
  else if -Int.pow 2 127 ≤ i && i < Int.pow 2 128 then some (.error .integerTooLarge)
  else none

def value (s : String) : Except Error Value :=
  if s.isEmpty || null? s then .ok .null
  else match bool? s with
    | some b => .ok (.bool b)
    | none =>
      match (integer? s.toList).bind sized with
      | some result => result
      | none =>
        if hasLeadingZero s.toList then .ok (.string s)
        else match float? s with
          | some x => .ok (.number (.float x))
          | none => .ok (.string s)

def coreTag (name : String) : String := "tag:yaml.org,2002:" ++ name

def taggedValue (tag : String) (s : String) : Except Error Value :=
  let wrong := .error (.wrongTag tag)
  if tag = coreTag "bool" then ((bool? s).map fun b => .ok (.bool b)).getD wrong
  else if tag = coreTag "int" then ((integer? s.toList).bind sized).getD wrong
  else if tag = coreTag "float" then
    ((float? s).map fun x => .ok (.number (.float x))).getD wrong
  else if tag = coreTag "null" then if null? s then .ok .null else wrong
  else .ok (.string s)

end WorkflowAudit.Yaml.Plain
