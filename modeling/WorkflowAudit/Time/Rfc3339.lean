import WorkflowAudit.Text.Blank
import WorkflowAudit.Text.Digits
import WorkflowAudit.Time.Instant

/-! RFC 3339 time stamps: a tolerant reader and a printer. The reader takes any offset, blanks
between the parts, and numbers without their leading zeros; the printer writes UTC. -/

namespace WorkflowAudit.Time.Rfc3339

open WorkflowAudit.Text (trimStart isBlank)

def digits? (most : Nat) (s : List Char) : Option (Nat × List Char) :=
  let run := (s.take most).takeWhile Char.isDigit
  if run.isEmpty then none
  else some (Text.decimalValue run, s.drop run.length)

def field? (s : List Char) : Option (Nat × List Char) := digits? 2 (trimStart s)

def year? (s : List Char) : Option (Int × List Char) :=
  match trimStart s with
  | '-' :: rest => (digits? rest.length rest).map fun (n, rest) => (-(n : Int), rest)
  | '+' :: rest => (digits? rest.length rest).map fun (n, rest) => ((n : Int), rest)
  | rest => (digits? 4 rest).map fun (n, rest) => ((n : Int), rest)

def mark? (c : Char) (s : List Char) : Option (List Char) :=
  match trimStart s with
  | d :: rest => if d = c then some rest else none
  | [] => none

def fraction? : List Char → Option (Nat × List Char)
  | '.' :: rest =>
    (digits? 9 rest).map fun (n, after) =>
      (n * Nat.pow 10 (9 - (rest.length - after.length)), after.dropWhile Char.isDigit)
  | s => some (0, s)

def twoDigits? : List Char → Option (Nat × List Char)
  | a :: b :: rest => if a.isDigit && b.isDigit then digits? 2 (a :: b :: rest) else none
  | _ => none

def offset? (s : List Char) : Option (Int × List Char) :=
  match trimStart s with
  | a :: b :: c :: rest =>
    if [a, b, c].map Char.toUpper = ['U', 'T', 'C'] then some (0, rest)
    else signed? (a :: b :: c :: rest)
  | s => signed? s
where
  signed? : List Char → Option (Int × List Char)
    | 'Z' :: rest => some (0, rest)
    | 'z' :: rest => some (0, rest)
    | '+' :: rest => amount? rest
    | '-' :: rest => (amount? rest).map fun (n, rest) => (-n, rest)
    | '−' :: rest => (amount? rest).map fun (n, rest) => (-n, rest)
    | _ => none
  amount? (s : List Char) : Option (Int × List Char) := do
    let (hours, s) ← twoDigits? s
    let (minutes, s) ← twoDigits? (s.dropWhile fun c => c = ':' || isBlank c)
    if minutes < 60 && hours < 24 then some ((hours : Int) * 3600 + minutes * 60, s) else none

/-- Reads a time stamp. Second 60 is a leap second, whatever the minute. -/
def read? (text : String) : Option Instant := do
  let (year, s) ← year? text.toList
  let (month, s) ← field? (← mark? '-' s)
  let (day, s) ← field? (← mark? '-' s)
  let date : Date := ⟨year, month, day⟩
  guard (date.isValid && Instant.firstDay ≤ date.toDays && date.toDays ≤ Instant.lastDay)
  let s ← match s with
    | 'T' :: s => some s
    | 't' :: s => some s
    | ' ' :: s => some s
    | _ => none
  let (hour, s) ← field? s
  let (minute, s) ← field? (← mark? ':' s)
  let (second, s) ← field? (← mark? ':' s)
  guard (hour < 24 && minute < 60 && second ≤ 60)
  let (nanos, s) ← fraction? s
  let (offset, s) ← offset? s
  guard (s.all isBlank)
  let (second, nanos) := if second = 60 then (59, nanos + 1000000000) else (second, nanos)
  let wall := date.toDays * Instant.secondsPerDay + hour * 3600 + minute * 60 + second
  let instant : Instant := ⟨wall - offset, nanos⟩
  guard instant.isInRange
  some instant

def padded (width : Nat) (n : Nat) : String :=
  let digits := toString n
  String.ofList (List.replicate (width - digits.length) '0') ++ digits

def writeYear (year : Int) : String :=
  if year < 0 then "-" ++ padded 4 (-year).toNat
  else if year ≤ 9999 then padded 4 year.toNat
  else "+" ++ toString year

def writeFraction (nanos : Nat) : String :=
  if nanos = 0 then ""
  else if nanos % 1000000 = 0 then "." ++ padded 3 (nanos / 1000000)
  else if nanos % 1000 = 0 then "." ++ padded 6 (nanos / 1000)
  else "." ++ padded 9 nanos

def write (t : Instant) : String :=
  let date := t.date
  let ofDay := (t.seconds % Instant.secondsPerDay).toNat
  let leap := 1000000000 ≤ t.nanos
  let second := ofDay % 60 + if leap then 1 else 0
  let nanos := if leap then t.nanos - 1000000000 else t.nanos
  writeYear date.year ++ "-" ++ padded 2 date.month ++ "-" ++ padded 2 date.day ++ "T" ++
    padded 2 (ofDay / 3600) ++ ":" ++ padded 2 (ofDay / 60 % 60) ++ ":" ++ padded 2 second ++
    writeFraction nanos ++ "Z"

end WorkflowAudit.Time.Rfc3339
