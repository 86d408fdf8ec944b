namespace WorkflowAudit.Text

def hexDigit? (c : Char) : Option Nat :=
  if c.isDigit then some (c.toNat - '0'.toNat)
  else if 'a' ≤ c && c ≤ 'f' then some (c.toNat - 'a'.toNat + 10)
  else if 'A' ≤ c && c ≤ 'F' then some (c.toNat - 'A'.toNat + 10)
  else none

def valueInBase (base : Nat) (digits : List Nat) : Nat := digits.foldl (fun n d => base * n + d) 0

theorem valueInBase_append_singleton (base : Nat) (digits : List Nat) (d : Nat) :
    valueInBase base (digits ++ [d]) = base * valueInBase base digits + d := by
  simp only [valueInBase, List.foldl_append, List.foldl_cons, List.foldl_nil]

def digitValue (c : Char) : Nat := c.toNat - '0'.toNat

def decimalValue (digits : List Char) : Nat := valueInBase 10 (digits.map digitValue)

def hexValue? (digits : List Char) : Option Nat := (digits.mapM hexDigit?).map (valueInBase 16)

def numeral? (base : Nat) (s : List Char) : Option Nat :=
  if s.isEmpty then none
  else (s.mapM fun c => (hexDigit? c).filter (· < base)).map (valueInBase base)

def natural? (bits : Nat) (s : List Char) : Option Nat :=
  let digits := match s with
    | '+' :: rest => rest
    | s => s
  (numeral? 10 digits).filter (· < Nat.pow 2 bits)

def signedNatural? (bits : Nat) (s : List Char) : Option Nat :=
  match s with
  | '-' :: rest => (numeral? 10 rest).filter (· = 0)
  | s => natural? bits s

def lowerHex (n : Nat) : Char := Nat.digitChar (n % 16)

def upperHex (n : Nat) : Char := (lowerHex n).toUpper

def upperHexDigits : Nat → Nat → List Char
  | 0, _ => []
  | width + 1, n => upperHexDigits width (n / 16) ++ [upperHex n]

end WorkflowAudit.Text
