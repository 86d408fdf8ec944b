import WorkflowAudit.Decimal.Shortest

namespace WorkflowAudit.Decimal

/-- The decisions a format makes about a number whose digits are known. The point stands after
`place` digits, counted from the first one. -/
structure Notation where
  positional : Int → Bool
  pointZero : Bool
  nan : String
  infinity : String

/-- JSON and YAML data: an exponent below `1e-5` and from `1e16` on. -/
def Notation.data : Notation where
  positional place := -5 < place && place ≤ 16
  pointZero := true
  nan := ".nan"
  infinity := ".inf"

def Notation.plain : Notation where
  positional _ := true
  pointZero := false
  nan := "NaN"
  infinity := "inf"

def zeros (n : Nat) : String := String.ofList (List.replicate n '0')

def Notation.writeScaled (n : Notation) (s : Scaled) : String :=
  let digits := toString s.digits
  let place : Int := if s.digits = 0 then 1 else digits.length + s.exponent
  if n.positional place then
    if place ≤ 0 then "0." ++ zeros (-place).toNat ++ digits
    else if digits.length ≤ place.toNat then
      digits ++ zeros (place.toNat - digits.length) ++ if n.pointZero then ".0" else ""
    else
      String.ofList (digits.toList.take place.toNat) ++ "." ++
        String.ofList (digits.toList.drop place.toNat)
  else
    let mantissa := match digits.toList with
      | [] => ""
      | [d] => String.ofList [d]
      | d :: rest => String.ofList (d :: '.' :: rest)
    mantissa ++ "e" ++ toString (place - 1)

def Notation.write (n : Notation) (x : Float) : String :=
  match Binary.ofFloat x with
  | .nan => n.nan
  | .infinite negative => (if negative then "-" else "") ++ n.infinity
  | .finite negative m e => (if negative then "-" else "") ++ n.writeScaled (shortest m e)

def writeRounded (x : Float) : String :=
  match Binary.ofFloat x with
  | .nan => "NaN"
  | .infinite negative => if negative then "-inf" else "inf"
  | .finite negative m e =>
    (if negative then "-" else "") ++
      toString (roundDiv (m * Nat.pow 2 e.toNat) (Nat.pow 2 (-e).toNat))

end WorkflowAudit.Decimal
