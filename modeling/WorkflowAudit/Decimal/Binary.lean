namespace WorkflowAudit.Decimal

/-- What the 64 bits of a double say. A finite one is `± mantissa * 2 ^ exponent`. -/
inductive Binary
  | nan
  | infinite (negative : Bool)
  | finite (negative : Bool) (mantissa : Nat) (exponent : Int)
  deriving DecidableEq, Repr

def leastExponent : Int := -1074

def Binary.ofBits (bits : Nat) : Binary :=
  let negative := bits / Nat.pow 2 63 % 2 = 1
  let exponent := bits / Nat.pow 2 52 % 2048
  let fraction := bits % Nat.pow 2 52
  if exponent = 2047 then if fraction = 0 then .infinite negative else .nan
  else if exponent = 0 then .finite negative fraction leastExponent
  else .finite negative (Nat.pow 2 52 + fraction) (leastExponent + (exponent - 1 : Nat))

def Binary.ofFloat (x : Float) : Binary := .ofBits x.toBits.toNat

def roundDiv (num den : Nat) : Nat :=
  let q := num / den
  let r := num % den
  if 2 * r < den || (2 * r = den && q % 2 = 0) then q else q + 1

/-- The double nearest to `num / den`, a tie going to the even mantissa. -/
def nearestRatio (num den : Nat) : Float :=
  if num = 0 then 0 else
    -- The result has 53 bits if its last bit is worth `2 ^ exponent`.
    let guess : Int := (Nat.log2 num : Int) - (Nat.log2 den : Int) - 52
    let ratioAt (e : Int) : Nat × Nat := (num * Nat.pow 2 (-e).toNat, den * Nat.pow 2 e.toNat)
    let low := max (guess - 1) leastExponent
    let (n, d) := ratioAt low
    let exponent := if n / d < Nat.pow 2 53 then low else low + 1
    let (n, d) := ratioAt exponent
    let m := roundDiv n d
    -- Rounding up to `2 ^ 53` moves to the next exponent, which the sum below does by itself.
    let biased := (exponent - leastExponent).toNat
    let bits := if m < Nat.pow 2 52 then m else biased * Nat.pow 2 52 + m
    if 2047 * Nat.pow 2 52 ≤ bits then Float.ofBits 0x7FF0000000000000
    else Float.ofBits bits.toUInt64

def nearest (digits : Nat) (exponent : Int) : Float :=
  if digits = 0 then 0
  else if exponent > 400 then Float.ofBits 0x7FF0000000000000
  else if exponent + Nat.log2 digits < -1200 then 0
  else nearestRatio (digits * Nat.pow 10 exponent.toNat) (Nat.pow 10 (-exponent).toNat)

/-- The double rounded to an integer of `bits` bits without sign, a half going up. What is negative
or no number counts as zero, what is too large as the largest. -/
def toNatWithin (bits : Nat) (x : Float) : Nat :=
  match Binary.ofFloat x with
  | .nan => 0
  | .infinite negative => if negative then 0 else Nat.pow 2 bits - 1
  | .finite true _ _ => 0
  | .finite false m e =>
    min (Nat.pow 2 bits - 1)
      ((2 * m * Nat.pow 2 e.toNat + Nat.pow 2 (-e).toNat) / (2 * Nat.pow 2 (-e).toNat))

/-- A key that orders all doubles: by value, with `-0.0` below `0.0` and the two kinds of NaN at
the two ends. -/
def orderKey (x : Float) : Int :=
  let bits := x.toBits.toNat
  if bits < Nat.pow 2 63 then bits else Int.pow 2 63 - 1 - bits

end WorkflowAudit.Decimal
