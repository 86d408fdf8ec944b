import WorkflowAudit.Decimal.Binary

/-! The shortest decimal that reads back as a given double: of the decimals with the fewest digits
in the interval of numbers that round to it, the nearest one. -/

namespace WorkflowAudit.Decimal

structure Scaled where
  digits : Nat
  exponent : Int
  deriving DecidableEq, Repr

/-- A number of quarter units, where a unit is `2 ^ exponent`, on the grid of multiples of
`10 ^ place`: both sides of a comparison as natural numbers. -/
structure Grid where
  binary : Int
  place : Int

def Grid.quarters (g : Grid) (x : Nat) : Nat :=
  x * Nat.pow 2 (g.binary - 2).toNat * Nat.pow 10 (-g.place).toNat

def Grid.point (g : Grid) (d : Nat) : Nat :=
  d * Nat.pow 10 g.place.toNat * Nat.pow 2 (2 - g.binary).toNat

/-- The quarter units between a mantissa and the ends of the interval that rounds to it. Below a
power of two the doubles lie half as far apart. -/
def lowerGap (mantissa : Nat) (exponent : Int) : Nat :=
  if mantissa = Nat.pow 2 52 && exponent > leastExponent then 1 else 2

/-- The best of the two grid points beside `mantissa * 2 ^ exponent`, if one rounds to it. The ends
of the interval count when the mantissa is even. -/
def onGrid? (mantissa : Nat) (g : Grid) : Option Nat :=
  let value := g.quarters (4 * mantissa)
  let least := g.quarters (4 * mantissa - lowerGap mantissa g.binary)
  let most := g.quarters (4 * mantissa + 2)
  let below := value / g.point 1
  let above := below + 1
  let closed := mantissa % 2 = 0
  let fits (d : Nat) : Bool :=
    0 < d && if closed then least ≤ g.point d && g.point d ≤ most
      else least < g.point d && g.point d < most
  let toBelow := value - g.point below
  let toAbove := g.point above - value
  match fits below, fits above with
  | false, false => none
  | true, false => some below
  | false, true => some above
  | true, true =>
    if toBelow < toAbove || (toBelow = toAbove && below % 2 = 0) then some below else some above

def leadingPlace (mantissa : Nat) (exponent : Int) : Int :=
  let guess := ((Nat.log2 mantissa : Int) + exponent) * 30103 / 100000
  let fits (p : Int) : Bool :=
    let g : Grid := ⟨exponent, p⟩
    g.quarters (4 * mantissa) < g.point 10
  ((List.range 4).map fun k => guess - 1 + (k : Nat)).find? fits |>.getD (guess + 2)

def Scaled.trimmed (s : Scaled) : Scaled := go s.digits s.exponent 400
where
  go (d : Nat) (e : Int) : Nat → Scaled
    | 0 => ⟨d, e⟩
    | n + 1 => if d ≠ 0 && d % 10 = 0 then go (d / 10) (e + 1) n else ⟨d, e⟩

/-- The shortest decimal for `mantissa * 2 ^ exponent`; 17 digits always suffice. -/
def shortest (mantissa : Nat) (exponent : Int) : Scaled :=
  if mantissa = 0 then ⟨0, 0⟩ else
    let top := leadingPlace mantissa exponent
    let found := (List.range 17).findSome? fun (n : Nat) =>
      let g : Grid := ⟨exponent, top - (n : Int)⟩
      (onGrid? mantissa g).map fun d => (⟨d, g.place⟩ : Scaled)
    (found.getD ⟨mantissa * Nat.pow 2 exponent.toNat, 0⟩).trimmed

end WorkflowAudit.Decimal
