import Shipment.Number.Binary64

/-!
# The shortest decimal of a double

A double is written with the fewest digits that read back as the same double,
and among those with the ones nearest to its exact value.  With `n` digits the
only candidates are the two neighbours of the value on the grid of `n`-digit
decimals, so seventeen grids decide.
-/

namespace Shipment

/-- The decimal `digits * 10 ^ exponent`. -/
structure Decimal where
  digits : Nat
  exponent : Int
  deriving DecidableEq, Repr

namespace Decimal

/-- Moves trailing zeros of the digits into the exponent. -/
def stripZeros (fuel : Nat) (d : Decimal) : Decimal :=
  match fuel with
  | 0 => d
  | fuel + 1 =>
    if d.digits ≠ 0 ∧ d.digits % 10 = 0 then stripZeros fuel ⟨d.digits / 10, d.exponent + 1⟩ else d

end Decimal

namespace Binary64

/-- The exponent of the leading decimal digit of `num / den`. -/
def leadingExponent (num den : Nat) : Int :=
  let guess : Int := (digitCount num : Int) - digitCount den
  let (n, d) := scaled den 10 guess
  if n ≤ num * d then guess else guess - 1

/-- Whether the decimal reads back as the magnitude of `x`. -/
def readsBack (x : Binary64) (d : Decimal) : Bool :=
  (ofDecimal false d.digits d.exponent).magnitude == x.magnitude

/-- The best decimal with `count` digits that reads back as `x`, if there is one. -/
def withDigits? (x : Binary64) (count : Nat) : Option Decimal :=
  let (num, den) := x.ratio
  let unit := leadingExponent num den - (count : Int) + 1
  let (n, d) := scaled num 10 (-unit)
  let floor := n / (d * den)
  let below : Decimal := ⟨floor, unit⟩
  let above : Decimal := ⟨floor + 1, unit⟩
  match readsBack x below, readsBack x above with
  | false, false => none
  | true, false => some below
  | false, true => some above
  | true, true => if roundDiv n (d * den) = floor then some below else some above

def shortestFrom (x : Binary64) : Nat → Nat → Option Decimal
  | 0, _ => none
  | fuel + 1, count =>
    match x.withDigits? count with
    | some d => some d
    | none => shortestFrom x fuel (count + 1)

/-- Every digit of the exact value. -/
def exactDecimal (x : Binary64) : Decimal :=
  if 0 ≤ x.exponent then ⟨x.significand * Nat.pow 2 x.exponent.toNat, 0⟩
  else ⟨x.significand * Nat.pow 5 (-x.exponent).toNat, x.exponent⟩

/-- The shortest decimal of the absolute value of a finite double. -/
def shortest (x : Binary64) : Decimal :=
  if x.isZero then ⟨0, 0⟩
  else ((x.shortestFrom 17 1).getD x.exactDecimal).stripZeros 800

end Binary64

end Shipment
