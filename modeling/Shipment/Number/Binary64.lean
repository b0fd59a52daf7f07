/-!
# Double-precision numbers

A double is kept as its bits and handled in exact arithmetic on natural
numbers: a finite one is `significand * 2 ^ exponent`, and every operation
takes the exact quotient and rounds it once, to the nearest double and to the
even one of two equally near.
-/

namespace Shipment

/-- A double by its bits: the sign, eleven bits of exponent, fifty-two of fraction. -/
structure Binary64 where
  bits : UInt64
  deriving DecidableEq

namespace Binary64

/-- The weight of the sign bit, the highest of sixty-four. -/
def signWeight : Nat := 0x8000000000000000

/-- How many doubles there are between two powers of two: fifty-two bits of fraction. -/
def fractionCount : Nat := 0x10000000000000

/-- The bits of infinity, above those of every finite magnitude. -/
def infinityBits : Nat := 0x7FF0000000000000

def negative (x : Binary64) : Bool :=
  signWeight ≤ x.bits.toNat

/-- The bits without the sign. -/
def magnitude (x : Binary64) : Nat :=
  x.bits.toNat % signWeight

def isFinite (x : Binary64) : Bool :=
  x.magnitude < infinityBits

def isNaN (x : Binary64) : Bool :=
  infinityBits < x.magnitude

def isZero (x : Binary64) : Bool :=
  x.magnitude == 0

def ofMagnitude (negative : Bool) (magnitude : Nat) : Binary64 :=
  ⟨UInt64.ofNat (if negative then signWeight + magnitude else magnitude)⟩

def infinity (negative : Bool) : Binary64 :=
  ofMagnitude negative infinityBits

def nan : Binary64 :=
  ofMagnitude false 0x7FF8000000000000

def significand (x : Binary64) : Nat :=
  let fraction : Nat := x.magnitude % fractionCount
  if x.magnitude / fractionCount = 0 then fraction else fractionCount + fraction

def exponent (x : Binary64) : Int :=
  let field : Nat := x.magnitude / fractionCount
  if field = 0 then -1074 else (field : Int) - 1075

/-- Numerator and denominator of `n * base ^ e`. -/
def scaled (n base : Nat) (e : Int) : Nat × Nat :=
  if 0 ≤ e then (n * Nat.pow base e.toNat, 1) else (n, Nat.pow base (-e).toNat)

/-- The absolute value of a finite double as a fraction. -/
def ratio (x : Binary64) : Nat × Nat :=
  scaled x.significand 2 x.exponent

/-- The whole number nearest to `num / den`, the even one of two equally near. -/
def roundDiv (num den : Nat) : Nat :=
  let floor := num / den
  let twice := 2 * (num % den)
  if twice < den then floor
  else if den < twice then floor + 1
  else if floor % 2 = 0 then floor else floor + 1

/-- The power of two that is the unit of the doubles around `num / den`. -/
def unitExponent (num den : Nat) : Int :=
  let guess := max ((Nat.log2 num : Int) - Nat.log2 den - 52) (-1074)
  let (n, d) := scaled num 2 (-guess)
  if n < fractionCount * (d * den) ∧ -1074 < guess then guess - 1 else guess

/-- The bits of the nonnegative double nearest to `num / den`.  A significand
that rounds up to the next power of two carries into the exponent by itself. -/
def nearestMagnitude (num den : Nat) : Nat :=
  if num = 0 then 0
  else
    let q := unitExponent num den
    let (n, d) := scaled num 2 (-q)
    min ((q + 1074).toNat * fractionCount + roundDiv n (d * den)) infinityBits

def ofRatio (negative : Bool) (num den : Nat) : Binary64 :=
  ofMagnitude negative (nearestMagnitude num den)

/-- How many decimal digits `n` has. -/
def digitCount (n : Nat) : Nat :=
  (Nat.toDigits 10 n).length

/-- The double nearest to `digits * 10 ^ exponent`.  Values beyond every double
and values below half the least one are told by their size alone. -/
def ofDecimal (negative : Bool) (digits : Nat) (exponent : Int) : Binary64 :=
  if digits = 0 then ofMagnitude negative 0
  else
    let size := exponent + digitCount digits
    if 310 < size then infinity negative
    else if size < -330 then ofMagnitude negative 0
    else
      let (num, den) := scaled digits 10 exponent
      ofRatio negative num den

def ofNat (n : Nat) : Binary64 :=
  ofRatio false n 1

def neg (x : Binary64) : Binary64 :=
  ofMagnitude (!x.negative) x.magnitude

/-- The rounded product of two nonnegative finite doubles. -/
def mul (x y : Binary64) : Binary64 :=
  ofRatio false (x.ratio.1 * y.ratio.1) (x.ratio.2 * y.ratio.2)

/-- The rounded quotient of two nonnegative finite doubles, the second not zero. -/
def div (x y : Binary64) : Binary64 :=
  ofRatio false (x.ratio.1 * y.ratio.2) (x.ratio.2 * y.ratio.1)

/-- Equality of values: both zeros are equal, and every not-a-number equals
every other. -/
def same (x y : Binary64) : Bool :=
  (x.isNaN && y.isNaN) || (x.isZero && y.isZero) || x == y

end Binary64

end Shipment
