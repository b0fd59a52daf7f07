import Shipment.Number.Binary64

/-!
# Integers of sixty-four bits

Both formats keep an integer in a word: an unsigned one from zero up, and a signed one
below zero.  An integer in the range of both words has this one form whichever word it
comes from.
-/

namespace Shipment

inductive Integer64 where
  | unsigned (n : UInt64)
  | negative (n : Int64) (hnegative : n < 0)
  deriving DecidableEq

namespace Integer64

/-- The integer that a word holds. -/
def toInt : Integer64 → Int
  | unsigned n => n.toNat
  | negative n _ => n.toInt

def ofInt64 (n : Int64) : Integer64 :=
  if h : n < 0 then negative n h else unsigned n.toUInt64

/-- The signed word of an integer that has one. -/
def asInt64? : Integer64 → Option Int64
  | unsigned n => if n ≤ Int64.maxValue.toUInt64 then some n.toInt64 else none
  | negative n _ => some n

/-- The unsigned word of an integer that has one. -/
def asUInt64? : Integer64 → Option UInt64
  | unsigned n => some n
  | negative _ _ => none

/-- The nearest double. -/
def toBinary64 (n : Integer64) : Binary64 :=
  let magnitude := Binary64.ofNat n.toInt.natAbs
  if n.toInt < 0 then magnitude.neg else magnitude

instance (n : Nat) : OfNat Integer64 n := ⟨unsigned (.ofNat n)⟩

@[simp] theorem toInt_unsigned (n : UInt64) : (unsigned n).toInt = n.toNat := rfl

@[simp] theorem toInt_negative (n : Int64) (h : n < 0) : (negative n h).toInt = n.toInt := rfl

end Integer64

end Shipment
