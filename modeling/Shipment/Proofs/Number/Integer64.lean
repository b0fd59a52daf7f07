import Mathlib.Order.Basic
import Shipment.Number.Integer64

/-!
# Words and their integers

A word of sixty-four bits is known by the integer that it holds, whichever kind of word
it is, and every conversion between words keeps that integer.
-/

namespace Shipment.Integer64

variable {m n : Integer64}

/-- A signed word below zero holds an integer below zero. -/
theorem lt_zero_iff {word : Int64} : word < 0 ↔ word.toInt < 0 :=
  Int64.lt_iff_toInt_lt

@[simp]
theorem toInt_ofInt64 (word : Int64) : (ofInt64 word).toInt = word.toInt := by
  unfold ofInt64
  split
  · rfl
  · next hnonnegative =>
      have hzero : 0 ≤ word.toInt := Int.not_lt.mp (lt_zero_iff.not.mp hnonnegative)
      have hle : 0 ≤ word := Int64.le_iff_toInt_le.mpr hzero
      rw [toInt_unsigned, Int64.toNat_toUInt64_of_le hle, Int64.toNatClampNeg,
        Int.toNat_of_nonneg hzero]

theorem toInt_injective (heq : m.toInt = n.toInt) : m = n := by
  cases m with
  | unsigned own =>
      cases n with
      | unsigned other => rw [UInt64.toNat_inj.mp (Int.ofNat_inj.mp heq)]
      | negative other hother =>
          have hbelow := lt_zero_iff.mp hother
          simp only [toInt_unsigned, toInt_negative] at heq
          omega
  | negative own hown =>
      cases n with
      | unsigned other =>
          have hbelow := lt_zero_iff.mp hown
          simp only [toInt_unsigned, toInt_negative] at heq
          omega
      | negative other hother =>
          obtain rfl : own = other := Int64.toInt_inj.mp heq
          rfl

/-- The integer of a word is in the range of one of the two kinds. -/
theorem toInt_bounds (n : Integer64) :
    -0x8000000000000000 ≤ n.toInt ∧ n.toInt < 0x10000000000000000 := by
  cases n with
  | unsigned word =>
      have hword := word.toNat_lt
      rw [toInt_unsigned]
      omega
  | negative word hnegative =>
      have hlow := word.le_toInt
      have hbelow := lt_zero_iff.mp hnegative
      rw [toInt_negative]
      omega

/-- An integer below zero is that of a signed word. -/
theorem ofInt64_ofInt (hnegative : n.toInt < 0) : ofInt64 (.ofInt n.toInt) = n := by
  apply toInt_injective
  have hlow := (toInt_bounds n).1
  rw [toInt_ofInt64, Int64.toInt_ofInt_of_le hlow (by omega)]

/-- An integer from zero up is that of an unsigned word. -/
theorem unsigned_ofNat (hnonnegative : 0 ≤ n.toInt) : unsigned (.ofNat n.toInt.natAbs) = n := by
  apply toInt_injective
  have hhigh := (toInt_bounds n).2
  have hsmall : n.toInt.natAbs < 2 ^ 64 := by omega
  rw [toInt_unsigned, UInt64.toNat_ofNat', Nat.mod_eq_of_lt hsmall,
    Int.natAbs_of_nonneg hnonnegative]

theorem toInt_of_asInt64? {word : Int64} (hword : n.asInt64? = some word) :
    word.toInt = n.toInt := by
  cases n with
  | negative own hown => rw [← Option.some.inj hword, toInt_negative]
  | unsigned own =>
      rw [asInt64?] at hword
      split at hword
      · next hle =>
          have hsmall : own.toNat ≤ Int64.maxValue.toUInt64.toNat := UInt64.le_iff_toNat_le.mp hle
          have hmax : Int64.maxValue.toUInt64.toNat = 2 ^ 63 - 1 := by decide
          have htwice : 2 * own.toNat < 2 ^ 64 := by omega
          rw [← Option.some.inj hword, toInt_unsigned]
          exact BitVec.toInt_eq_toNat_of_lt htwice
      · cases hword

theorem toInt_of_asUInt64? {word : UInt64} (hword : n.asUInt64? = some word) :
    (word.toNat : Int) = n.toInt := by
  cases n with
  | unsigned own => rw [← Option.some.inj hword, toInt_unsigned]
  | negative own hown => cases hword

/-- An integer has a word of one kind if it has none of the other. -/
theorem exists_asUInt64? (hnone : n.asInt64? = none) : ∃ word, n.asUInt64? = some word := by
  cases n with
  | unsigned own => exact ⟨own, rfl⟩
  | negative own hown => cases hnone

end Shipment.Integer64
