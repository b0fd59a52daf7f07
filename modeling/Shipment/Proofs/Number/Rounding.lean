import Mathlib.Algebra.Order.Field.Power
import Mathlib.Data.Rat.Cast.Order
import Mathlib.Tactic.FieldSimp
import Mathlib.Tactic.NormNum
import Mathlib.Tactic.Ring
import Shipment.Number.Binary64

/-!
# Rounding to the nearest double

Rounding is written with numerators, denominators and guesses of exponents.  Here
it is read as a function of the value alone: two fractions of the same value, and
two decimals of the same value, are rounded to the same double.  A value that a
finite double has is rounded to that double.
-/

namespace Shipment.Binary64

variable {num den num' den' n m base : Nat} {e f q : Int} {negative : Bool} {x : Binary64}

/-! ## Fractions of one value -/

theorem scaled_den_pos (hbase : 0 < base) : 0 < (scaled n base e).2 := by
  unfold scaled
  split
  · exact Nat.one_pos
  · exact Nat.pow_pos hbase

theorem scaled_div :
    ((scaled n base e).1 : ℚ) / (scaled n base e).2 = n * (base : ℚ) ^ e := by
  unfold scaled
  split
  · next hnonneg =>
      obtain ⟨k, rfl⟩ := Int.eq_ofNat_of_zero_le hnonneg
      simp
  · next hneg =>
      obtain ⟨k, hk⟩ := Int.eq_ofNat_of_zero_le (a := -e) (by omega)
      obtain rfl : e = -(k : Int) := by omega
      simp [div_eq_mul_inv]

theorem roundDiv_mul_left {k : Nat} (hk : 0 < k) :
    roundDiv (k * num) (k * den) = roundDiv num den := by
  have hlt : ∀ a b, 2 * (k * a) < k * b ↔ 2 * a < b := by
    intro a b
    rw [Nat.mul_left_comm, Nat.mul_lt_mul_left hk]
  have hgt : ∀ a b, k * b < 2 * (k * a) ↔ b < 2 * a := by
    intro a b
    rw [Nat.mul_left_comm, Nat.mul_lt_mul_left hk]
  simp only [roundDiv, Nat.mul_div_mul_left _ _ hk, Nat.mul_mod_mul_left, hlt, hgt]

theorem roundDiv_congr (hden : 0 < den) (hden' : 0 < den')
    (hvalue : (num : ℚ) / den = num' / den') : roundDiv num den = roundDiv num' den' := by
  have hcross : den' * num = den * num' := by
    have hne : (den : ℚ) ≠ 0 := by positivity
    have hne' : (den' : ℚ) ≠ 0 := by positivity
    rw [div_eq_div_iff hne hne'] at hvalue
    rw [Nat.mul_comm den', Nat.mul_comm den]
    exact_mod_cast hvalue
  calc roundDiv num den = roundDiv (den' * num) (den' * den) := (roundDiv_mul_left hden').symm
    _ = roundDiv (den * num') (den * den') := by rw [hcross, Nat.mul_comm den' den]
    _ = roundDiv num' den' := roundDiv_mul_left hden

/-- A whole value is not changed. -/
theorem roundDiv_eq_of_div_eq (hden : 0 < den) (hvalue : (num : ℚ) / den = n) :
    roundDiv num den = n := by
  have hone : roundDiv n 1 = n := by simp [roundDiv, Nat.mod_one]
  rw [roundDiv_congr hden Nat.one_pos (by simpa using hvalue), hone]

/-! ## The unit of the doubles around a value -/

/-- The doubles around the value are multiples of `2 ^ q`. -/
structure HasUnit (value : ℚ) (q : Int) : Prop where
  least : -1074 ≤ q
  below : value < 2 ^ (q + 53)
  above : q = -1074 ∨ 2 ^ (q + 52) ≤ value

theorem HasUnit.le {value : ℚ} (hq : HasUnit value q) (hf : HasUnit value f) : q ≤ f := by
  rcases hq.above with hleast | habove
  · exact hleast ▸ hf.least
  · have hlt : q + 52 < f + 53 :=
      (zpow_lt_zpow_iff_right₀ (by norm_num)).mp (habove.trans_lt hf.below)
    omega

theorem HasUnit.unique {value : ℚ} (hq : HasUnit value q) (hf : HasUnit value f) : q = f :=
  le_antisymm (hq.le hf) (hf.le hq)

/-- The logarithms of the two numbers of a fraction enclose its value. -/
theorem log2_bounds (hnum : num ≠ 0) (hden : den ≠ 0) :
    (2 : ℚ) ^ ((Nat.log2 num : Int) - Nat.log2 den - 1) ≤ (num : ℚ) / den ∧
      (num : ℚ) / den < 2 ^ ((Nat.log2 num : Int) - Nat.log2 den + 1) := by
  have hpos : (0 : ℚ) < den := by positivity
  have hnumLow : (2 : ℚ) ^ (Nat.log2 num : Int) ≤ num := by
    exact_mod_cast Nat.log2_self_le hnum
  have hnumHigh : (num : ℚ) < 2 ^ ((Nat.log2 num : Int) + 1) := by
    exact_mod_cast Nat.lt_log2_self
  have hdenLow : (2 : ℚ) ^ (Nat.log2 den : Int) ≤ den := by
    exact_mod_cast Nat.log2_self_le hden
  have hdenHigh : (den : ℚ) < 2 ^ ((Nat.log2 den : Int) + 1) := by
    exact_mod_cast Nat.lt_log2_self
  constructor
  · rw [le_div_iff₀ hpos]
    calc (2 : ℚ) ^ ((Nat.log2 num : Int) - Nat.log2 den - 1) * den
        ≤ 2 ^ ((Nat.log2 num : Int) - Nat.log2 den - 1) * 2 ^ ((Nat.log2 den : Int) + 1) := by
          gcongr
      _ = 2 ^ (Nat.log2 num : Int) := by
          rw [← zpow_add₀ two_ne_zero]
          congr 1
          ring
      _ ≤ num := hnumLow
  · rw [div_lt_iff₀ hpos]
    calc (num : ℚ) < 2 ^ ((Nat.log2 num : Int) + 1) := hnumHigh
      _ = 2 ^ ((Nat.log2 num : Int) - Nat.log2 den + 1) * 2 ^ (Nat.log2 den : Int) := by
          rw [← zpow_add₀ two_ne_zero]
          congr 1
          ring
      _ ≤ 2 ^ ((Nat.log2 num : Int) - Nat.log2 den + 1) * den := by gcongr

/-- In units of `2 ^ q`, a value is measured by a fraction again. -/
theorem scaled_div_unit :
    ((scaled num 2 (-q)).1 : ℚ) / ((scaled num 2 (-q)).2 * den : Nat) = (num / den) / 2 ^ q := by
  rw [Nat.cast_mul, ← div_div, scaled_div, zpow_neg]
  push_cast
  ring

theorem scaled_lt_iff (hden : 0 < den) :
    (scaled num 2 (-q)).1 < fractionCount * ((scaled num 2 (-q)).2 * den) ↔
      (num : ℚ) / den < 2 ^ (q + 52) := by
  have hpos : 0 < (scaled num 2 (-q)).2 := scaled_den_pos (by decide)
  have hcast : (0 : ℚ) < ((scaled num 2 (-q)).2 * den : Nat) := by positivity
  have hcount : (fractionCount : ℚ) = 2 ^ (52 : Int) := by norm_num [fractionCount]
  rw [← @Nat.cast_lt ℚ, Nat.cast_mul, ← div_lt_iff₀ hcast, scaled_div_unit,
    div_lt_iff₀ (by positivity), hcount, ← zpow_add₀ two_ne_zero, add_comm]

theorem hasUnit_unitExponent (hnum : num ≠ 0) (hden : den ≠ 0) :
    HasUnit ((num : ℚ) / den) (unitExponent num den) := by
  obtain ⟨hlow, hhigh⟩ := log2_bounds hnum hden
  have hmono : ∀ {a b : Int}, a ≤ b → (2 : ℚ) ^ a ≤ 2 ^ b :=
    fun hle => zpow_le_zpow_right₀ (by norm_num) hle
  simp only [unitExponent, scaled_lt_iff (Nat.pos_of_ne_zero hden)]
  generalize hguess : max ((Nat.log2 num : Int) - Nat.log2 den - 52) (-1074) = guess
  split
  · next h =>
      obtain ⟨hbelow, habove⟩ := h
      refine ⟨by omega, ?_, Or.inr ((hmono (by omega)).trans hlow)⟩
      rwa [show guess - 1 + 53 = guess + 52 by ring]
  · next h =>
      refine ⟨by omega, hhigh.trans_le (hmono (by omega)), ?_⟩
      by_cases hleast : guess = -1074
      · exact Or.inl hleast
      · exact Or.inr (not_lt.mp fun hlt => h ⟨hlt, by omega⟩)

/-! ## Rounding a value -/

theorem nearestMagnitude_eq (hnum : num ≠ 0) (hden : 0 < den)
    (hq : HasUnit ((num : ℚ) / den) q) :
    nearestMagnitude num den =
      min ((q + 1074).toNat * fractionCount +
        roundDiv (scaled num 2 (-q)).1 ((scaled num 2 (-q)).2 * den)) infinityBits := by
  obtain rfl : unitExponent num den = q := (hasUnit_unitExponent hnum hden.ne').unique hq
  rw [nearestMagnitude, if_neg hnum]

theorem nearestMagnitude_congr (hden : 0 < den) (hden' : 0 < den')
    (hvalue : (num : ℚ) / den = num' / den') :
    nearestMagnitude num den = nearestMagnitude num' den' := by
  by_cases hnum : num = 0
  · have hnum' : num' = 0 := by
      have hzero : (num' : ℚ) / den' = 0 := by rw [← hvalue, hnum, Nat.cast_zero, zero_div]
      have hne' : (den' : ℚ) ≠ 0 := by positivity
      simpa [hne'] using hzero
    simp [nearestMagnitude, hnum, hnum']
  have hnum' : num' ≠ 0 := by
    rintro rfl
    have hne : (den : ℚ) ≠ 0 := by positivity
    simp [hnum, hne] at hvalue
  have hunit := hasUnit_unitExponent hnum hden.ne'
  have hpos : ∀ k, 0 < (scaled k 2 (-unitExponent num den)).2 :=
    fun _ => scaled_den_pos (by decide)
  rw [nearestMagnitude_eq hnum hden hunit, nearestMagnitude_eq hnum' hden' (hvalue ▸ hunit),
    roundDiv_congr (Nat.mul_pos (hpos _) hden) (Nat.mul_pos (hpos _) hden')
      (by rw [scaled_div_unit, scaled_div_unit, hvalue])]

theorem nearestMagnitude_le : nearestMagnitude num den ≤ infinityBits := by
  unfold nearestMagnitude
  split
  · exact Nat.zero_le _
  · exact Nat.min_le_right _ _

/-! ## The value of a double -/

/-- The absolute value of a finite double. -/
def value (x : Binary64) : ℚ :=
  x.significand * 2 ^ x.exponent

theorem magnitude_eq (x : Binary64) :
    x.magnitude = (x.exponent + 1074).toNat * fractionCount + x.significand := by
  have hsplit := Nat.div_add_mod' x.magnitude fractionCount
  simp only [exponent, significand]
  split
  · next hfield => simpa [hfield] using hsplit.symm
  · next hfield =>
      obtain ⟨k, hk⟩ := Nat.exists_eq_succ_of_ne_zero hfield
      have hexponent : ((k.succ : Int) - 1075 + 1074).toNat = k := by omega
      rw [hk, Nat.succ_mul] at hsplit
      rw [hk, hexponent]
      omega

theorem significand_lt (x : Binary64) : x.significand < 2 * fractionCount := by
  have hfraction : x.magnitude % fractionCount < fractionCount := Nat.mod_lt _ (by decide)
  simp only [significand]
  split <;> omega

theorem magnitude_lt (hfinite : x.isFinite = true) : x.magnitude < infinityBits :=
  of_decide_eq_true hfinite

theorem exponent_le (hfinite : x.isFinite = true) : x.exponent ≤ 971 := by
  have hfield : x.magnitude / fractionCount < 2047 :=
    Nat.div_lt_of_lt_mul (magnitude_lt hfinite)
  simp only [exponent]
  split <;> omega

theorem le_exponent (x : Binary64) : -1074 ≤ x.exponent := by
  simp only [exponent]
  generalize x.magnitude / fractionCount = field
  split <;> omega

theorem significand_eq_zero_iff : x.significand = 0 ↔ x.magnitude = 0 := by
  have hsplit := Nat.div_add_mod' x.magnitude fractionCount
  have hpos : 0 < fractionCount := by decide
  simp only [significand]
  constructor
  · split
    · next hfield =>
        intro hzero
        rw [← hsplit, hfield, hzero, Nat.zero_mul]
    · omega
  · intro hzero
    simp [hzero]

theorem hasUnit_exponent (hzero : x.magnitude ≠ 0) : HasUnit x.value x.exponent := by
  have hone : (1 : ℚ) ≤ x.significand := by
    exact_mod_cast Nat.pos_of_ne_zero (mt significand_eq_zero_iff.mp hzero)
  refine ⟨x.le_exponent, ?_, ?_⟩
  · have hlt : (x.significand : ℚ) < 2 ^ (53 : Int) := by
      have hcast : (x.significand : ℚ) < (2 * fractionCount : Nat) := by
        exact_mod_cast x.significand_lt
      exact hcast.trans_le (by norm_num [fractionCount])
    rw [value, add_comm, zpow_add₀ two_ne_zero]
    gcongr
  · by_cases hfield : x.magnitude / fractionCount = 0
    · exact Or.inl (by simp [exponent, hfield])
    · right
      have hle : (2 : ℚ) ^ (52 : Int) ≤ x.significand := by
        have hcast : (fractionCount : ℚ) ≤ x.significand := by
          simp [significand, hfield]
        exact le_trans (by norm_num [fractionCount]) hcast
      rw [value, add_comm, zpow_add₀ two_ne_zero]
      gcongr

/-- A value that a finite double has is rounded to that double. -/
theorem nearestMagnitude_of_value (hfinite : x.isFinite = true) (hden : 0 < den)
    (hvalue : (num : ℚ) / den = x.value) : nearestMagnitude num den = x.magnitude := by
  have hne : (den : ℚ) ≠ 0 := by positivity
  by_cases hzero : x.magnitude = 0
  · have hnum : num = 0 := by
      have hquotient : (num : ℚ) / den = 0 := by
        rw [hvalue, value, significand_eq_zero_iff.mpr hzero, Nat.cast_zero, zero_mul]
      simpa [hne] using hquotient
    rw [hzero, hnum, nearestMagnitude, if_pos rfl]
  · have hnum : num ≠ 0 := by
      rintro rfl
      have hquotient : x.value = 0 := by rw [← hvalue, Nat.cast_zero, zero_div]
      have hsignificand : x.significand = 0 := by
        simpa [value, zpow_ne_zero] using hquotient
      exact hzero (significand_eq_zero_iff.mp hsignificand)
    have hpos : 0 < (scaled num 2 (-x.exponent)).2 := scaled_den_pos (by decide)
    have hround : roundDiv (scaled num 2 (-x.exponent)).1
        ((scaled num 2 (-x.exponent)).2 * den) = x.significand := by
      apply roundDiv_eq_of_div_eq (Nat.mul_pos hpos hden)
      rw [scaled_div_unit, hvalue, value, mul_div_cancel_right₀]
      exact zpow_ne_zero _ two_ne_zero
    rw [nearestMagnitude_eq hnum hden (hvalue ▸ hasUnit_exponent hzero), hround, ← magnitude_eq]
    exact Nat.min_eq_left (magnitude_lt hfinite).le

end Shipment.Binary64
