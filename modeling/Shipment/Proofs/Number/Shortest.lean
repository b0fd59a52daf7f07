import Shipment.Number.Shortest
import Shipment.Proofs.Number.Rounding

/-!
# The shortest decimal of a double

However its digits are chosen, the shortest decimal of a finite double is read as
that double again.  A decimal that was tried was read back before it was taken,
one that has every digit is the value of the double, and zeros moved into the
exponent do not change the value.
-/

namespace Shipment

/-- The value of a decimal. -/
def Decimal.value (d : Decimal) : ℚ :=
  d.digits * 10 ^ d.exponent

namespace Binary64

variable {n m : Nat} {e f : Int} {negative : Bool} {x : Binary64} {d : Decimal}

/-! ## Decimals of one value -/

/-- The number of digits encloses the value between two powers of ten. -/
theorem digitCount_bounds (hn : n ≠ 0) :
    (10 : ℚ) ^ (e + digitCount n - 1) ≤ Decimal.value ⟨n, e⟩ ∧
      Decimal.value ⟨n, e⟩ < 10 ^ (e + digitCount n) := by
  have hcount : ∀ k, 0 < k → (digitCount n ≤ k ↔ n < 10 ^ k) :=
    fun k hk => Nat.length_toDigits_le_iff (by decide) hk
  obtain ⟨k, hk⟩ := Nat.exists_eq_succ_of_ne_zero (Nat.length_toDigits_pos (b := 10) (n := n)).ne'
  have hk : digitCount n = k + 1 := hk
  have hlow : 10 ^ k ≤ n := by
    rcases Nat.eq_zero_or_pos k with rfl | hpos
    · exact Nat.pos_of_ne_zero hn
    · exact not_lt.mp fun hlt => by
        have := (hcount k hpos).mpr hlt
        omega
  have hhigh : n < 10 ^ (k + 1) := (hcount (k + 1) k.succ_pos).mp hk.le
  have hlow' : (10 : ℚ) ^ (k : Int) ≤ n := by exact_mod_cast hlow
  have hhigh' : (n : ℚ) < 10 ^ ((k : Int) + 1) := by exact_mod_cast hhigh
  have hten : (10 : ℚ) ≠ 0 := by norm_num
  rw [hk, Decimal.value, mul_comm]
  constructor
  · calc (10 : ℚ) ^ (e + (k + 1 : Nat) - 1) = 10 ^ e * 10 ^ (k : Int) := by
          rw [← zpow_add₀ hten]
          push_cast
          congr 1
          ring
      _ ≤ 10 ^ e * n := by gcongr
  · calc (10 : ℚ) ^ e * n < 10 ^ e * 10 ^ ((k : Int) + 1) := by gcongr
      _ = 10 ^ (e + (k + 1 : Nat)) := by
          rw [← zpow_add₀ hten]
          push_cast
          rfl

theorem value_eq_zero_iff : Decimal.value ⟨n, e⟩ = 0 ↔ n = 0 := by
  simp [Decimal.value, zpow_ne_zero]

theorem size_le_of_value_eq (hn : n ≠ 0) (hm : m ≠ 0)
    (hvalue : Decimal.value ⟨n, e⟩ = Decimal.value ⟨m, f⟩) :
    e + digitCount n ≤ f + digitCount m := by
  have hlt : e + digitCount n - 1 < f + digitCount m := by
    apply (zpow_lt_zpow_iff_right₀ (a := (10 : ℚ)) (by norm_num)).mp
    exact (digitCount_bounds hn).1.trans_lt (hvalue ▸ (digitCount_bounds hm).2)
  omega

theorem scaled_ten_div (n : Nat) (e : Int) :
    ((scaled n 10 e).1 : ℚ) / (scaled n 10 e).2 = Decimal.value ⟨n, e⟩ := by
  rw [scaled_div, Decimal.value, Nat.cast_ofNat]

/-- Decimals of one value are read as the same double. -/
theorem ofDecimal_congr {d' : Decimal} (hvalue : d.value = d'.value) :
    ofDecimal negative d.digits d.exponent = ofDecimal negative d'.digits d'.exponent := by
  obtain ⟨n, e⟩ := d
  obtain ⟨m, f⟩ := d'
  by_cases hn : n = 0
  · have hm : m = 0 := value_eq_zero_iff.mp (hvalue ▸ value_eq_zero_iff.mpr hn)
    rw [ofDecimal, ofDecimal, if_pos hn, if_pos hm]
  have hm : m ≠ 0 := fun hzero => hn (value_eq_zero_iff.mp (hvalue ▸ value_eq_zero_iff.mpr hzero))
  have hsize : e + digitCount n = f + digitCount m :=
    le_antisymm (size_le_of_value_eq hn hm hvalue) (size_le_of_value_eq hm hn hvalue.symm)
  have hround : nearestMagnitude (scaled n 10 e).1 (scaled n 10 e).2 =
      nearestMagnitude (scaled m 10 f).1 (scaled m 10 f).2 := by
    apply nearestMagnitude_congr (scaled_den_pos (by decide)) (scaled_den_pos (by decide))
    rw [scaled_ten_div, scaled_ten_div, hvalue]
  simp only [ofDecimal, if_neg hn, if_neg hm, hsize, ofRatio, hround]

/-! ## The sign apart -/

theorem magnitude_ofMagnitude {magnitude : Nat} (hlt : magnitude < signWeight) :
    (ofMagnitude negative magnitude).magnitude = magnitude := by
  have hword : (if negative then signWeight + magnitude else magnitude) < UInt64.size := by
    simp only [signWeight, UInt64.size] at hlt ⊢
    split <;> omega
  simp only [ofMagnitude, Binary64.magnitude, UInt64.toNat_ofNat_of_lt' hword]
  split
  · rw [Nat.add_mod_left, Nat.mod_eq_of_lt hlt]
  · exact Nat.mod_eq_of_lt hlt

theorem ofMagnitude_magnitude (x : Binary64) : ofMagnitude x.negative x.magnitude = x := by
  have hlt : x.bits.toNat < 2 * signWeight := x.bits.toNat_lt
  have hword : (if x.negative then signWeight + x.magnitude else x.magnitude) = x.bits.toNat := by
    simp only [negative, magnitude, decide_eq_true_eq]
    split
    · next hle => rw [Nat.mod_eq_sub_mod hle, Nat.mod_eq_of_lt (by omega), Nat.add_sub_cancel' hle]
    · next hnotle => exact Nat.mod_eq_of_lt (not_le.mp hnotle)
  rw [ofMagnitude, hword, UInt64.ofNat_toNat]

/-- The sign of a decimal is the sign of the double, whatever its magnitude. -/
theorem ofDecimal_eq_ofMagnitude (negative : Bool) (n : Nat) (e : Int) :
    ofDecimal negative n e = ofMagnitude negative (ofDecimal false n e).magnitude := by
  have hround : nearestMagnitude (scaled n 10 e).1 (scaled n 10 e).2 < signWeight :=
    nearestMagnitude_le.trans_lt (by decide)
  simp only [ofDecimal, ofRatio, infinity]
  split
  · rw [magnitude_ofMagnitude (by decide)]
  · split
    · rw [magnitude_ofMagnitude (by decide)]
    · split
      · rw [magnitude_ofMagnitude (by decide)]
      · rw [magnitude_ofMagnitude hround]

/-! ## The value of a double as a decimal -/

theorem value_bounds (hfinite : x.isFinite = true) (hzero : x.magnitude ≠ 0) :
    (10 : ℚ) ^ (-324 : Int) ≤ x.value ∧ x.value < 10 ^ (309 : Int) := by
  have hpos : (1 : ℚ) ≤ x.significand := by
    exact_mod_cast Nat.pos_of_ne_zero (mt significand_eq_zero_iff.mp hzero)
  have hlt : (x.significand : ℚ) < (2 * fractionCount : Nat) := by
    exact_mod_cast x.significand_lt
  have hleast : (2 : ℚ) ^ (1074 : Int) ≤ 10 ^ (324 : Int) := by
    exact_mod_cast (by decide +kernel : 2 ^ 1074 ≤ 10 ^ 324)
  have hgreatest : ((2 * fractionCount : Nat) : ℚ) * 2 ^ (971 : Int) ≤ 10 ^ (309 : Int) := by
    exact_mod_cast (by decide +kernel : 2 * fractionCount * 2 ^ 971 ≤ 10 ^ 309)
  constructor
  · calc (10 : ℚ) ^ (-324 : Int) ≤ 2 ^ (-1074 : Int) := by
          rw [zpow_neg, zpow_neg]
          exact inv_anti₀ (by positivity) hleast
      _ ≤ 2 ^ x.exponent := zpow_le_zpow_right₀ (by norm_num) x.le_exponent
      _ ≤ x.significand * 2 ^ x.exponent := le_mul_of_one_le_left (by positivity) hpos
  · calc (x.significand : ℚ) * 2 ^ x.exponent
        ≤ x.significand * 2 ^ (971 : Int) :=
          mul_le_mul_of_nonneg_left (zpow_le_zpow_right₀ (by norm_num) (exponent_le hfinite))
            (by positivity)
      _ < (2 * fractionCount : Nat) * 2 ^ (971 : Int) :=
          mul_lt_mul_of_pos_right hlt (by positivity)
      _ ≤ 10 ^ (309 : Int) := hgreatest

/-- A decimal of the value of a finite double is read as that double. -/
theorem ofDecimal_of_value (hfinite : x.isFinite = true) (hvalue : Decimal.value ⟨n, e⟩ = x.value) :
    ofDecimal negative n e = ofMagnitude negative x.magnitude := by
  by_cases hzero : x.magnitude = 0
  · have hn : n = 0 := by
      rw [← value_eq_zero_iff, hvalue, value, significand_eq_zero_iff.mpr hzero, Nat.cast_zero,
        zero_mul]
    rw [ofDecimal, if_pos hn, hzero]
  obtain ⟨hlow, hhigh⟩ := value_bounds hfinite hzero
  have hn : n ≠ 0 := by
    rintro rfl
    rw [← hvalue, value_eq_zero_iff.mpr rfl] at hlow
    exact absurd hlow (by norm_num)
  obtain ⟨hsizeLow, hsizeHigh⟩ := digitCount_bounds (e := e) hn
  rw [hvalue] at hsizeLow hsizeHigh
  have hlarge : e + digitCount n - 1 < 309 :=
    (zpow_lt_zpow_iff_right₀ (by norm_num)).mp (hsizeLow.trans_lt hhigh)
  have hsmall : -324 < e + digitCount n :=
    (zpow_lt_zpow_iff_right₀ (by norm_num)).mp (hlow.trans_lt hsizeHigh)
  have hround : nearestMagnitude (scaled n 10 e).1 (scaled n 10 e).2 = x.magnitude := by
    apply nearestMagnitude_of_value hfinite (scaled_den_pos (by decide))
    rw [scaled_ten_div, hvalue]
  simp only [ofDecimal, if_neg hn, ofRatio, hround]
  rw [if_neg (by omega), if_neg (by omega)]

theorem value_exactDecimal (x : Binary64) : x.exactDecimal.value = x.value := by
  unfold exactDecimal
  split
  · next hnonneg =>
      obtain ⟨k, hk⟩ := Int.eq_ofNat_of_zero_le hnonneg
      simp [Decimal.value, value, hk]
  · next hneg =>
      obtain ⟨k, hk⟩ := Int.eq_ofNat_of_zero_le (a := -x.exponent) (by omega)
      have hexponent : x.exponent = -(k : Int) := by omega
      have hten : (10 : ℚ) ^ k = 2 ^ k * 5 ^ k := by rw [← mul_pow]; norm_num
      simp [Decimal.value, value, hexponent, hten]
      field_simp

theorem value_stripZeros (fuel : Nat) (d : Decimal) : (d.stripZeros fuel).value = d.value := by
  induction fuel generalizing d with
  | zero => rfl
  | succ fuel ih =>
      rw [Decimal.stripZeros]
      split
      · next h =>
          have hdigits : (d.digits : ℚ) = (d.digits / 10 : Nat) * 10 := by
            exact_mod_cast (Nat.div_mul_cancel (Nat.dvd_of_mod_eq_zero h.2)).symm
          rw [ih, Decimal.value, Decimal.value, hdigits, zpow_add_one₀ (by norm_num)]
          ring
      · rfl

/-! ## Reading the shortest decimal -/

theorem readsBack_of_withDigits? {count : Nat} (hd : x.withDigits? count = some d) :
    x.readsBack d = true := by
  simp only [withDigits?] at hd
  split at hd
  · cases hd
  · next hbelow _ => cases hd; exact hbelow
  · next _ habove => cases hd; exact habove
  · next hbelow habove =>
      split at hd
      · cases hd; exact hbelow
      · cases hd; exact habove

theorem readsBack_of_shortestFrom {fuel count : Nat} (hd : x.shortestFrom fuel count = some d) :
    x.readsBack d = true := by
  induction fuel generalizing count with
  | zero => cases hd
  | succ fuel ih =>
      unfold shortestFrom at hd
      split at hd
      · next hwith =>
          cases hd
          exact readsBack_of_withDigits? hwith
      · exact ih hd

/-- The shortest decimal of a finite double is read as that double. -/
theorem ofDecimal_shortest (hfinite : x.isFinite = true) :
    ofDecimal x.negative x.shortest.digits x.shortest.exponent = x := by
  have hmagnitude : ofDecimal x.negative x.shortest.digits x.shortest.exponent =
      ofMagnitude x.negative x.magnitude := by
    unfold shortest
    split
    · next hzero =>
        rw [ofDecimal, if_pos rfl, show x.magnitude = 0 by simpa [isZero] using hzero]
    · generalize hd : (x.shortestFrom 17 1).getD x.exactDecimal = d
      have hread : ofDecimal x.negative d.digits d.exponent =
          ofMagnitude x.negative x.magnitude := by
        cases hfound : x.shortestFrom 17 1 with
        | none =>
            obtain rfl : x.exactDecimal = d := by rwa [hfound] at hd
            exact ofDecimal_of_value hfinite x.value_exactDecimal
        | some found =>
            obtain rfl : found = d := by rwa [hfound] at hd
            rw [ofDecimal_eq_ofMagnitude, eq_of_beq (readsBack_of_shortestFrom hfound)]
      exact (ofDecimal_congr (value_stripZeros 800 d)).trans hread
  rw [hmagnitude, ofMagnitude_magnitude]

end Binary64

end Shipment
