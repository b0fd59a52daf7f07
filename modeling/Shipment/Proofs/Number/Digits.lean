import Mathlib.Data.List.Induction
import Shipment.Number.Reading

/-!
# Reading decimal digits back

A number is written with the digits from `0` to `9` only, and reading those
digits gives the number.  Nothing else is read as a decimal number, and without a
needless zero in front a number is spelled in one way only.
-/

namespace Shipment.Digits

theorem value?_of_isDigit {c : Char} (hc : c.isDigit = true) :
    value? c = some (c.toNat - 48) ∧ c.toNat - 48 < 10 := by
  simp only [Char.isDigit, Bool.and_eq_true, decide_eq_true_eq] at hc
  have hle : '0' ≤ c ∧ c ≤ '9' := hc
  have hlt : c.toNat ≤ 57 := hc.2
  exact ⟨by rw [value?, if_pos hle], by omega⟩

theorem readFrom_eq_ofDigitChars {text : List Char} (htext : ∀ c ∈ text, c.isDigit = true)
    (acc : Nat) : readFrom 10 acc text = some (Nat.ofDigitChars 10 text acc) := by
  induction text generalizing acc with
  | nil => simp [readFrom]
  | cons c rest ih =>
      obtain ⟨hvalue, hlt⟩ := value?_of_isDigit (htext c List.mem_cons_self)
      have hrest := ih (fun d hd => htext d (List.mem_cons_of_mem c hd))
      simp only [readFrom, hvalue, hlt, if_true]
      rw [hrest, Nat.ofDigitChars_cons, Nat.mul_comm acc 10]
      rfl

theorem read?_toDigits (n : Nat) : read? 10 (Nat.toDigits 10 n) = some n := by
  have hdigits : ∀ c ∈ Nat.toDigits 10 n, c.isDigit = true :=
    fun c hc => Nat.isDigit_of_mem_toDigits (by decide) (by decide) hc
  have hread := readFrom_eq_ofDigitChars hdigits 0
  rw [Nat.ofDigitChars_toDigits (by decide) (by decide)] at hread
  cases htext : Nat.toDigits 10 n with
  | nil => exact absurd htext Nat.toDigits_ne_nil
  | cons c rest => rwa [htext] at hread

theorem isDigit_of_value? {c : Char} {d : Nat} (hvalue : value? c = some d) (hd : d < 10) :
    c.isDigit = true := by
  unfold value? at hvalue
  split at hvalue
  · next hdigit =>
      have hcode : 48 ≤ c.toNat ∧ c.toNat ≤ 57 := hdigit
      simpa [Char.isDigit, UInt32.le_iff_toNat_le] using hcode
  -- a letter has a value from ten on
  · split at hvalue
    · next hlower =>
        have hcode : 97 ≤ c.toNat := hlower.1
        cases hvalue
        omega
    · split at hvalue
      · next hupper =>
          have hcode : 65 ≤ c.toNat := hupper.1
          cases hvalue
          omega
      · cases hvalue

/-- A text is read as a decimal number exactly if it has digits and nothing else. -/
theorem read?_eq_some_iff {text : List Char} {n : Nat} :
    read? 10 text = some n ↔
      text ≠ [] ∧ (∀ c ∈ text, c.isDigit = true) ∧ Nat.ofDigitChars 10 text 0 = n := by
  have hread : ∀ acc, readFrom 10 acc text = some n → ∀ c ∈ text, c.isDigit = true := by
    induction text with
    | nil => simp
    | cons c rest ih =>
        intro acc hsome
        rw [readFrom] at hsome
        split at hsome
        · next d hvalue =>
            split at hsome
            · next hd =>
                exact List.forall_mem_cons.mpr ⟨isDigit_of_value? hvalue hd, ih _ hsome⟩
            · cases hsome
        · cases hsome
  constructor
  · intro hsome
    have hne : text ≠ [] := by
      rintro rfl
      cases hsome
    have hfrom : readFrom 10 0 text = some n := by
      cases text with
      | nil => cases hsome
      | cons c rest => exact hsome
    have hdigits := hread 0 hfrom
    rw [readFrom_eq_ofDigitChars hdigits] at hfrom
    exact ⟨hne, hdigits, Option.some.inj hfrom⟩
  · rintro ⟨hne, hdigits, rfl⟩
    cases text with
    | nil => exact absurd rfl hne
    | cons c rest => exact readFrom_eq_ofDigitChars hdigits 0

theorem toList_toString (n : Nat) : (toString n).toList = Nat.toDigits 10 n :=
  Nat.toList_repr

theorem isDigit_toString (n : Nat) : ∀ c ∈ (toString n).toList, c.isDigit = true := by
  intro c hc
  rw [toList_toString] at hc
  exact Nat.isDigit_of_mem_toDigits (by decide) (by decide) hc

theorem digitChar_of_isDigit {c : Char} (hc : c.isDigit = true) :
    (c.toNat - 48).digitChar = c := by
  have hcodes : ∀ n < 10, n.digitChar = Char.ofNat (n + 48) := by decide
  have hle : 48 ≤ c.toNat ∧ c.toNat ≤ 57 := by
    simpa [Char.isDigit, UInt32.le_iff_toNat_le] using hc
  rw [hcodes _ (by omega), Nat.sub_add_cancel hle.1, Char.ofNat_toNat]

/-- Digits that do not go on after a zero at their start are those that their number is
written with. -/
theorem toDigits_ofDigitChars {c : Char} {rest : List Char}
    (hdigits : ∀ d ∈ c :: rest, d.isDigit = true) (hzero : rest = [] ∨ c ≠ '0') :
    Nat.toDigits 10 (Nat.ofDigitChars 10 (c :: rest) 0) = c :: rest := by
  induction rest using List.reverseRecOn with
  | nil =>
      have hc := hdigits c List.mem_cons_self
      rw [Nat.ofDigitChars_cons, Nat.ofDigitChars_nil, Nat.mul_zero, Nat.zero_add]
      exact (Nat.toDigits_of_lt_base (value?_of_isDigit hc).2).trans
        (congrArg (fun d => [d]) (digitChar_of_isDigit hc))
  | append_singleton front d ih =>
      have hc : c ≠ '0' := hzero.resolve_left (by simp)
      rw [← List.cons_append, List.forall_mem_append] at hdigits
      obtain ⟨hfirst, hlast⟩ := hdigits
      have hfront := ih hfirst (Or.inr hc)
      have hd := hlast d List.mem_cons_self
      have hpos : 0 < Nat.ofDigitChars 10 (c :: front) 0 := by
        refine Nat.pos_of_ne_zero fun hvalue => hc ?_
        rw [hvalue] at hfront
        exact (List.cons.inj hfront).1.symm
      have hlt := (value?_of_isDigit hd).2
      calc Nat.toDigits 10 (Nat.ofDigitChars 10 (c :: front ++ [d]) 0)
          = Nat.toDigits 10 (10 * Nat.ofDigitChars 10 (c :: front) 0 + (d.toNat - 48)) := by
            rw [Nat.ofDigitChars_append, Nat.ofDigitChars_cons, Nat.ofDigitChars_nil]
            rfl
        _ = Nat.toDigits 10 (Nat.ofDigitChars 10 (c :: front) 0) ++
              Nat.toDigits 10 (d.toNat - 48) :=
            (Nat.toDigits_append_toDigits (by decide) hpos hlt).symm
        _ = c :: front ++ [d] := by
            rw [hfront, Nat.toDigits_of_lt_base hlt, digitChar_of_isDigit hd]

end Shipment.Digits
