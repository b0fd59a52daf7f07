import Shipment.Number.Basic
import Shipment.Proofs.Json.Unambiguity
import Shipment.Proofs.Number.Digits
import Shipment.Proofs.Number.Shortest

/-!
# Numbers as tokens

An integer is written as an integer token.  A finite double is written as a number
token that has a point or a power of ten, so it is no integer token, and reading
that token gives the double again.
-/

namespace Shipment.Json.Grammar

/-! ## Whole numbers -/

theorem isDigits_toDigits (n : Nat) : IsDigits (Nat.toDigits 10 n) :=
  ⟨Nat.toDigits_ne_nil, fun _ hc => Nat.isDigit_of_mem_toDigits (by decide) (by decide) hc⟩

/-- Digits behind a whole part that is not a zero belong to the whole part. -/
theorem IsWhole.append {whole more : List Char} (hwhole : IsWhole whole) (hzero : whole ≠ ['0'])
    (hmore : ∀ c ∈ more, c.isDigit = true) : IsWhole (whole ++ more) := by
  cases hwhole with
  | zero => exact absurd rfl hzero
  | digits hc hne hrest => exact .digits hc hne (List.forall_mem_append.mpr ⟨hrest, hmore⟩)

theorem toDigits_ne_zero {n : Nat} (hn : n ≠ 0) : Nat.toDigits 10 n ≠ ['0'] := by
  intro heq
  have hread := Nat.ofDigitChars_ten_toDigits (n := n)
  rw [heq] at hread
  exact hn hread.symm

theorem isWhole_toDigits (n : Nat) : IsWhole (Nat.toDigits 10 n) := by
  induction n using Nat.strong_induction_on with
  | _ n ih =>
      rw [Nat.toDigits_eq_if (by decide)]
      split
      · next hlt =>
          have hdigit : ∀ m < 10, m = 0 ∨ m.digitChar.isDigit = true ∧ m.digitChar ≠ '0' := by
            decide
          rcases hdigit n hlt with rfl | ⟨hc, hzero⟩
          · exact .zero
          · exact .digits hc hzero (by simp)
      · next hge =>
          have hlast : ∀ m < 10, m.digitChar.isDigit = true := by decide
          apply (ih (n / 10) (by omega)).append (toDigits_ne_zero (by omega))
          simpa using hlast (n % 10) (Nat.mod_lt _ (by decide))

theorem isInteger_integerText (n : Int) : IsInteger (Number.integerText n) := by
  have hwhole := isWhole_toDigits n.natAbs
  unfold Number.integerText
  split
  · exact .integer (Or.inr rfl) hwhole
  · exact .integer (Or.inl rfl) hwhole

theorem IsInteger.isNumber {token : List Char} (htoken : IsInteger token) : IsNumber token := by
  cases htoken with
  | integer hsign hwhole => simpa using IsNumber.number hsign hwhole .none .none

/-! ## Decimals that are no integers -/

/-- A power of ten as it is written, and the power. -/
inductive IsPower : List Char → Int → Prop
  | unsigned {text : List Char} (htext : IsDigits text) :
      IsPower text (Nat.ofDigitChars 10 text 0)
  | plus {text : List Char} (htext : IsDigits text) :
      IsPower ('+' :: text) (Nat.ofDigitChars 10 text 0)
  | minus {text : List Char} (htext : IsDigits text) :
      IsPower ('-' :: text) (-(Nat.ofDigitChars 10 text 0 : Int))

/-- A text with a point, with a power of ten or with both, and the decimal that it
spells. -/
inductive Spells : List Char → Decimal → Prop
  | point {whole fraction : List Char} (hwhole : IsWhole whole) (hfraction : IsDigits fraction) :
      Spells (whole ++ '.' :: fraction)
        ⟨Nat.ofDigitChars 10 (whole ++ fraction) 0, -(fraction.length : Int)⟩
  | power {whole power : List Char} {e : Int} (hwhole : IsWhole whole) (hpower : IsPower power e) :
      Spells (whole ++ 'e' :: power) ⟨Nat.ofDigitChars 10 whole 0, e⟩
  | both {whole fraction power : List Char} {e : Int} (hwhole : IsWhole whole)
      (hfraction : IsDigits fraction) (hpower : IsPower power e) :
      Spells (whole ++ '.' :: (fraction ++ 'e' :: power))
        ⟨Nat.ofDigitChars 10 (whole ++ fraction) 0, e - fraction.length⟩

variable {text sign : List Char} {d : Decimal} {e : Int} {negative : Bool}

theorem IsPower.isExponent (hpower : IsPower text e) : IsExponent ('e' :: text) := by
  cases hpower with
  | unsigned htext => exact .digits (Or.inl rfl) htext
  | plus htext => exact .signed (Or.inl rfl) (Or.inl rfl) htext
  | minus htext => exact .signed (Or.inl rfl) (Or.inr rfl) htext

theorem Spells.isNumber (hspells : Spells text d) (hsign : sign = [] ∨ sign = ['-']) :
    IsNumber (sign ++ text) := by
  cases hspells with
  | point hwhole hfraction => simpa using IsNumber.number hsign hwhole (.digits hfraction) .none
  | power hwhole hpower => simpa using IsNumber.number hsign hwhole .none hpower.isExponent
  | both hwhole hfraction hpower =>
      simpa using IsNumber.number hsign hwhole (.digits hfraction) hpower.isExponent

theorem Spells.not_isInteger (hspells : Spells text d) : ¬IsInteger (sign ++ text) := by
  have hmark : ∃ c ∈ sign ++ text, c = '.' ∨ c = 'e' := by
    cases hspells with
    | point => exact ⟨'.', by simp, Or.inl rfl⟩
    | power => exact ⟨'e', by simp, Or.inr rfl⟩
    | both => exact ⟨'.', by simp, Or.inl rfl⟩
  obtain ⟨c, hc, hmark⟩ := hmark
  intro hinteger
  generalize sign ++ text = token at hc hinteger
  cases hinteger with
  | integer hsign hwhole =>
      have hkind : c = '-' ∨ c.isDigit = true := by
        rcases List.mem_append.mp hc with hmem | hmem
        · rcases hsign with rfl | rfl
          · cases hmem
          · exact Or.inl (List.mem_singleton.mp hmem)
        · exact Or.inr (hwhole.isDigit c hmem)
      rcases hmark with rfl | rfl <;> revert hkind <;> decide

/-! ## Reading such decimals -/

theorem read?_digits (htext : IsDigits text) :
    Digits.read? 10 text = some (Nat.ofDigitChars 10 text 0) :=
  Digits.read?_eq_some_iff.mpr ⟨htext.1, htext.2, rfl⟩

theorem readExponent?_power (hpower : IsPower text e) :
    Binary64.readExponent? ('e' :: text) = some e := by
  have hread : Digits.readSigned? 10 text = some e := by
    cases hpower with
    | unsigned htext =>
        have hsign : ∀ c, c.isDigit = false → text.head? ≠ some c := by
          intro c hc hhead
          rw [htext.2 c (List.mem_of_head? hhead)] at hc
          cases hc
        unfold Digits.readSigned? Digits.readUnsigned?
        split
        · exact absurd rfl (hsign '-' rfl)
        · split
          · exact absurd rfl (hsign '+' rfl)
          · simp [read?_digits htext]
    | plus htext => simp [Digits.readSigned?, Digits.readUnsigned?, read?_digits htext]
    | minus htext => simp [Digits.readSigned?, read?_digits htext]
  simp [Binary64.readExponent?, hread]

theorem isDigit_eq : Digits.isDigit = Char.isDigit := rfl

theorem readUnsignedDecimal?_of_spells (hspells : Spells text d) :
    Binary64.readUnsignedDecimal? negative text =
      some (Binary64.ofDecimal negative d.digits d.exponent) := by
  have hpoint : ∀ {more : List Char} c, ('.' :: more).head? = some c → c.isDigit = false := by
    rintro more c ⟨⟩
    rfl
  have hletter : ∀ {more : List Char} c, ('e' :: more).head? = some c → c.isDigit = false := by
    rintro more c ⟨⟩
    rfl
  have hjoin : ∀ {whole fraction : List Char}, IsWhole whole → IsDigits fraction →
      IsDigits (whole ++ fraction) := fun hwhole hfraction =>
    ⟨by simp [hwhole.ne_nil], List.forall_mem_append.mpr ⟨hwhole.isDigit, hfraction.2⟩⟩
  simp only [Binary64.readUnsignedDecimal?, isDigit_eq]
  cases hspells with
  | @point whole fraction hwhole hfraction =>
      have htake : fraction.takeWhile Char.isDigit = fraction :=
        List.takeWhile_eq_self_iff.mpr hfraction.2
      have hdrop : fraction.dropWhile Char.isDigit = [] :=
        List.dropWhile_eq_nil_iff.mpr hfraction.2
      simp only [takeWhile_cut hwhole.isDigit hpoint, dropWhile_cut hwhole.isDigit hpoint, htake,
        hdrop, read?_digits (hjoin hwhole hfraction), Binary64.readExponent?, zero_sub]
  | @power whole power e hwhole hpower =>
      have hdigits : IsDigits whole := ⟨hwhole.ne_nil, hwhole.isDigit⟩
      simp [takeWhile_cut hwhole.isDigit hletter, dropWhile_cut hwhole.isDigit hletter,
        read?_digits hdigits, readExponent?_power hpower]
  | both hwhole hfraction hpower =>
      simp only [takeWhile_cut hwhole.isDigit hpoint, dropWhile_cut hwhole.isDigit hpoint,
        takeWhile_cut hfraction.2 hletter, dropWhile_cut hfraction.2 hletter,
        read?_digits (hjoin hwhole hfraction), readExponent?_power hpower]

/-! ## The layouts of a double -/

variable {n : Nat}

theorem isDigits_append {left right : List Char} (hleft : ∀ c ∈ left, c.isDigit = true)
    (hright : IsDigits right) : IsDigits (left ++ right) :=
  ⟨by simp [hright.1], List.forall_mem_append.mpr ⟨hleft, hright.2⟩⟩

theorem isDigit_zeros (k : Nat) : ∀ c ∈ FloatNotation.zeros k, c.isDigit = true := by
  intro c hc
  rw [List.eq_of_mem_replicate hc]
  rfl

theorem ofDigitChars_zeros (k m : Nat) :
    Nat.ofDigitChars 10 (FloatNotation.zeros k) m = 10 ^ k * m :=
  Nat.ofDigitChars_replicate_zero

/-- A whole part may be cut behind its first digit. -/
theorem IsWhole.take {whole : List Char} (hwhole : IsWhole whole) (k : Nat)
    (hk : k + 1 < whole.length) : IsWhole (whole.take (k + 1)) := by
  cases hwhole with
  | zero => simp at hk
  | digits hc hne hrest => exact .digits hc hne fun d hd => hrest d (List.mem_of_mem_take hd)

/-- Below one, zeros stand between the point and the digits. -/
theorem exists_spells_below (n : Nat) {e : Int} (hneg : e + (Nat.toDigits 10 n).length ≤ 0) :
    ∃ d, Spells (['0', '.'] ++ FloatNotation.zeros (-e - (Nat.toDigits 10 n).length).toNat ++
      Nat.toDigits 10 n) d ∧ d.value = Decimal.value ⟨n, e⟩ := by
  generalize hk : (-e - (Nat.toDigits 10 n).length).toNat = k
  have hspells := Spells.point .zero (isDigits_append (isDigit_zeros k) (isDigits_toDigits n))
  have hdigits :
      Nat.ofDigitChars 10 (['0'] ++ (FloatNotation.zeros k ++ Nat.toDigits 10 n)) 0 = n := by
    rw [Nat.ofDigitChars_append, Nat.ofDigitChars_append, ofDigitChars_zeros]
    exact Nat.ofDigitChars_ten_toDigits
  have hexponent : -((FloatNotation.zeros k ++ Nat.toDigits 10 n).length : Int) = e := by
    rw [List.length_append, FloatNotation.zeros, List.length_replicate]
    omega
  rw [hdigits, hexponent] at hspells
  exact ⟨_, by simpa using hspells, rfl⟩

/-- A whole number has a zero behind the point. -/
theorem exists_spells_whole (n k : Nat) (hzero : n = 0 → k = 0) :
    ∃ d, Spells (Nat.toDigits 10 n ++ FloatNotation.zeros k ++ ['.', '0']) d ∧
      d.value = Decimal.value ⟨n, k⟩ := by
  have hwhole : IsWhole (Nat.toDigits 10 n ++ FloatNotation.zeros k) := by
    by_cases hn : n = 0
    · rw [hzero hn, FloatNotation.zeros, List.replicate_zero, List.append_nil]
      exact isWhole_toDigits n
    · exact (isWhole_toDigits n).append (toDigits_ne_zero hn) (isDigit_zeros k)
  have hspells := Spells.point hwhole (⟨by simp, List.forall_mem_singleton.mpr rfl⟩ : IsDigits ['0'])
  refine ⟨_, hspells, ?_⟩
  have hdigits : Nat.ofDigitChars 10 (Nat.toDigits 10 n ++ FloatNotation.zeros k ++ ['0']) 0 =
      10 ^ k * n * 10 := by
    rw [Nat.ofDigitChars_append, Nat.ofDigitChars_append, ofDigitChars_zeros,
      Nat.ofDigitChars_ten_toDigits, Nat.mul_comm _ 10]
    rfl
  rw [hdigits, Decimal.value, Decimal.value]
  push_cast
  simp only [List.length_singleton, Nat.cast_one, zpow_neg_one, zpow_natCast]
  ring

/-- The point stands between the digits. -/
theorem exists_spells_between (n k : Nat) (hk : k + 1 < (Nat.toDigits 10 n).length) :
    ∃ d, Spells ((Nat.toDigits 10 n).take (k + 1) ++ ['.'] ++ (Nat.toDigits 10 n).drop (k + 1)) d ∧
      d.value = Decimal.value ⟨n, k + 1 - (Nat.toDigits 10 n).length⟩ := by
  have hfraction : IsDigits ((Nat.toDigits 10 n).drop (k + 1)) :=
    ⟨by simpa using hk, fun c hc => (isDigits_toDigits n).2 c (List.mem_of_mem_drop hc)⟩
  have hspells := Spells.point ((isWhole_toDigits n).take k hk) hfraction
  have hexponent : -(((Nat.toDigits 10 n).drop (k + 1)).length : Int) =
      k + 1 - (Nat.toDigits 10 n).length := by
    rw [List.length_drop]
    omega
  rw [List.take_append_drop, Nat.ofDigitChars_ten_toDigits, hexponent] at hspells
  exact ⟨_, by simpa using hspells, rfl⟩

/-- Digits with a point are a decimal of their value behind the leading exponent. -/
theorem exists_spells_place (n : Nat) (e : Int) (hzero : n = 0 → e = 0) :
    ∃ d, Spells (FloatNotation.place (Nat.toDigits 10 n) (e + (Nat.toDigits 10 n).length - 1)) d ∧
      d.value = Decimal.value ⟨n, e⟩ := by
  have hlength : 0 < (Nat.toDigits 10 n).length := Nat.length_toDigits_pos
  unfold FloatNotation.place
  generalize hlead : e + (Nat.toDigits 10 n).length - 1 = lead
  split
  · next hneg =>
      have hzeros : -lead - 1 = -e - (Nat.toDigits 10 n).length := by omega
      rw [hzeros]
      exact exists_spells_below n (by omega)
  · next hnonneg =>
      obtain ⟨k, rfl⟩ := Int.eq_ofNat_of_zero_le (not_lt.mp hnonneg)
      dsimp only
      split
      · next hle =>
          have hle : (Nat.toDigits 10 n).length ≤ k + 1 := hle
          obtain ⟨m, hm⟩ := Nat.exists_eq_add_of_le hle
          obtain rfl : e = m := by omega
          have hzeros : k + 1 - (Nat.toDigits 10 n).length = m := by omega
          rw [Int.toNat_natCast, hzeros]
          exact exists_spells_whole n m fun hn => by exact_mod_cast hzero hn
      · next hgt =>
          have hk : k + 1 < (Nat.toDigits 10 n).length := not_le.mp hgt
          obtain rfl : e = k + 1 - (Nat.toDigits 10 n).length := by omega
          exact exists_spells_between n k hk

theorem isPower_scientific (style : FloatNotation) (lead : Int) :
    IsPower ((if lead < 0 then ['-'] else if style.plusSign then ['+'] else []) ++
      Nat.toDigits 10 lead.natAbs) lead := by
  have hdigits := isDigits_toDigits lead.natAbs
  have hvalue := Nat.ofDigitChars_ten_toDigits (n := lead.natAbs)
  split
  · next hneg =>
      have hpower := IsPower.minus hdigits
      rwa [hvalue, show -(lead.natAbs : Int) = lead by omega] at hpower
  · next hnonneg =>
      have hlead : (lead.natAbs : Int) = lead := by omega
      split
      · have hpower := IsPower.plus hdigits
        rwa [hvalue, hlead] at hpower
      · have hpower := IsPower.unsigned hdigits
        rwa [hvalue, hlead] at hpower

/-- One digit, a point before any others, and the leading exponent are the decimal. -/
theorem spells_scientific (style : FloatNotation) (n : Nat) (e : Int) :
    Spells (style.scientific (Nat.toDigits 10 n) (e + (Nat.toDigits 10 n).length - 1)) ⟨n, e⟩ := by
  have hvalue := Nat.ofDigitChars_ten_toDigits (n := n)
  have hwhole := isWhole_toDigits n
  have hpower := isPower_scientific style (e + (Nat.toDigits 10 n).length - 1)
  simp only [FloatNotation.scientific, List.append_assoc]
  generalize Nat.toDigits 10 n = digits at *
  split
  · exact absurd rfl hwhole.ne_nil
  · next c =>
      have hspells := Spells.power hwhole hpower
      simpa [hvalue] using hspells
  · next c more hmore =>
      have hfirst : IsWhole [c] := by
        cases hwhole with
        | zero => exact absurd rfl hmore
        | digits hc hzero _ => exact .digits hc hzero (by simp)
      have hrest : IsDigits more :=
        ⟨hmore, fun d hd => hwhole.isDigit d (List.mem_cons_of_mem c hd)⟩
      have hspells := Spells.both hfirst hrest hpower
      have hexponent : e + ((c :: more).length : Int) - 1 - more.length = e := by
        rw [List.length_cons]
        omega
      rwa [List.singleton_append, List.singleton_append, hvalue, hexponent] at hspells

/-- However the digits are laid out, they spell a decimal of their value. -/
theorem exists_spells_layout (style : FloatNotation) {n : Nat} {e lead : Int}
    (hzero : n = 0 → e = 0) (hlead : e + (Nat.toDigits 10 n).length - 1 = lead) :
    ∃ d, Spells (if style.positional lead then FloatNotation.place (Nat.toDigits 10 n) lead
        else style.scientific (Nat.toDigits 10 n) lead) d ∧ d.value = Decimal.value ⟨n, e⟩ := by
  subst hlead
  split
  · exact exists_spells_place n e hzero
  · exact ⟨_, spells_scientific style n e, rfl⟩

/-! ## The text of a double -/

variable {x : Binary64}

/-- A finite double whose shortest decimal has no digits is a zero. -/
theorem isZero_of_shortest (hfinite : x.isFinite = true) (hzero : x.shortest.digits = 0) :
    x.isZero = true := by
  have hread := Binary64.ofDecimal_shortest hfinite
  rw [hzero, Binary64.ofDecimal, if_pos rfl] at hread
  have hmagnitude := congrArg Binary64.magnitude hread
  rw [Binary64.magnitude_ofMagnitude (by decide)] at hmagnitude
  simp [Binary64.isZero, ← hmagnitude]

/-- The text of a finite double spells a decimal with the value of its shortest one. -/
theorem exists_spells_render (style : FloatNotation) (hfinite : x.isFinite = true) :
    ∃ text d, style.render x = (if x.negative then ['-'] else []) ++ text ∧ Spells text d ∧
      d.value = x.shortest.value := by
  have hshortest : x.isZero = true → x.shortest = ⟨0, 0⟩ := fun hzero => by
    rw [Binary64.shortest, if_pos hzero]
  have hexponent : x.shortest.digits = 0 → x.shortest.exponent = 0 := fun hzero => by
    rw [hshortest (isZero_of_shortest hfinite hzero)]
  have hlead : x.shortest.exponent + (Nat.toDigits 10 x.shortest.digits).length - 1 =
      if x.isZero then 0
      else x.shortest.exponent + (Nat.toDigits 10 x.shortest.digits).length - 1 := by
    split
    · next hzero =>
        rw [hshortest hzero]
        rfl
    · rfl
  obtain ⟨d, hspells, hvalue⟩ := exists_spells_layout style hexponent hlead
  exact ⟨_, d, rfl, hspells, hvalue⟩

theorem isNumber_render (style : FloatNotation) (hfinite : x.isFinite = true) :
    IsNumber (style.render x) := by
  obtain ⟨text, d, hrender, hspells, -⟩ := exists_spells_render style hfinite
  rw [hrender]
  apply hspells.isNumber
  split
  · exact Or.inr rfl
  · exact Or.inl rfl

/-- The text of a double is never that of an integer. -/
theorem not_isInteger_render (style : FloatNotation) (hfinite : x.isFinite = true) :
    ¬IsInteger (style.render x) := by
  obtain ⟨text, d, hrender, hspells, -⟩ := exists_spells_render style hfinite
  rw [hrender]
  exact hspells.not_isInteger

theorem Spells.exists_cons (hspells : Spells text d) :
    ∃ c more, text = c :: more ∧ c.isDigit = true := by
  have hwhole : ∀ {whole tail : List Char}, IsWhole whole →
      ∃ c more, whole ++ tail = c :: more ∧ c.isDigit = true := by
    intro whole tail hwhole
    cases hwhole with
    | zero => exact ⟨_, _, rfl, rfl⟩
    | digits hc => exact ⟨_, _, rfl, hc⟩
  cases hspells with
  | point h => exact hwhole h
  | power h => exact hwhole h
  | both h => exact hwhole h

/-- The text of a finite double is read as that double. -/
theorem readDecimal?_render (style : FloatNotation) (hfinite : x.isFinite = true) :
    Binary64.readDecimal? (style.render x) = some x := by
  obtain ⟨text, d, hrender, hspells, hvalue⟩ := exists_spells_render style hfinite
  have hread : Binary64.readUnsignedDecimal? x.negative text = some x := by
    rw [readUnsignedDecimal?_of_spells hspells, Binary64.ofDecimal_congr hvalue,
      Binary64.ofDecimal_shortest hfinite]
  rw [hrender]
  cases hnegative : x.negative with
  | true =>
      rw [hnegative] at hread
      exact hread
  | false =>
      rw [hnegative] at hread
      obtain ⟨c, more, rfl, hc⟩ := hspells.exists_cons
      simp only [Bool.false_eq_true, if_false, List.nil_append]
      unfold Binary64.readDecimal?
      split
      · next hcons =>
          obtain ⟨rfl, -⟩ := List.cons.inj hcons
          cases hc
      · next hcons =>
          obtain ⟨rfl, -⟩ := List.cons.inj hcons
          cases hc
      · exact hread

end Shipment.Json.Grammar
