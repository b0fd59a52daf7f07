import Mathlib.Order.Bounds.Basic
import Shipment.Proofs.Segments

/-!
# Texts that are pointers

The empty text is a pointer.  Any other text is one if it starts with a slash and each of its
tildes starts an escape, and then it has a segment for each slash.  A text that starts with a
slash and is no pointer is refused for its first stray tilde: the one with the least offset in
bytes.
-/

namespace Shipment.Pointer

/-- The offsets in bytes of the tildes that are followed by neither `0` nor `1`. -/
def strayTildes (text : List Char) : Set Nat :=
  {offset | ∃ before after, text = before ++ '~' :: after ∧ after.head? ≠ some '0' ∧
    after.head? ≠ some '1' ∧ offset = Text.byteLength before}

/-- A tilde is none of the characters that make an escape, so what stands before it decides. -/
theorem head?_append_tilde_ne {c : Char} (hc : c ≠ '~') (front after : List Char) :
    (front ++ '~' :: after).head? ≠ some c ↔ front.head? ≠ some c := by
  cases front with
  | nil => simp [hc.symm]
  | cons first rest => rfl

theorem mem_strayTildes_append {front more after : List Char} (hzero : more.head? ≠ some '0')
    (hone : more.head? ≠ some '1') :
    Text.byteLength front ∈ strayTildes (front ++ '~' :: (more ++ '~' :: after)) :=
  ⟨front, _, rfl, (head?_append_tilde_ne (by decide) more after).mpr hzero,
    (head?_append_tilde_ne (by decide) more after).mpr hone, rfl⟩

/-- The stray tildes before a tilde are those of the text before it. -/
theorem exists_strayTilde_lt_iff {front : List Char} (after : List Char) :
    (∃ offset ∈ strayTildes (front ++ '~' :: after), offset < Text.byteLength front) ↔
      HasStrayTilde front := by
  constructor
  · rintro ⟨_, ⟨before, rest, htext, hzero, hone, rfl⟩, hlt⟩
    have hprefix : before <+: front := by
      have hfront : front <+: front ++ '~' :: after := List.prefix_append _ _
      have hbefore : before <+: front ++ '~' :: after := htext ▸ List.prefix_append _ _
      refine (List.prefix_or_prefix_of_prefix hbefore hfront).resolve_right ?_
      rintro ⟨more, rfl⟩
      rw [Text.byteLength_append] at hlt
      omega
    obtain ⟨more, rfl⟩ := hprefix
    rw [List.append_assoc, List.append_cancel_left_eq] at htext
    cases more with
    | nil => simp at hlt
    | cons c more =>
        obtain ⟨rfl, rfl⟩ := List.cons.inj htext
        exact ⟨before, more, rfl, (head?_append_tilde_ne (by decide) more after).mp hzero,
          (head?_append_tilde_ne (by decide) more after).mp hone⟩
  · rintro ⟨before, more, rfl, hzero, hone⟩
    refine ⟨Text.byteLength before, ?_, ?_⟩
    · rw [List.append_assoc]
      exact mem_strayTildes_append hzero hone
    · have htilde : '~'.utf8Size = 1 := rfl
      rw [Text.byteLength_append, Text.byteLength_cons]
      omega

/-- The first stray tilde is the one with the least offset. -/
theorem isLeast_strayTildes_iff {text : List Char} {offset : Nat} :
    IsLeast (strayTildes text) offset ↔
      ∃ before, FirstStrayTilde text before ∧ offset = Text.byteLength before := by
  constructor
  · rintro ⟨⟨before, after, rfl, hzero, hone, rfl⟩, hleast⟩
    refine ⟨before, ⟨?_, after, rfl, hzero, hone⟩, rfl⟩
    rw [← exists_strayTilde_lt_iff after]
    rintro ⟨other, hother, hlt⟩
    exact absurd (hleast hother) (not_le.mpr hlt)
  · rintro ⟨before, ⟨hfirst, after, rfl, hzero, hone⟩, rfl⟩
    refine ⟨⟨before, after, rfl, hzero, hone, rfl⟩, fun other hother => ?_⟩
    rw [← exists_strayTilde_lt_iff after] at hfirst
    exact not_lt.mp fun hlt => hfirst ⟨other, hother, hlt⟩

theorem strayTildes_eq_empty_iff {text : List Char} :
    strayTildes text = ∅ ↔ ¬∃ before, FirstStrayTilde text before := by
  rw [exists_firstStrayTilde, Set.eq_empty_iff_forall_notMem]
  constructor
  · rintro hnone ⟨before, after, htext, hzero, hone⟩
    exact hnone _ ⟨before, after, htext, hzero, hone, rfl⟩
  · rintro hnone _ ⟨before, after, htext, hzero, hone, -⟩
    exact hnone ⟨before, after, htext, hzero, hone⟩

theorem parse_eq_missingLeadingSlash_iff {text input : String} :
    parse text = .error (.missingLeadingSlash input) ↔
      input = text ∧ text ≠ "" ∧ text.toList.head? ≠ some '/' := by
  simp only [parse_eq_error_iff, PointerError.missingLeadingSlash.injEq, reduceCtorEq, and_false,
    exists_false, or_false]
  exact ⟨fun ⟨hne, hhead, hinput⟩ => ⟨hinput, hne, hhead⟩,
    fun ⟨hinput, hne, hhead⟩ => ⟨hne, hhead, hinput⟩⟩

theorem parse_eq_invalidEscape_iff {text input : String} {offset : Nat} :
    parse text = .error (.invalidEscape input offset) ↔
      input = text ∧ text.toList.head? = some '/' ∧
        IsLeast (strayTildes text.toList) offset := by
  simp only [parse_eq_error_iff, isLeast_strayTildes_iff, PointerError.invalidEscape.injEq,
    reduceCtorEq, and_false, false_or]
  constructor
  · rintro ⟨hhead, before, hbefore, rfl, rfl⟩
    exact ⟨rfl, hhead, before, hbefore, rfl⟩
  · rintro ⟨rfl, hhead, before, hbefore, rfl⟩
    exact ⟨hhead, before, hbefore, rfl, rfl⟩

theorem exists_parse_eq_ok_iff {text : String} :
    (∃ p, parse text = .ok p) ↔
      text = "" ∨ text.toList.head? = some '/' ∧ strayTildes text.toList = ∅ := by
  have herror : (∃ p, parse text = .ok p) ↔ ¬∃ cause, parse text = .error cause := by
    cases parse text <;> simp
  simp only [herror, parse_eq_error_iff, strayTildes_eq_empty_iff]
  by_cases hempty : text = ""
  · simp [hempty]
  · by_cases hslash : text.toList.head? = some '/' <;> simp [hempty, hslash]

/-- The only slashes of a pointer text are those before its segments. -/
theorem count_slash_textOf (segments : List String) :
    (textOf segments).count '/' = segments.length := by
  induction segments with
  | nil => rfl
  | cons segment rest ih =>
      rw [textOf_cons, List.count_cons_self, List.count_append, ih,
        List.count_eq_zero.mpr (slash_notMem_escape _), List.length_cons, Nat.zero_add]

/-- What is read of a text, in all cases: a text without the slash at its start is refused for
that, one with a stray tilde for the first of them, and every other text is a pointer. -/
theorem parse_exact (text : String) :
    (∀ input, parse text = .error (.missingLeadingSlash input) ↔
        input = text ∧ text ≠ "" ∧ text.toList.head? ≠ some '/') ∧
      (∀ input offset, parse text = .error (.invalidEscape input offset) ↔
        input = text ∧ text.toList.head? = some '/' ∧
          IsLeast (strayTildes text.toList) offset) ∧
      ((∃ p, parse text = .ok p) ↔
        text = "" ∨ text.toList.head? = some '/' ∧ strayTildes text.toList = ∅) ∧
      ∀ p, parse text = .ok p → p.segments.length = text.toList.count '/' := by
  refine ⟨fun input => parse_eq_missingLeadingSlash_iff,
    fun input offset => parse_eq_invalidEscape_iff, exists_parse_eq_ok_iff, fun p hparse => ?_⟩
  rw [← parse_eq_ok_iff.mp hparse, toList_text, count_slash_textOf]

/-- A tilde before a tilde is stray, and the offset counts the bytes before it. -/
example : parse "/é~~0/a~" = .error (.invalidEscape "/é~~0/a~" 3) := by
  decide +kernel

end Shipment.Pointer
