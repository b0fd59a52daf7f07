import Mathlib.Data.Char
import Shipment.Proofs.Ignore

/-!
# A backslash at the upper end of a range

Everywhere else in a glob a backslash makes the next character literal.  At the upper
end of a range it is the upper end itself, and the character behind it is the next
member of the class.  So a pattern with a backslash there is not read if the range
begins above the backslash, and otherwise its class lists other characters than without
the backslash, unless further members of the class make up for the difference.
-/

namespace Shipment

namespace Glob

/-! ## Pieces in place of others -/

/-- Other pieces before the text are kept as they are, and if they have the same language,
so have the results. -/
theorem Finishes.replace (P : Char → Prop) {stack : List OpenChoice} {pieces result : List Glob}
    {text : List Char} (hfinishes : Finishes result stack pieces text) (others : List Glob) :
    ∃ result', Finishes result' stack others text ∧
      (sequenceLanguageOver P others.reverse = sequenceLanguageOver P pieces.reverse →
        sequenceLanguageOver P result' = sequenceLanguageOver P result) := by
  induction stack generalizing pieces others text with
  | nil =>
      obtain ⟨more, hmore, rfl⟩ := hfinishes
      refine ⟨others.reverse ++ more, ⟨more, hmore, rfl⟩, fun hsame => ?_⟩
      rw [sequenceLanguageOver_append, sequenceLanguageOver_append, hsame]
  | cons top outer ih =>
      obtain ⟨more, alternatives, rest, halternatives, houter⟩ := hfinishes
      obtain ⟨result', hresult', hlanguage⟩ := ih houter
        (.choice (top.closed.reverse ++ (others.reverse ++ more) :: alternatives) :: top.before)
      refine ⟨result', ⟨more, alternatives, rest, halternatives, hresult'⟩, fun hsame => ?_⟩
      apply hlanguage
      simp only [List.reverse_cons, sequenceLanguageOver_append, sequenceLanguageOver,
        languageOver, choiceLanguageOver_append, choiceLanguageOver, hsame]

/-! ## Places in a class -/

/-- Where the reader stands in a class: the open braces and the pieces before the class,
and its members so far, last first. -/
structure ClassPlace where
  stack : List OpenChoice
  pieces : List Glob
  negated : Bool
  found : List CharRange

/-- Whatever follows, the reader takes `c` behind `front` as the next member of a class. -/
def ClassPlace.IsBehind (place : ClassPlace) (front : List Char) (c : Char) : Prop :=
  ∀ rest, read (front ++ c :: rest) =
    readMembers place.stack place.pieces place.negated place.found (c :: rest)

/-- A character that stands for itself in a class. -/
def IsMemberChar (c : Char) : Prop :=
  c ≠ '\\' ∧ c ≠ ']'

namespace ClassPlace

variable {place : ClassPlace} {front back rest : List Char} {low high : Char}
  {others : List CharRange}

/-- The class at a place when it holds the range and the others behind it. -/
def withRange (place : ClassPlace) (low high : Char) (others : List CharRange) : Glob :=
  .oneOf place.negated (place.found.reverse ++ ⟨low, high⟩ :: others)

/-- The class at a place when it holds the range up to the backslash, the upper end as a
member and the others behind it. -/
def withEscape (place : ClassPlace) (low high : Char) (others : List CharRange) : Glob :=
  .oneOf place.negated (place.found.reverse ++ ⟨low, '\\'⟩ :: ⟨high, high⟩ :: others)

/-- The characters that the range lists and the range up to the backslash does not, or the
other way round, are listed by other members; a negated class has no slash anyway. -/
def Covers (place : ClassPlace) (high : Char) (others : List CharRange) : Prop :=
  ∀ c, '\\' < c ∧ c < high ∨ high < c ∧ c ≤ '\\' →
    place.negated = true ∧ c = '/' ∨ Lists (place.found.reverse ++ others) c

theorem read_range (hplace : place.IsBehind front low) (hlow : IsMemberChar low)
    (hhigh : IsMemberChar high) (hle : low ≤ high) (hback : ReadsMembers back others rest) :
    read (front ++ low :: '-' :: high :: back) =
      readPieces place.stack (place.withRange low high others :: place.pieces) rest := by
  rw [hplace, readMembers_range (.plain hlow _) hhigh.2 hle,
    readMembers_of_readsMembers hback _ _ _ _ (Or.inl (List.cons_ne_nil _ _))]
  simp [withRange]

/-- With a backslash in front, the upper end is a member of its own. -/
theorem read_escape (hplace : place.IsBehind front low) (hlow : IsMemberChar low)
    (hhigh : IsMemberChar high) (hle : low ≤ '\\') (hback : ReadsMembers back others rest)
    (hdash : back.head? ≠ some '-') :
    read (front ++ low :: '-' :: '\\' :: high :: back) =
      readPieces place.stack (place.withEscape low high others :: place.pieces) rest := by
  rw [hplace, readMembers_range (.plain hlow _) (by decide) hle,
    readMembers_single (.plain hhigh _) hdash,
    readMembers_of_readsMembers hback _ _ _ _ (Or.inl (List.cons_ne_nil _ _))]
  simp [withEscape]

theorem read_escape_of_lt (hplace : place.IsBehind front low) (hlow : IsMemberChar low)
    (hlt : '\\' < low) :
    read (front ++ low :: '-' :: '\\' :: high :: back) = .error (.invalidRange low '\\') := by
  rw [hplace]
  simp [readMembers, addRange, hlow.1, hlow.2, hlt]

/-- A range is cut at a bound, with its upper end kept: what is listed differs between the
bound and the upper end. -/
theorem range_cut_iff {bound c : Char} (hle : low ≤ high) (hbound : low ≤ bound) :
    (low ≤ c ∧ c ≤ bound ∨ high ≤ c ∧ c ≤ high ↔ low ≤ c ∧ c ≤ high) ↔
      ¬(bound < c ∧ c < high ∨ high < c ∧ c ≤ bound) := by
  grind

/-- Both classes stand for the same texts exactly if other members cover what the ranges
differ in. -/
theorem language_withEscape_eq_iff (hle : low ≤ high) (hbackslash : low ≤ '\\') :
    language (place.withEscape low high others) = language (place.withRange low high others) ↔
      place.Covers high others := by
  -- beside other members, two lists of characters agree where these have the character
  have hbeside {own cut range more exempt gap : Prop} (hcut : (cut ↔ range) ↔ ¬gap) :
      exempt ∨ (own ∨ cut ∨ more ↔ own ∨ range ∨ more) ↔ (gap → exempt ∨ own ∨ more) := by
    grind
  rw [withEscape, withRange, language_oneOf_eq_iff]
  refine forall_congr' fun c => ?_
  simp only [lists_append, lists_cons]
  rw [← or_assoc (a := low ≤ c ∧ c ≤ '\\')]
  exact hbeside (range_cut_iff hle hbackslash)

/-- Where a class holds no other member, nothing covers the difference. -/
theorem not_covers_of_alone (hfound : place.found = []) (hhigh : IsMemberChar high) :
    ¬place.Covers high [] := by
  intro hcovers
  have hnone (c : Char) (hslash : c ≠ '/') : ¬('\\' < c ∧ c < high ∨ high < c ∧ c ≤ '\\') := by
    intro hbetween
    obtain ⟨-, hc⟩ | hlisted := hcovers c hbetween
    · exact hslash hc
    · simp [hfound, Lists] at hlisted
  obtain hlt | heq | hgt := lt_trichotomy '\\' high
  -- the closing bracket comes right after the backslash
  · have hle : ']' ≤ high := by
      have hcode : 92 < high.toNat := hlt
      exact hcode
    exact hnone ']' (by decide) (Or.inl ⟨by decide, lt_of_le_of_ne hle hhigh.2.symm⟩)
  · exact hhigh.1 heq.symm
  · exact hnone '\\' (by decide) (Or.inr ⟨hgt, le_rfl⟩)

end ClassPlace

end Glob

namespace IgnoreRule

open Glob

/-- A backslash written before the upper end of a range.  The pattern is refused exactly
if the range begins above the backslash.  If it is read, its class lists the same
characters exactly if other members cover the difference, and then the whole pattern
matches the same paths. -/
theorem escaped_range_iff {raw escaped front back rest : List Char} {low high : Char}
    {place : ClassPlace} {others : List CharRange} {rule : IgnoreRule}
    (hraw : fullText raw = front ++ low :: '-' :: high :: back)
    (hescaped : fullText escaped = front ++ low :: '-' :: '\\' :: high :: back)
    (hplace : place.IsBehind front low) (hlow : IsMemberChar low) (hhigh : IsMemberChar high)
    (hle : low ≤ high) (hback : ReadsMembers back others rest) (hdash : back.head? ≠ some '-')
    (hcompile : compile raw = .ok rule) :
    ('\\' < low → compile escaped = .error (.invalidRange low '\\')) ∧
      (low ≤ '\\' → ∃ pieces, Glob.read (fullText escaped) = .ok pieces ∧
        (language (place.withEscape low high others) = language (place.withRange low high others) ↔
          place.Covers high others) ∧
        (place.Covers high others →
          ∀ path, matchesAll pieces path = rule.matchesPath path)) := by
  have hread := read_of_compile hcompile
  rw [hraw, ClassPlace.read_range hplace hlow hhigh hle hback] at hread
  refine ⟨fun hlt => ?_, fun hbackslash => ?_⟩
  · rw [compile, hescaped, ClassPlace.read_escape_of_lt hplace hlow hlt]
  have hiff : language (place.withEscape low high others) =
      language (place.withRange low high others) ↔ place.Covers high others :=
    ClassPlace.language_withEscape_eq_iff hle hbackslash
  obtain ⟨pieces, hfinishes, hlanguage⟩ := (finishes_of_readPieces hread).replace (· ≠ '\n')
    (place.withEscape low high others :: place.pieces)
  refine ⟨pieces, ?_, hiff, fun hcovers path => ?_⟩
  · rw [hescaped, ClassPlace.read_escape hplace hlow hhigh hbackslash hback hdash]
    exact readPieces_of_finishes hfinishes
  · have hclass : languageOver (· ≠ '\n') (place.withEscape low high others) =
        languageOver (· ≠ '\n') (place.withRange low high others) := by
      rw [ClassPlace.withEscape, ClassPlace.withRange, languageOver_oneOf, languageOver_oneOf]
      exact hiff.mpr hcovers
    have hsame : lineLanguage pieces = lineLanguage rule.pieces := by
      apply hlanguage
      simp only [List.reverse_cons, sequenceLanguageOver_append, sequenceLanguageOver, hclass]
    rw [Bool.eq_iff_iff, matchesAll_iff_mem_lineLanguage, matchesPath_iff_mem_lineLanguage, hsame]

/-- The rule of the pattern `/[a-z].yaml`. -/
def letterFile : IgnoreRule :=
  ⟨"/[a-z].yaml", [.literal '/', .oneOf false [⟨'a', 'z'⟩], .literal '.', .literal 'y',
    .literal 'a', .literal 'm', .literal 'l']⟩

/-- The place in the class of `/[a-z].yaml` in front of its first member. -/
def firstMember : ClassPlace :=
  ⟨[], [.literal '/'], false, []⟩

/-- The range from `a` to `z` is read, and with a backslash before the `z` it is refused. -/
theorem letterFile_escaped_refused :
    compile "/[a-z].yaml".toList = .ok letterFile ∧
      compile "/[a-\\z].yaml".toList = .error (.invalidRange 'a' '\\') := by
  have hcompile : compile "/[a-z].yaml".toList = .ok letterFile := by cbv
  have hraw : fullText "/[a-z].yaml".toList =
      "/[".toList ++ 'a' :: '-' :: 'z' :: "].yaml".toList := by decide
  have hescaped : fullText "/[a-\\z].yaml".toList =
      "/[".toList ++ 'a' :: '-' :: '\\' :: 'z' :: "].yaml".toList := by decide
  have hplace : firstMember.IsBehind "/[".toList 'a' := fun _ => rfl
  have hrefused := (escaped_range_iff hraw hescaped hplace ⟨by decide, by decide⟩
    ⟨by decide, by decide⟩ (by decide) (.close _) (by decide) hcompile).1
  exact ⟨hcompile, hrefused (by decide)⟩

/-- A range that begins below the backslash is read with a backslash before its upper end,
and then the class lists the bracket between `Z` and the backslash too. -/
example : (compile "/[A-\\Z]".toList).toOption.map (·.matchesPath "/[".toList) = some true ∧
    (compile "/[A-Z]".toList).toOption.map (·.matchesPath "/[".toList) = some false := by
  decide +kernel

end IgnoreRule

end Shipment
