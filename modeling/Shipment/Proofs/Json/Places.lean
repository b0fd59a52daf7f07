import Shipment.Json.Lookup
import Shipment.Proofs.Basic
import Shipment.Proofs.Json.Numbers

/-!
# Places in a document

A place in a document is given by the steps from the top: keys of objects and indexes
of arrays.  A key is spelled in one way only.  An index is spelled by its digits, and
also by digits behind a plus sign, so a pointer is the only one for its place exactly
if it goes through no array, and among the pointers without such a sign there is only
one for a place.
-/

namespace Shipment.Json

/-! ## Spelled indexes -/

section Index

variable {segment : String} {index : Nat}

theorem head?_toString_ne_plus (index : Nat) : (toString index).toList.head? ≠ some '+' := by
  intro hplus
  cases Digits.isDigit_toString index '+' (List.mem_of_head? hplus)

/-- Digits that do not go on after a zero are the digits of the number that they spell. -/
theorem read?_eq_some_iff_toDigits {text : List Char} (hzero : ∀ c rest, text ≠ '0' :: c :: rest) :
    Digits.read? 10 text = some index ↔ text = Nat.toDigits 10 index := by
  constructor
  · rw [Digits.read?_eq_some_iff]
    rintro ⟨hne, hdigits, rfl⟩
    cases text with
    | nil => exact absurd rfl hne
    | cons c rest =>
        refine (Digits.toDigits_ofDigitChars hdigits ?_).symm
        by_cases hc : c = '0'
        · subst hc
          cases rest with
          | nil => exact Or.inl rfl
          | cons d more => exact absurd rfl (hzero d more)
        · exact Or.inr hc
  · rintro rfl
    exact Digits.read?_toDigits index

theorem readUnsigned?_eq_some_iff {text : List Char}
    (hzero : ∀ c rest, text ≠ '0' :: c :: rest) :
    Digits.readUnsigned? 10 text = some index ↔
      text = Nat.toDigits 10 index ∨
        ∃ digits, text = '+' :: digits ∧ Digits.read? 10 digits = some index := by
  unfold Digits.readUnsigned?
  split
  · next digits =>
      have hplus : '+' :: digits ≠ Nat.toDigits 10 index := by
        intro htext
        cases (Grammar.isDigits_toDigits index).2 '+' (htext ▸ List.mem_cons_self)
      simp [hplus]
  · next hplus =>
      rw [read?_eq_some_iff_toDigits hzero, or_iff_left]
      rintro ⟨digits, htext, -⟩
      exact hplus digits htext

theorem toDigits_ne_zero_cons (c : Char) (rest : List Char) :
    Nat.toDigits 10 index ≠ '0' :: c :: rest := by
  intro htext
  have hwhole := Grammar.isWhole_toDigits index
  rw [htext] at hwhole
  cases hwhole with
  | digits _ hzero _ => exact hzero rfl

/-- An index is spelled by the digits it is written with, or by a plus sign and any digits. -/
theorem index?_eq_some_iff :
    index? segment = some index ↔ index < Digits.wordCount ∧
      (segment = toString index ∨
        ∃ digits, segment.toList = '+' :: digits ∧ Digits.read? 10 digits = some index) := by
  rw [← String.toList_inj, Digits.toList_toString]
  unfold index?
  split
  · next c rest hsegment =>
      simp [hsegment, (toDigits_ne_zero_cons c rest).symm]
  · next hzero =>
      rw [← readUnsigned?_eq_some_iff hzero]
      cases hread : Digits.readUnsigned? 10 segment.toList with
      | none => simp
      | some n =>
          by_cases hlt : n < Digits.wordCount
          · simp only [hlt, if_true, Option.some.injEq]
            constructor
            · rintro rfl
              exact ⟨hlt, rfl⟩
            · exact And.right
          · simp only [hlt, if_false, reduceCtorEq, false_iff, Option.some.injEq]
            rintro ⟨hindex, rfl⟩
            exact hlt hindex

/-- Without a sign, the digits an index is written with are its only spelling. -/
theorem eq_toString_of_index? (hindex : index? segment = some index)
    (hsign : segment.toList.head? ≠ some '+') : segment = toString index := by
  obtain ⟨-, rfl | ⟨digits, hdigits, -⟩⟩ := index?_eq_some_iff.mp hindex
  · rfl
  · rw [hdigits] at hsign
    exact absurd rfl hsign

theorem index?_toString (hindex : index < Digits.wordCount) :
    index? (toString index) = some index :=
  index?_eq_some_iff.mpr ⟨hindex, Or.inl rfl⟩

theorem index?_plus_toString (hindex : index < Digits.wordCount) :
    index? ("+" ++ toString index) = some index := by
  refine index?_eq_some_iff.mpr ⟨hindex, Or.inr ⟨Nat.toDigits 10 index, ?_, ?_⟩⟩
  · rw [String.toList_append, Digits.toList_toString]
    rfl
  · exact Digits.read?_toDigits index

end Index

/-! ## Places -/

/-- One step down: to the value of a key or to the item at an index. -/
inductive Step where
  | key (name : String)
  | item (index : Nat)
  deriving DecidableEq, Repr

/-- The segments lead from a value along the steps of a place to the value there. -/
inductive Leads : Json → List String → List Step → Json → Prop
  | here (value : Json) : Leads value [] [] value
  | key {fields : List (String × Json)} {name : String} {child target : Json}
      {segments : List String} {place : List Step} (hchild : Fields.get? name fields = some child)
      (hrest : Leads child segments place target) :
      Leads (.object fields) (name :: segments) (.key name :: place) target
  | item {items : List Json} {segment : String} {index : Nat} {child target : Json}
      {segments : List String} {place : List Step} (hindex : index? segment = some index)
      (hchild : items[index]? = some child) (hrest : Leads child segments place target) :
      Leads (.array items) (segment :: segments) (.item index :: place) target

/-- What is found has a place. -/
theorem lookup_eq_some_iff {segments : List String} {value target : Json} :
    lookup segments value = some target ↔ ∃ place, Leads value segments place target := by
  constructor
  · intro hfound
    induction segments generalizing value with
    | nil =>
        cases hfound
        exact ⟨[], .here _⟩
    | cons segment rest ih =>
        obtain ⟨child, hchild, hrest⟩ := Option.bind_eq_some_iff.mp hfound
        obtain ⟨place, hplace⟩ := ih hrest
        unfold child? at hchild
        split at hchild
        · exact ⟨.key segment :: place, .key hchild hplace⟩
        · obtain ⟨index, hindex, hitem⟩ := Option.bind_eq_some_iff.mp hchild
          exact ⟨.item index :: place, .item hindex hitem hplace⟩
        · cases hchild
  · rintro ⟨place, hleads⟩
    induction hleads with
    | here value => rfl
    | key hchild _ ih => rw [lookup, child?, hchild, Option.bind_some, ih]
    | item hindex hchild _ ih =>
        rw [lookup, child?, hindex, Option.bind_some, hchild, Option.bind_some, ih]

/-- A pointer has one place at most. -/
theorem Leads.unique {value target target' : Json} {segments : List String}
    {place place' : List Step} (hleads : Leads value segments place target)
    (hleads' : Leads value segments place' target') : place = place' ∧ target = target' := by
  induction hleads generalizing place' with
  | here value =>
      cases hleads'
      exact ⟨rfl, rfl⟩
  | key hchild _ ih =>
      cases hleads' with
      | key hchild' hrest' =>
          obtain rfl := Option.some.inj (hchild.symm.trans hchild')
          obtain ⟨rfl, rfl⟩ := ih hrest'
          exact ⟨rfl, rfl⟩
  | item hindex hchild _ ih =>
      cases hleads' with
      | item hindex' hchild' hrest' =>
          obtain rfl := Option.some.inj (hindex.symm.trans hindex')
          obtain rfl := Option.some.inj (hchild.symm.trans hchild')
          obtain ⟨rfl, rfl⟩ := ih hrest'
          exact ⟨rfl, rfl⟩

/-! ## Spelled places -/

/-- A segment spells a step. -/
inductive Spells : String → Step → Prop
  | key (name : String) : Spells name (.key name)
  | item {segment : String} {index : Nat} (hindex : index? segment = some index) :
      Spells segment (.item index)

section Spelled

variable {value target : Json} {segments others : List String} {place : List Step}
  {segment : String} {items : List Json} {index : Nat}

theorem Leads.spells (hleads : Leads value segments place target) :
    List.Forall₂ Spells segments place := by
  induction hleads with
  | here value => exact .nil
  | key _ _ ih => exact .cons (.key _) ih
  | item hindex _ _ ih => exact .cons (.item hindex) ih

/-- Segments that spell the steps of a place lead there, if some segments do. -/
theorem Leads.respell (hleads : Leads value segments place target)
    (hothers : List.Forall₂ Spells others place) : Leads value others place target := by
  induction hleads generalizing others with
  | here value =>
      cases hothers
      exact .here value
  | key hchild _ ih =>
      cases hothers with
      | cons hfirst hothers =>
          cases hfirst
          exact .key hchild (ih hothers)
  | item hindex hchild _ ih =>
      cases hothers with
      | cons hfirst hothers =>
          cases hfirst with
          | item hindex' => exact .item hindex' hchild (ih hothers)

/-- A segment is followed through an array. -/
def EntersArray (value : Json) (segments : List String) (segment : String) (items : List Json) :
    Prop :=
  ∃ front back, segments = front ++ segment :: back ∧ lookup front value = some (.array items)

theorem entersArray_cons {first : String} {rest : List String} :
    EntersArray value (first :: rest) segment items ↔
      segment = first ∧ value = .array items ∨
        ∃ child, value.child? first = some child ∧ EntersArray child rest segment items := by
  constructor
  · rintro ⟨front, back, hsegments, hfront⟩
    cases front with
    | nil =>
        cases hfront
        exact Or.inl ⟨(List.cons.inj hsegments).1.symm, rfl⟩
    | cons head front =>
        obtain ⟨rfl, rfl⟩ := List.cons.inj hsegments
        obtain ⟨child, hchild, hrest⟩ := Option.bind_eq_some_iff.mp hfront
        exact Or.inr ⟨child, hchild, front, back, rfl, hrest⟩
  · rintro (⟨rfl, rfl⟩ | ⟨child, hchild, front, back, rfl, hfront⟩)
    · exact ⟨[], rest, rfl, rfl⟩
    · exact ⟨first :: front, back, rfl, by rw [lookup, hchild, Option.bind_some, hfront]⟩

/-- Where a place goes into an array, the segment there spells the index of an item. -/
theorem Leads.exists_item_of_entersArray (hleads : Leads value segments place target)
    (henters : EntersArray value segments segment items) :
    ∃ index, .item index ∈ place ∧ index? segment = some index ∧ index < items.length := by
  induction hleads with
  | here value =>
      obtain ⟨front, back, hsegments, -⟩ := henters
      simp at hsegments
  | key hchild _ ih =>
      rcases entersArray_cons.mp henters with ⟨-, hvalue⟩ | ⟨child, hchild', hrest⟩
      · cases hvalue
      · obtain rfl := Option.some.inj (hchild.symm.trans hchild')
        obtain ⟨index, hmem, hindex⟩ := ih hrest
        exact ⟨index, List.mem_cons_of_mem _ hmem, hindex⟩
  | item hindex hchild _ ih =>
      rcases entersArray_cons.mp henters with ⟨rfl, hvalue⟩ | ⟨child, hchild', hrest⟩
      · cases hvalue
        exact ⟨_, List.mem_cons_self, hindex, (List.getElem?_eq_some_iff.mp hchild).1⟩
      · rw [child?, hindex, Option.bind_some] at hchild'
        obtain rfl := Option.some.inj (hchild.symm.trans hchild')
        obtain ⟨index, hmem, hindex⟩ := ih hrest
        exact ⟨index, List.mem_cons_of_mem _ hmem, hindex⟩

theorem Leads.exists_entersArray_of_item (hleads : Leads value segments place target)
    (hitem : .item index ∈ place) : ∃ segment items, EntersArray value segments segment items := by
  induction hleads with
  | here value => simp at hitem
  | key hchild _ ih =>
      obtain ⟨segment, items, henters⟩ := ih (by simpa using hitem)
      exact ⟨segment, items, entersArray_cons.mpr (Or.inr ⟨_, hchild, henters⟩)⟩
  | item hindex hchild _ ih => exact ⟨_, _, entersArray_cons.mpr (Or.inl ⟨rfl, rfl⟩)⟩

/-- No segment that is followed through an array begins with a plus sign. -/
def Unsigned (value : Json) (segments : List String) : Prop :=
  ∀ segment items, EntersArray value segments segment items → segment.toList.head? ≠ some '+'

/-- Every segment that is followed through an array is an index in range as it is written. -/
def Canonical (value : Json) (segments : List String) : Prop :=
  ∀ segment items, EntersArray value segments segment items →
    ∃ index < items.length, segment = toString index

/-- How a step is written. -/
def Step.text : Step → String
  | .key name => name
  | .item index => toString index

/-- A step with a plus sign in front of an index. -/
def Step.signedText : Step → String
  | .key name => name
  | .item index => "+" ++ toString index

theorem Leads.canonical_iff_unsigned (hleads : Leads value segments place target) :
    Canonical value segments ↔ Unsigned value segments := by
  constructor
  · intro hcanonical segment items henters
    obtain ⟨index, -, rfl⟩ := hcanonical segment items henters
    exact head?_toString_ne_plus index
  · intro hunsigned segment items henters
    obtain ⟨index, -, hindex, hlt⟩ := hleads.exists_item_of_entersArray henters
    exact ⟨index, hlt, eq_toString_of_index? hindex (hunsigned segment items henters)⟩

/-- Segments without a sign are the written steps of their place. -/
theorem Leads.eq_map_text (hleads : Leads value segments place target)
    (hunsigned : Unsigned value segments) : segments = place.map Step.text := by
  induction hleads with
  | here value => rfl
  | key hchild _ ih =>
      rw [List.map_cons, ← ih]
      · rfl
      · intro segment items henters
        exact hunsigned segment items (entersArray_cons.mpr (Or.inr ⟨_, hchild, henters⟩))
  | item hindex hchild _ ih =>
      have hfirst := hunsigned _ _ (entersArray_cons.mpr (Or.inl ⟨rfl, rfl⟩))
      rw [List.map_cons, ← ih, Step.text, ← eq_toString_of_index? hindex hfirst]
      intro segment items henters
      refine hunsigned segment items (entersArray_cons.mpr (Or.inr ⟨_, ?_, henters⟩))
      rw [child?, hindex, Option.bind_some, hchild]

theorem Leads.lt_wordCount (hleads : Leads value segments place target)
    (hitem : .item index ∈ place) : index < Digits.wordCount := by
  obtain ⟨segment, -, hspells⟩ := exists_mem_left hleads.spells hitem
  cases hspells with
  | item hindex => exact (index?_eq_some_iff.mp hindex).1

/-- A spelling of the steps leads to the place, if indexes are read from it. -/
theorem Leads.map_spelling {spelling : Step → String} (hkey : ∀ name, spelling (.key name) = name)
    (hitem : ∀ index < Digits.wordCount, index? (spelling (.item index)) = some index)
    (hleads : Leads value segments place target) :
    Leads value (place.map spelling) place target := by
  refine hleads.respell (List.forall₂_map_left_iff.mpr (List.forall₂_same.mpr fun step hstep => ?_))
  cases step with
  | key name =>
      rw [hkey]
      exact .key name
  | item index => exact .item (hitem index (hleads.lt_wordCount hstep))

theorem Leads.map_text (hleads : Leads value segments place target) :
    Leads value (place.map Step.text) place target :=
  hleads.map_spelling (fun _ => rfl) fun _ => index?_toString

theorem Leads.map_signedText (hleads : Leads value segments place target) :
    Leads value (place.map Step.signedText) place target :=
  hleads.map_spelling (fun _ => rfl) fun _ => index?_plus_toString

theorem map_text_ne_map_signedText (hitem : .item index ∈ place) :
    place.map Step.text ≠ place.map Step.signedText := by
  intro hsame
  have hstep : toString index = "+" ++ toString index := List.map_inj_left.mp hsame _ hitem
  refine head?_toString_ne_plus index ?_
  rw [hstep, String.toList_append]
  rfl

end Spelled

/-! ## Pointers with the same place -/

/-- Both pointers find something, and in the same place. -/
def SamePlace (value : Json) (p q : Pointer) : Prop :=
  ∃ place target, Leads value p.segments place target ∧ Leads value q.segments place target

/-- A pointer that finds something is made of indexes as they are written exactly if none
has a plus sign in front.  Among the pointers without a sign it is the only one for its
place, and among all pointers it is the only one exactly if it goes through no array. -/
theorem canonical_place_iff {value target : Json} {p : Pointer}
    (hfound : value.get? p = some target) :
    (Canonical value p.segments ↔ Unsigned value p.segments) ∧
      (Unsigned value p.segments →
        ∀ q, SamePlace value p q → Unsigned value q.segments → q = p) ∧
      ((∀ q, SamePlace value p q → q = p) ↔
        ∀ segment items, ¬EntersArray value p.segments segment items) := by
  obtain ⟨place, hleads⟩ := lookup_eq_some_iff.mp hfound
  have hunique : Unsigned value p.segments →
      ∀ q, SamePlace value p q → Unsigned value q.segments → q = p := by
    rintro hp q ⟨place, target, hleads, hleads'⟩ hq
    have hsame : q.segments = p.segments :=
      (hleads'.eq_map_text hq).trans (hleads.eq_map_text hp).symm
    exact congrArg Pointer.mk hsame
  refine ⟨hleads.canonical_iff_unsigned, hunique, ?_, ?_⟩
  · intro honly segment items henters
    obtain ⟨index, hitem, -⟩ := hleads.exists_item_of_entersArray henters
    have htext := honly ⟨_⟩ ⟨place, target, hleads, hleads.map_text⟩
    have hsigned := honly ⟨_⟩ ⟨place, target, hleads, hleads.map_signedText⟩
    exact map_text_ne_map_signedText hitem (congrArg Pointer.segments (htext.trans hsigned.symm))
  · intro hnone q hq
    have hp : Unsigned value p.segments :=
      fun segment items henters => absurd henters (hnone segment items)
    refine hunique hp q hq ?_
    -- an array on the way of `q` is an item of the place, and so an array on the way of `p`
    obtain ⟨place, target, hleads, hleads'⟩ := hq
    intro segment items henters
    obtain ⟨index, hitem, -⟩ := hleads'.exists_item_of_entersArray henters
    obtain ⟨segment, items, henters'⟩ := hleads.exists_entersArray_of_item hitem
    exact absurd henters' (hnone segment items)

/-- A task of two steps. -/
def twoSteps : Json :=
  .object [("steps", .array [.string "build", .string "test"])]

/-- The second step is found with a plus sign in front of its index, which is not how an
index is written, and so another pointer leads there. -/
theorem twoSteps_signed_index :
    twoSteps.get? ⟨["steps", "+1"]⟩ = some (.string "test") ∧
      ¬Canonical twoSteps ["steps", "+1"] ∧
      ∃ q, SamePlace twoSteps ⟨["steps", "+1"]⟩ q ∧ q ≠ ⟨["steps", "+1"]⟩ := by
  have hfound : twoSteps.get? ⟨["steps", "+1"]⟩ = some (.string "test") := by cbv
  have henters : EntersArray twoSteps ["steps", "+1"] "+1" [.string "build", .string "test"] :=
    ⟨["steps"], [], rfl, by cbv⟩
  obtain ⟨hcanonical, -, honly⟩ := canonical_place_iff hfound
  refine ⟨hfound, fun hown => hcanonical.mp hown _ _ henters (by cbv), ?_⟩
  by_contra hnone
  refine honly.mp (fun q hq => ?_) _ _ henters
  by_contra hne
  exact hnone ⟨q, hq, hne⟩

end Shipment.Json
