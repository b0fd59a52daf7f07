import Mathlib.Data.List.Forall2

/-!
# Results and paired lists

What the proofs about several parts of the library share: when a mapped result
succeeds, and how to go from an element of a list to its partner in a list that
corresponds to it place by place.
-/

namespace Shipment

theorem map_eq_ok {ε α β : Type} {f : α → β} {x : Except ε α} {b : β} :
    x.map f = .ok b ↔ ∃ a, x = .ok a ∧ f a = b := by
  cases x <;> simp [Except.map]

theorem map_eq_error {ε α β : Type} {f : α → β} {x : Except ε α} {e : ε} :
    x.map f = .error e ↔ x = .error e := by
  cases x <;> simp [Except.map]

/-- An element of a list behind others with a property is the first one, or the first one has
the property and the element stands in the rest. -/
theorem exists_behind_cons_iff {α : Type} {first : α} {rest : List α} {P : α → Prop}
    {Q : List α → α → Prop} :
    (∃ before a after, first :: rest = before ++ a :: after ∧ (∀ b ∈ before, P b) ∧ Q before a) ↔
      Q [] first ∨ P first ∧ ∃ before a after, rest = before ++ a :: after ∧
        (∀ b ∈ before, P b) ∧ Q (first :: before) a := by
  constructor
  · rintro ⟨before, a, after, hlist, hbefore, ha⟩
    cases before with
    | nil =>
        cases hlist
        exact Or.inl ha
    | cons head before =>
        obtain ⟨rfl, rfl⟩ := List.cons.inj hlist
        obtain ⟨hfirst, hmore⟩ := List.forall_mem_cons.mp hbefore
        exact Or.inr ⟨hfirst, before, a, after, rfl, hmore, ha⟩
  · rintro (hfirst | ⟨hfirst, before, a, after, rfl, hbefore, ha⟩)
    · exact ⟨[], first, rest, rfl, List.forall_mem_nil _, hfirst⟩
    · exact ⟨first :: before, a, after, rfl, List.forall_mem_cons.mpr ⟨hfirst, hbefore⟩, ha⟩

/-! ## Lists paired place by place -/

variable {α β : Type} {R : α → β → Prop} {left : List α} {right : List β}

theorem exists_getElem?_right (hpairs : List.Forall₂ R left right) {i : Nat} {a : α}
    (ha : left[i]? = some a) : ∃ b, right[i]? = some b ∧ R a b := by
  induction hpairs generalizing i with
  | nil => simp at ha
  | @cons first second _ _ hfirst _ ih =>
      cases i with
      | zero =>
          obtain rfl : first = a := by simpa using ha
          exact ⟨second, by simp, hfirst⟩
      | succ i => exact ih (by simpa using ha)

theorem exists_getElem?_left (hpairs : List.Forall₂ R left right) {i : Nat} {b : β}
    (hb : right[i]? = some b) : ∃ a, left[i]? = some a ∧ R a b :=
  exists_getElem?_right (R := flip R) hpairs.flip hb

theorem exists_mem_right (hpairs : List.Forall₂ R left right) {a : α} (ha : a ∈ left) :
    ∃ b ∈ right, R a b := by
  obtain ⟨i, hi⟩ := List.mem_iff_getElem?.mp ha
  obtain ⟨b, hb, hab⟩ := exists_getElem?_right hpairs hi
  exact ⟨b, List.mem_of_getElem? hb, hab⟩

theorem exists_mem_left (hpairs : List.Forall₂ R left right) {b : β} (hb : b ∈ right) :
    ∃ a ∈ left, R a b :=
  exists_mem_right (R := flip R) hpairs.flip hb

/-- The partners of two lists, one after the other. -/
theorem forall₂_append_left_iff {front back : List α} :
    List.Forall₂ R (front ++ back) right ↔
      ∃ first second, List.Forall₂ R front first ∧ List.Forall₂ R back second ∧
        right = first ++ second := by
  induction front generalizing right with
  | nil => simp [List.forall₂_nil_left_iff]
  | cons a rest ih =>
      simp only [List.cons_append, List.forall₂_cons_left_iff, ih]
      constructor
      · rintro ⟨b, _, hab, ⟨first, second, hfirst, hsecond, rfl⟩, rfl⟩
        exact ⟨b :: first, second, ⟨b, first, hab, hfirst, rfl⟩, hsecond, rfl⟩
      · rintro ⟨_, second, ⟨b, first, hab, hfirst, rfl⟩, hsecond, rfl⟩
        exact ⟨b, first ++ second, hab, ⟨first, second, hfirst, hsecond, rfl⟩, rfl⟩

/-- Lists with the same partners are the same where a partner belongs to one element only. -/
theorem eq_of_forall₂ {R' : α → β → Prop} {left' : List α} (hpairs : List.Forall₂ R left right)
    (hpairs' : List.Forall₂ R' left' right)
    (hunique : ∀ b ∈ right, ∀ a a', R a b → R' a' b → a = a') : left = left' := by
  induction hpairs generalizing left' with
  | nil => cases hpairs'; rfl
  | cons hfirst _ ih =>
      obtain ⟨hown, hrest⟩ := List.forall_mem_cons.mp hunique
      cases hpairs' with
      | cons hfirst' hpairs' => rw [hown _ _ hfirst hfirst', ih hpairs' hrest]

/-- Partners of one list are the same where each element has one partner only. -/
theorem eq_of_forall₂_right {R' : α → β → Prop} {right' : List β}
    (hpairs : List.Forall₂ R left right) (hpairs' : List.Forall₂ R' left right')
    (hunique : ∀ a ∈ left, ∀ b b', R a b → R' a b' → b = b') : right = right' :=
  eq_of_forall₂ (R := flip R) hpairs.flip hpairs'.flip hunique

/-- A partner for each element makes a list of partners. -/
theorem exists_forall₂ (hleft : ∀ a ∈ left, ∃ b, R a b) : ∃ right, List.Forall₂ R left right := by
  induction left with
  | nil => exact ⟨[], .nil⟩
  | cons a rest ih =>
      obtain ⟨⟨b, hb⟩, hrest⟩ := List.forall_mem_cons.mp hleft
      obtain ⟨right, hright⟩ := ih hrest
      exact ⟨b :: right, .cons hb hright⟩

/-- A property is found among the partners exactly if it is found on this side. -/
theorem exists_mem_iff (hpairs : List.Forall₂ R left right) {P : α → Prop} {Q : β → Prop}
    (hiff : ∀ a ∈ left, ∀ b, R a b → (Q b ↔ P a)) : (∃ b ∈ right, Q b) ↔ ∃ a ∈ left, P a := by
  induction hpairs with
  | nil => simp
  | cons hfirst _ ih =>
      obtain ⟨hiff, hrest⟩ := List.forall_mem_cons.mp hiff
      rw [List.exists_mem_cons_iff, List.exists_mem_cons_iff, hiff _ hfirst, ih hrest]

end Shipment
