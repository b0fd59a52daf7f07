import Shipment.Journal
import Shipment.Proofs.Basic

/-!
# Results of noted computations

The notes never decide what comes next, so the result of a computation put
together from noted ones is determined by their results alone.  A pass over a
list succeeds exactly when every element does, and otherwise gives the failure
of the first element that has one.
-/

namespace Shipment.Noted

variable {ε α β : Type}

@[simp]
theorem value_plain (a : α) : (plain a).value = a := rfl

@[simp]
theorem value_after (level : NoteLevel) (text : String) (rest : Noted α) :
    (after level text rest).value = rest.value := rfl

@[simp]
theorem value_map (f : α → β) (x : Noted α) : (x.map f).value = f x.value := rfl

@[simp]
theorem value_append (x y : Noted (List α)) :
    (x.append y).value = x.value ++ y.value := rfl

theorem value_andThen_of_ok {x : Noted (Except ε α)} {a : α} (hx : x.value = .ok a)
    (f : α → Noted (Except ε β)) : (x.andThen f).value = (f a).value := by
  simp [andThen, hx]

theorem value_andThen_of_error {x : Noted (Except ε α)} {e : ε} (hx : x.value = .error e)
    (f : α → Noted (Except ε β)) : (x.andThen f).value = .error e := by
  simp [andThen, hx]

/-- A chain succeeds when both of its parts do. -/
theorem value_andThen_eq_ok {x : Noted (Except ε α)} {f : α → Noted (Except ε β)} {b : β} :
    (x.andThen f).value = .ok b ↔ ∃ a, x.value = .ok a ∧ (f a).value = .ok b := by
  cases hx : x.value with
  | ok a => simp [value_andThen_of_ok hx]
  | error e => simp [value_andThen_of_error hx]

/-- A chain fails with its first part, or with the second after the first. -/
theorem value_andThen_eq_error {x : Noted (Except ε α)} {f : α → Noted (Except ε β)} {e : ε} :
    (x.andThen f).value = .error e ↔
      x.value = .error e ∨ ∃ a, x.value = .ok a ∧ (f a).value = .error e := by
  cases hx : x.value with
  | ok a => simp [value_andThen_of_ok hx]
  | error e => simp [value_andThen_of_error hx]

/-- Only the step behind the result of the first part matters. -/
theorem andThen_congr {x : Noted (Except ε α)} {f g : α → Noted (Except ε β)}
    (hsame : ∀ a, x.value = .ok a → f a = g a) : x.andThen f = x.andThen g := by
  cases hx : x.value with
  | ok a => simp [andThen, hx, hsame a hx]
  | error e => simp [andThen, hx]

/-! ## Passes over a list -/

theorem forEach_congr {f g : α → Noted (Except ε β)} {items : List α}
    (hsame : ∀ item ∈ items, f item = g item) : forEach f items = forEach g items := by
  induction items with
  | nil => rfl
  | cons item rest ih =>
      obtain ⟨hitem, hrest⟩ := List.forall_mem_cons.mp hsame
      rw [forEach, forEach, hitem, ih hrest]

/-- Every element has a result. -/
def Succeeds (f : α → Noted (Except ε β)) (items : List α) : Prop :=
  ∀ item ∈ items, ∃ b, (f item).value = .ok b

/-- The first element without a result fails with this error. -/
def FailsFirst (f : α → Noted (Except ε β)) (items : List α) (e : ε) : Prop :=
  ∃ before item after, items = before ++ item :: after ∧ Succeeds f before ∧
    (f item).value = .error e

theorem value_forEach_cons (f : α → Noted (Except ε β)) (item : α) (rest : List α) :
    (forEach f (item :: rest)).value =
      match (f item).value with
      | .ok b => (forEach f rest).value.map (b :: ·)
      | .error e => .error e := by
  cases hitem : (f item).value with
  | ok b => simp [forEach, value_andThen_of_ok hitem]
  | error e => simp [forEach, value_andThen_of_error hitem]

/-- A pass that succeeds gives the results of the elements in their order. -/
theorem value_forEach_eq_ok {f : α → Noted (Except ε β)} {items : List α} {results : List β} :
    (forEach f items).value = .ok results ↔
      List.Forall₂ (fun item b => (f item).value = .ok b) items results := by
  induction items generalizing results with
  | nil =>
      rw [List.forall₂_nil_left_iff]
      simp [forEach, eq_comm]
  | cons item rest ih =>
      rw [value_forEach_cons, List.forall₂_cons_left_iff]
      cases hitem : (f item).value with
      | error e => simp
      | ok b =>
          simp only [map_eq_ok, ih]
          constructor
          · intro h
            obtain ⟨more, hmore, rfl⟩ := h
            exact ⟨b, more, rfl, hmore, rfl⟩
          · intro h
            obtain ⟨own, more, hown, hmore, rfl⟩ := h
            obtain rfl : b = own := Except.ok.inj hown
            exact ⟨more, hmore, rfl⟩

theorem failsFirst_cons_iff {f : α → Noted (Except ε β)} {item : α} {rest : List α} {e : ε} :
    FailsFirst f (item :: rest) e ↔
      (f item).value = .error e ∨ (∃ b, (f item).value = .ok b) ∧ FailsFirst f rest e :=
  exists_behind_cons_iff

/-- A pass fails with the error of the first element that has one. -/
theorem value_forEach_eq_error {f : α → Noted (Except ε β)} {items : List α} {e : ε} :
    (forEach f items).value = .error e ↔ FailsFirst f items e := by
  induction items with
  | nil => simp [forEach, FailsFirst]
  | cons item rest ih =>
      rw [value_forEach_cons, failsFirst_cons_iff, ← ih]
      cases (f item).value with
      | error own => simp
      | ok b => simp [map_eq_error]

/-- A pass succeeds exactly when every element does. -/
theorem exists_value_forEach_eq_ok {f : α → Noted (Except ε β)} {items : List α} :
    (∃ results, (forEach f items).value = .ok results) ↔ Succeeds f items := by
  constructor
  · rintro ⟨results, hresults⟩ item hitem
    obtain ⟨b, -, hb⟩ := exists_mem_right (value_forEach_eq_ok.mp hresults) hitem
    exact ⟨b, hb⟩
  · intro hsucceeds
    cases hvalue : (forEach f items).value with
    | ok results => exact ⟨results, rfl⟩
    | error e =>
        obtain ⟨before, item, after, rfl, -, hfailing⟩ := value_forEach_eq_error.mp hvalue
        obtain ⟨b, hb⟩ := hsucceeds item (by simp)
        simp [hfailing] at hb

end Shipment.Noted
