import Shipment.Json.Reader
import Shipment.Proofs.Basic
import Shipment.Proofs.Fields

/-!
# What reading gives

A value that is read from a text is no deeper than it may be, and the keys of its
objects are in order.
-/

namespace Shipment.Json

/-- What can be read where lists and objects may be nested so deep. -/
inductive Fits : Nat → Json → Prop
  | null {depth : Nat} : Fits depth null
  | bool {depth : Nat} (b : Bool) : Fits depth (bool b)
  | number {depth : Nat} (n : Number) : Fits depth (number n)
  | string {depth : Nat} (s : String) : Fits depth (string s)
  | array {depth : Nat} {items : List Json} (hitems : ∀ item ∈ items, Fits depth item) :
      Fits (depth + 1) (array items)
  | object {depth : Nat} {fields : List (String × Json)} (hordered : Fields.Ordered fields)
      (hvalues : ∀ field ∈ fields, Fits depth field.2) : Fits (depth + 1) (object fields)

theorem fits_scalar {depth : Nat} {text rest : List Char} {value : Json} (hread : scalar text = .ok (value, rest)) :
    Fits depth value := by
  unfold scalar at hread
  split at hread
  · obtain ⟨_, -, heq⟩ := map_eq_ok.mp hread
    cases heq
    exact .null
  · obtain ⟨_, -, heq⟩ := map_eq_ok.mp hread
    cases heq
    exact .bool true
  · obtain ⟨_, -, heq⟩ := map_eq_ok.mp hread
    cases heq
    exact .bool false
  · obtain ⟨_, -, heq⟩ := map_eq_ok.mp hread
    cases heq
    exact .string _
  · obtain ⟨_, -, heq⟩ := map_eq_ok.mp hread
    cases heq
    exact .number _
  · cases hread
  · split at hread
    · obtain ⟨_, -, heq⟩ := map_eq_ok.mp hread
      cases heq
      exact .number _
    · cases hread

mutual

theorem fits_value (fuel : Nat) {depth : Nat} {text rest : List Char} {found : Json}
    (hread : value fuel depth text = .ok (found, rest)) : Fits depth found := by
  cases fuel with
  | zero => cases hread
  | succ fuel =>
      rw [value] at hread
      split at hread
      · split at hread
        · cases hread
        · obtain ⟨_, hitems, heq⟩ := map_eq_ok.mp hread
          cases heq
          exact .array (fits_items fuel hitems)
      · split at hread
        · cases hread
        · obtain ⟨_, hmembers, heq⟩ := map_eq_ok.mp hread
          cases heq
          exact .object (Fields.ordered_ofList _) fun field hfield =>
            fits_members fuel hmembers field (Fields.mem_of_mem_ofList hfield)
      · exact fits_scalar hread

theorem fits_items (fuel : Nat) {depth : Nat} {first : Bool} {text rest : List Char}
    {found : List Json} (hread : items fuel depth first text = .ok (found, rest)) :
    ∀ item ∈ found, Fits depth item := by
  cases fuel with
  | zero => cases hread
  | succ fuel =>
      rw [items] at hread
      split at hread
      · cases hread
      · cases hread
        simp
      · split at hread
        · cases hread
        · next hvalue =>
            obtain ⟨_, hmore, heq⟩ := map_eq_ok.mp hread
            cases heq
            exact List.forall_mem_cons.mpr ⟨fits_value fuel hvalue, fits_items fuel hmore⟩

theorem fits_members (fuel : Nat) {depth : Nat} {first : Bool} {text rest : List Char}
    {found : List (String × Json)} (hread : members fuel depth first text = .ok (found, rest)) :
    ∀ field ∈ found, Fits depth field.2 := by
  cases fuel with
  | zero => cases hread
  | succ fuel =>
      rw [members] at hread
      split at hread
      · cases hread
      · cases hread
        simp
      · split at hread
        · cases hread
        · split at hread
          · cases hread
          · split at hread
            · cases hread
            · next hvalue =>
                obtain ⟨_, hmore, heq⟩ := map_eq_ok.mp hread
                cases heq
                exact List.forall_mem_cons.mpr ⟨fits_value fuel hvalue, fits_members fuel hmore⟩

end

end Shipment.Json
