import Shipment.Json.Lookup
import Shipment.Proofs.Basic
import Shipment.Proofs.Fields

/-!
# Well-formed documents

What holds of every document that the library makes: doubles are finite, and the keys
of an object are in order, so that each of them is there once.  Putting well-formed
values into a well-formed document keeps it well formed.
-/

namespace Shipment.Json

/-- Doubles are finite, and the keys of an object are in order. -/
inductive WellFormed : Json → Prop
  | null : WellFormed null
  | bool (b : Bool) : WellFormed (bool b)
  | integer (n : Integer64) : WellFormed (number (.integer n))
  | float {x : Binary64} (hfinite : x.isFinite = true) : WellFormed (number (.float x))
  | string (s : String) : WellFormed (string s)
  | array {items : List Json} (hitems : ∀ item ∈ items, WellFormed item) :
      WellFormed (array items)
  | object {fields : List (String × Json)} (hordered : Fields.Ordered fields)
      (hvalues : ∀ field ∈ fields, WellFormed field.2) : WellFormed (object fields)

variable {items items' : List Json} {fields fields' : List (String × Json)} {value value' : Json}
  {key : String} {f : Json → Option Json}

theorem wellFormed_number {n : Number} (hfinite : n.isFinite = true) : WellFormed (number n) := by
  cases n with
  | integer n => exact .integer n
  | float x => exact .float hfinite

theorem wellFormed_array : WellFormed (array items) ↔ ∀ item ∈ items, WellFormed item := by
  constructor
  · rintro ⟨⟩
    assumption
  · exact .array

theorem wellFormed_object :
    WellFormed (object fields) ↔ Fields.Ordered fields ∧ ∀ field ∈ fields, WellFormed field.2 := by
  constructor
  · rintro ⟨⟩
    exact ⟨‹_›, ‹_›⟩
  · exact fun h => .object h.1 h.2

theorem wellFormed_insert (key : String) (hobject : WellFormed (object fields))
    (hvalue : WellFormed value) : WellFormed (object (Fields.insert key value fields)) := by
  obtain ⟨hordered, hvalues⟩ := wellFormed_object.mp hobject
  refine .object (Fields.ordered_insert hordered) fun field hfield => ?_
  rcases Fields.eq_or_mem_of_mem_insert hfield with rfl | hmem
  · exact hvalue
  · exact hvalues field hmem

/-! ## Replacing a part -/

/-- The function makes well-formed values of well-formed values. -/
def KeepsWellFormed (f : Json → Option Json) : Prop :=
  ∀ ⦃value value' : Json⦄, WellFormed value → f value = some value' → WellFormed value'

theorem map_fst_of_modify? (hmodify : Fields.modify? key f fields = some fields') :
    fields'.map (·.1) = fields.map (·.1) := by
  induction fields generalizing fields' with
  | nil => cases hmodify
  | cons field rest ih =>
      obtain ⟨k, v⟩ := field
      rw [Fields.modify?] at hmodify
      split at hmodify
      · obtain ⟨w, -, rfl⟩ := Option.map_eq_some_iff.mp hmodify
        rfl
      · obtain ⟨more, hmore, rfl⟩ := Option.map_eq_some_iff.mp hmodify
        rw [List.map_cons, List.map_cons, ih hmore]

theorem wellFormed_of_mem_modify? (hf : KeepsWellFormed f)
    (hvalues : ∀ field ∈ fields, WellFormed field.2)
    (hmodify : Fields.modify? key f fields = some fields') :
    ∀ field ∈ fields', WellFormed field.2 := by
  induction fields generalizing fields' with
  | nil => cases hmodify
  | cons field rest ih =>
      obtain ⟨k, v⟩ := field
      obtain ⟨hvalue, hrest⟩ := List.forall_mem_cons.mp hvalues
      rw [Fields.modify?] at hmodify
      split at hmodify
      · obtain ⟨w, hw, rfl⟩ := Option.map_eq_some_iff.mp hmodify
        exact List.forall_mem_cons.mpr ⟨hf hvalue hw, hrest⟩
      · obtain ⟨more, hmore, rfl⟩ := Option.map_eq_some_iff.mp hmodify
        exact List.forall_mem_cons.mpr ⟨hvalue, ih hrest hmore⟩

theorem wellFormed_of_mem_modifyItem? (hf : KeepsWellFormed f) {index : Nat}
    (hitems : ∀ item ∈ items, WellFormed item) (hmodify : modifyItem? f index items = some items') :
    ∀ item ∈ items', WellFormed item := by
  induction items generalizing index items' with
  | nil => cases index <;> cases hmodify
  | cons item rest ih =>
      obtain ⟨hitem, hrest⟩ := List.forall_mem_cons.mp hitems
      cases index with
      | zero =>
          obtain ⟨w, hw, rfl⟩ := Option.map_eq_some_iff.mp hmodify
          exact List.forall_mem_cons.mpr ⟨hf hitem hw, hrest⟩
      | succ index =>
          obtain ⟨more, hmore, rfl⟩ := Option.map_eq_some_iff.mp hmodify
          exact List.forall_mem_cons.mpr ⟨hitem, ih hrest hmore⟩

theorem keepsWellFormed_modifyChild? (hf : KeepsWellFormed f) (segment : String) :
    KeepsWellFormed (modifyChild? · segment f) := by
  intro value value' hvalue hmodify
  cases value with
  | object fields =>
      obtain ⟨hordered, hvalues⟩ := wellFormed_object.mp hvalue
      obtain ⟨fields', hfields, rfl⟩ := Option.map_eq_some_iff.mp hmodify
      refine .object ?_ (wellFormed_of_mem_modify? hf hvalues hfields)
      -- the order is one of the keys alone
      have hkeys := List.pairwise_map.mpr hordered
      rw [← map_fst_of_modify? hfields] at hkeys
      exact List.pairwise_map.mp hkeys
  | array items =>
      obtain ⟨index, -, hindex⟩ := Option.bind_eq_some_iff.mp hmodify
      obtain ⟨items', hitems, rfl⟩ := Option.map_eq_some_iff.mp hindex
      exact .array (wellFormed_of_mem_modifyItem? hf (wellFormed_array.mp hvalue) hitems)
  | _ => cases hmodify

theorem keepsWellFormed_modify? (hf : KeepsWellFormed f) (segments : List String) :
    KeepsWellFormed (modify? f segments) := by
  induction segments with
  | nil => exact hf
  | cons segment rest ih => exact keepsWellFormed_modifyChild? ih segment

/-- A part of a document may be replaced by a well-formed value. -/
theorem wellFormed_set? {location : Pointer} {replacement : Json} (hvalue : WellFormed value)
    (hreplacement : WellFormed replacement) (hset : value.set? location replacement = some value') :
    WellFormed value' := by
  refine keepsWellFormed_modify? ?_ location.segments hvalue hset
  rintro _ _ - ⟨⟩
  exact hreplacement

/-! ## Looking at a part -/

theorem wellFormed_child? {segment : String} (hvalue : WellFormed value)
    (hchild : value.child? segment = some value') : WellFormed value' := by
  cases value with
  | object fields => exact (wellFormed_object.mp hvalue).2 _ (Fields.mem_of_get? hchild)
  | array items =>
      obtain ⟨index, -, hindex⟩ := Option.bind_eq_some_iff.mp hchild
      exact wellFormed_array.mp hvalue _ (List.mem_of_getElem? hindex)
  | _ => cases hchild

theorem wellFormed_lookup {segments : List String} (hvalue : WellFormed value)
    (hlookup : lookup segments value = some value') : WellFormed value' := by
  induction segments generalizing value with
  | nil =>
      cases hlookup
      exact hvalue
  | cons segment rest ih =>
      obtain ⟨child, hchild, hrest⟩ := Option.bind_eq_some_iff.mp hlookup
      exact ih (wellFormed_child? hvalue hchild) hrest

end Shipment.Json
