import Shipment.Proofs.Fields
import Shipment.Proofs.Json.Places

/-!
# Assigning through a pointer

An assignment takes the way of the look-up: it has a target exactly if something is found, and
the target is what is found.  Afterwards the assigned value is found there, with all that is
below it, and what was found on any way that parts from this one is found still.  Assigning what
is there already changes nothing.
-/

namespace Shipment.Json

/-! ## One step -/

/-- The values differ at most in the child that the segment selects, which is there. -/
inductive ChildReplaced (segment : String) (child other : Json) : Json → Json → Prop
  | field {fields fields' : List (String × Json)}
      (hfields : Fields.Replaced segment child other fields fields') :
      ChildReplaced segment child other (.object fields) (.object fields')
  | item {items : List Json} {index : Nat} (hindex : index? segment = some index)
      (hitem : items[index]? = some child) :
      ChildReplaced segment child other (.array items) (.array (items.set index other))

variable {value value' child other part : Json} {segment name : String}

theorem ChildReplaced.symm (h : ChildReplaced segment child other value value') :
    ChildReplaced segment other child value' value := by
  cases h with
  | field hfields => exact .field hfields.symm
  | @item items index hindex hitem =>
      obtain ⟨hlt, rfl⟩ := List.getElem?_eq_some_iff.mp hitem
      have hback : ChildReplaced segment other items[index] (.array (items.set index other))
          (.array ((items.set index other).set index items[index])) :=
        .item hindex (List.getElem?_set_self hlt)
      rwa [List.set_set, List.set_getElem_self] at hback

/-- Replacing a child by itself is no change. -/
theorem ChildReplaced.self (h : ChildReplaced segment child other value value') :
    ChildReplaced segment child child value value := by
  cases h with
  | field hfields => exact .field hfields.symm.again
  | @item items index hindex hitem =>
      have hown : ChildReplaced segment child child (.array items)
          (.array (items.set index child)) := .item hindex hitem
      obtain ⟨hlt, rfl⟩ := List.getElem?_eq_some_iff.mp hitem
      rwa [List.set_getElem_self] at hown

theorem ChildReplaced.child? (h : ChildReplaced segment child other value value') :
    value.child? segment = some child := by
  cases h with
  | field hfields => exact hfields.get?
  | item hindex hitem => rw [Json.child?, hindex, Option.bind_some, hitem]

/-- A segment that selects another child, or none, selects the same as before. -/
theorem ChildReplaced.child?_of_not_samePlace (h : ChildReplaced segment child other value value')
    (hname : ¬SamePlace value ⟨[segment]⟩ ⟨[name]⟩) : value'.child? name = value.child? name := by
  cases h with
  | field hfields =>
      refine hfields.get?_of_ne ?_
      rintro rfl
      have hleads := Leads.key hfields.get? (.here child)
      exact hname ⟨_, _, hleads, hleads⟩
  | @item items index hindex hitem =>
      cases hother : index? name with
      | none => rw [Json.child?, Json.child?, hother, Option.bind_none, Option.bind_none]
      | some index' =>
          have hne : index ≠ index' := by
            rintro rfl
            exact hname ⟨_, _, .item hindex hitem (.here child), .item hother hitem (.here child)⟩
          rw [Json.child?, Json.child?, hother, Option.bind_some, Option.bind_some,
            List.getElem?_set_ne hne]

theorem exists_childReplaced (hchild : value.child? segment = some child) (other : Json) :
    ∃ value', ChildReplaced segment child other value value' := by
  cases value with
  | object fields =>
      obtain ⟨fields', hfields⟩ := Fields.exists_replaced hchild other
      exact ⟨.object fields', .field hfields⟩
  | array items =>
      obtain ⟨index, hindex, hitem⟩ := Option.bind_eq_some_iff.mp hchild
      exact ⟨_, .item hindex hitem⟩
  | _ => cases hchild

theorem modifyItem?_eq_bind (f : Json → Option Json) (index : Nat) (items : List Json) :
    modifyItem? f index items =
      items[index]?.bind fun item => (f item).map (items.set index ·) := by
  fun_induction modifyItem? f index items with
  | case1 => simp
  | case2 item rest => simp
  | case3 index item rest ih =>
      rw [ih, List.getElem?_cons_succ, Option.map_bind]
      refine Option.bind_congr fun below _ => ?_
      rw [Function.comp_apply, Option.map_map]
      rfl

/-- A child is changed in its place. -/
theorem modifyChild?_eq_some_iff {f : Json → Option Json} :
    value.modifyChild? segment f = some value' ↔
      ∃ child other, f child = some other ∧ ChildReplaced segment child other value value' := by
  constructor
  · intro hmodify
    cases value with
    | object fields =>
        obtain ⟨fields', hfields, rfl⟩ := Option.map_eq_some_iff.mp hmodify
        obtain ⟨child, other, hother, hreplaced⟩ := Fields.exists_replaced_of_modify? hfields
        exact ⟨child, other, hother, .field hreplaced⟩
    | array items =>
        obtain ⟨index, hindex, hmap⟩ := Option.bind_eq_some_iff.mp hmodify
        obtain ⟨items', hitems, rfl⟩ := Option.map_eq_some_iff.mp hmap
        rw [modifyItem?_eq_bind] at hitems
        obtain ⟨child, hchild, hset⟩ := Option.bind_eq_some_iff.mp hitems
        obtain ⟨other, hother, rfl⟩ := Option.map_eq_some_iff.mp hset
        exact ⟨child, other, hother, .item hindex hchild⟩
    | _ => cases hmodify
  · rintro ⟨child, other, hother, hreplaced⟩
    cases hreplaced with
    | field hfields => rw [modifyChild?, hfields.modify? hother, Option.map_some]
    | item hindex hitem =>
        rw [modifyChild?, hindex, Option.bind_some, modifyItem?_eq_bind, hitem, Option.bind_some,
          hother, Option.map_some, Option.map_some]

/-! ## All steps -/

/-- The values differ at most in the part that the segments lead to, which is there. -/
inductive PartReplaced (part other : Json) : List String → Json → Json → Prop
  | here : PartReplaced part other [] part other
  | step {segment : String} {rest : List String} {child child' value value' : Json}
      (hchild : ChildReplaced segment child child' value value')
      (hrest : PartReplaced part other rest child child') :
      PartReplaced part other (segment :: rest) value value'

variable {segments others : List String} {f : Json → Option Json}

theorem PartReplaced.symm (h : PartReplaced part other segments value value') :
    PartReplaced other part segments value' value := by
  induction h with
  | here => exact .here
  | step hchild _ ih => exact .step hchild.symm ih

theorem PartReplaced.self (h : PartReplaced part other segments value value') :
    PartReplaced part part segments value value := by
  induction h with
  | here => exact .here
  | step hchild _ ih => exact .step hchild.self ih

theorem PartReplaced.lookup (h : PartReplaced part other segments value value') :
    lookup segments value = some part := by
  induction h with
  | here => rfl
  | step hchild _ ih => rw [Json.lookup, hchild.child?, Option.bind_some, ih]

theorem exists_partReplaced (hpart : lookup segments value = some part) (other : Json) :
    ∃ value', PartReplaced part other segments value value' := by
  induction segments generalizing value with
  | nil =>
      cases hpart
      exact ⟨other, .here⟩
  | cons segment rest ih =>
      obtain ⟨child, hchild, hrest⟩ := Option.bind_eq_some_iff.mp hpart
      obtain ⟨child', hbelow⟩ := ih hrest
      obtain ⟨value', hvalue⟩ := exists_childReplaced hchild child'
      exact ⟨value', .step hvalue hbelow⟩

/-- A part is changed in its place. -/
theorem modify?_eq_some_iff :
    modify? f segments value = some value' ↔
      ∃ part other, f part = some other ∧ PartReplaced part other segments value value' := by
  induction segments generalizing value value' with
  | nil =>
      constructor
      · intro hvalue
        exact ⟨value, value', hvalue, .here⟩
      · rintro ⟨_, _, hother, ⟨⟩⟩
        exact hother
  | cons segment rest ih =>
      rw [modify?, modifyChild?_eq_some_iff]
      constructor
      · rintro ⟨child, child', hbelow, hchild⟩
        obtain ⟨part, other, hother, hrest⟩ := ih.mp hbelow
        exact ⟨part, other, hother, .step hchild hrest⟩
      · rintro ⟨part, other, hother, hparts⟩
        cases hparts with
        | step hchild hrest => exact ⟨_, _, ih.mpr ⟨part, other, hother, hrest⟩, hchild⟩

/-! ## Other ways -/

theorem lookup_append (segments others : List String) (value : Json) :
    lookup (segments ++ others) value = (lookup segments value).bind (lookup others) := by
  induction segments generalizing value with
  | nil => rfl
  | cons segment rest ih =>
      rw [List.cons_append, lookup, lookup, Option.bind_assoc]
      exact Option.bind_congr fun child _ => ih child

/-- Where the ways differ first, they go on to different keys or items. -/
def Parts (value : Json) (segments others : List String) : Prop :=
  ∃ front segment back name back', segments = front ++ segment :: back ∧
    others = front ++ name :: back' ∧ segment ≠ name ∧
      ∀ below, lookup front value = some below → ¬SamePlace below ⟨[segment]⟩ ⟨[name]⟩

theorem PartReplaced.lookup_of_parts (h : PartReplaced part other segments value value')
    (hparts : Parts value segments others) :
    Json.lookup others value' = Json.lookup others value := by
  obtain ⟨front, segment, back, name, back', rfl, rfl, -, hplace⟩ := hparts
  induction front generalizing value value' with
  | nil =>
      cases h with
      | step hchild _ =>
          rw [List.nil_append, Json.lookup, Json.lookup,
            hchild.child?_of_not_samePlace (hplace value rfl)]
  | cons first rest ih =>
      cases h with
      | step hchild hrest =>
          have hbelow := ih hrest fun below hlookup =>
            hplace below (by rw [Json.lookup, hchild.child?, Option.bind_some, hlookup])
          rw [List.cons_append, Json.lookup, Json.lookup, hchild.child?, hchild.symm.child?,
            Option.bind_some, Option.bind_some, hbelow]

/-! ## The laws -/

theorem set?_eq_some_iff {p : Pointer} {w : Json} :
    value.set? p w = some value' ↔ ∃ part, PartReplaced part w p.segments value value' := by
  rw [set?, modify?_eq_some_iff]
  simp

/-- What a pointer finds is what a function is applied to through it. -/
theorem modify?_eq_bind (f : Json → Option Json) (value : Json) (p : Pointer) :
    modify? f p.segments value =
      (value.get? p).bind fun target => (f target).bind fun w => value.set? p w := by
  ext value'
  simp only [modify?_eq_some_iff, Option.bind_eq_some_iff, set?_eq_some_iff, get?]
  constructor
  · rintro ⟨part, other, hother, hreplaced⟩
    exact ⟨part, hreplaced.lookup, other, hother, part, hreplaced⟩
  · rintro ⟨target, htarget, other, hother, part, hreplaced⟩
    obtain rfl := Option.some.inj (htarget.symm.trans hreplaced.lookup)
    exact ⟨target, other, hother, hreplaced⟩

/-- An assignment through a pointer has a target exactly if the pointer finds something, and
the target is what it finds.  The assigned value is found there afterwards, and below it what is
below that value; what is found on a way that parts from the pointer is found as before; and
assigning what was found is no change. -/
theorem assignment_laws (value : Json) (p : Pointer) :
    (∀ f, modify? f p.segments value =
        (value.get? p).bind fun target => (f target).bind fun w => value.set? p w) ∧
      (∀ w, (∃ value', value.set? p w = some value') ↔ ∃ target, value.get? p = some target) ∧
      (∀ w value', value.set? p w = some value' →
        value'.get? p = some w ∧ (∀ r, value'.get? (p.append r) = w.get? r) ∧
          ∀ q, Parts value p.segments q.segments → value'.get? q = value.get? q) ∧
      ∀ target, value.get? p = some target → value.set? p target = some value := by
  refine ⟨fun f => modify?_eq_bind f value p, fun w => ?_, fun w value' hset => ?_,
    fun target htarget => ?_⟩
  · constructor
    · rintro ⟨value', hset⟩
      obtain ⟨part, hreplaced⟩ := set?_eq_some_iff.mp hset
      exact ⟨part, hreplaced.lookup⟩
    · rintro ⟨target, htarget⟩
      obtain ⟨value', hreplaced⟩ := exists_partReplaced htarget w
      exact ⟨value', set?_eq_some_iff.mpr ⟨target, hreplaced⟩⟩
  · obtain ⟨part, hreplaced⟩ := set?_eq_some_iff.mp hset
    have hfound : lookup p.segments value' = some w := hreplaced.symm.lookup
    refine ⟨hfound, fun r => ?_, fun q hparts => hreplaced.lookup_of_parts hparts⟩
    rw [get?, Pointer.append, lookup_append, hfound, Option.bind_some, get?]
  · obtain ⟨value', hreplaced⟩ := exists_partReplaced htarget target
    exact set?_eq_some_iff.mpr ⟨target, hreplaced.self⟩

/-- Another spelling of an index does not part from it, and another index does. -/
example : (twoSteps.set? ⟨["steps", "0"]⟩ .null).map
      (fun value => (value.get? ⟨["steps", "+0"]⟩, value.get? ⟨["steps", "+1"]⟩)) =
    some (some .null, some (.string "test")) := by
  cbv

end Shipment.Json
