import Mathlib.Data.List.Nodup
import Mathlib.Data.String.Basic
import Mathlib.Order.Defs.Unbundled
import Shipment.Fields

/-!
# Fields in the order of their keys

Insertion keeps a list of fields in strictly increasing order of the keys, so a
key occurs at most once.  Fields in order are told apart by what their keys are
bound to, and fields with different keys are all found after they were inserted
one after another.  The value of a key is replaced without a change to the others.
-/

namespace Shipment.Fields

variable {κ α : Type}

/-- Bytes are ordered by the first place where they differ. -/
instance strictTotalOrder_lt : IsStrictTotalOrder (List UInt8) (· < ·) where

/-- The keys increase from field to field. -/
def Ordered [LT κ] (fields : List (κ × α)) : Prop :=
  fields.Pairwise fun left right => left.1 < right.1

theorem ordered_nil [LT κ] : Ordered ([] : List (κ × α)) := List.Pairwise.nil

variable [DecidableEq κ]

theorem mem_of_get? {key : κ} {value : α} {fields : List (κ × α)}
    (hget : get? key fields = some value) : (key, value) ∈ fields := by
  induction fields with
  | nil => simp [get?] at hget
  | cons field rest ih =>
      obtain ⟨k, v⟩ := field
      rw [get?] at hget
      split at hget
      · next heq =>
          subst heq
          obtain rfl : v = value := by simpa using hget
          exact List.mem_cons_self
      · exact List.mem_cons_of_mem _ (ih hget)

section Insert

variable [LT κ] [DecidableLT κ]

theorem eq_or_mem_of_mem_insert {key : κ} {value : α} {field : κ × α}
    {fields : List (κ × α)} (hfield : field ∈ insert key value fields) :
    field = (key, value) ∨ field ∈ fields := by
  induction fields with
  | nil => simpa [insert] using hfield
  | cons first rest ih =>
      obtain ⟨k, v⟩ := first
      rw [insert] at hfield
      split at hfield
      · simpa using hfield
      · split at hfield
        · rcases List.mem_cons.mp hfield with heq | hmem
          · exact Or.inl heq
          · exact Or.inr (List.mem_cons_of_mem _ hmem)
        · rcases List.mem_cons.mp hfield with heq | hmem
          · exact Or.inr (heq ▸ List.mem_cons_self)
          · exact (ih hmem).imp_right (List.mem_cons_of_mem _)

theorem get?_insert (key other : κ) (value : α) (fields : List (κ × α)) :
    get? other (insert key value fields) =
      if other = key then some value else get? other fields := by
  by_cases heq : other = key
  · rw [if_pos heq, heq, get?_insert_self]
  rw [if_neg heq]
  induction fields with
  | nil => simp [insert, get?, heq]
  | cons field rest ih =>
      obtain ⟨k, v⟩ := field
      rw [insert]
      split
      · rw [get?, if_neg heq]
      · split
        · next hkey => rw [get?, get?, if_neg heq, if_neg (hkey ▸ heq)]
        · rw [get?, get?, ih]

/-- Each of several fields with different keys is found among all of them. -/
theorem get?_ofList_eq_some {fields : List (κ × α)}
    (hdistinct : fields.Pairwise fun field later => field.1 ≠ later.1) {key : κ} {value : α} :
    get? key (ofList fields) = some value ↔ (key, value) ∈ fields := by
  have hfold : ∀ found : List (κ × α),
      get? key (fields.foldl (fun acc field => insert field.1 field.2 acc) found) = some value ↔
        (key, value) ∈ fields ∨
          (∀ field ∈ fields, key ≠ field.1) ∧ get? key found = some value := by
    induction fields with
    | nil => simp
    | cons field rest ih =>
        obtain ⟨hfirst, hrest⟩ := List.pairwise_cons.mp hdistinct
        intro found
        rw [List.foldl_cons, ih hrest, get?_insert, List.mem_cons, List.forall_mem_cons]
        by_cases heq : key = field.1
        · subst heq
          rw [if_pos rfl]
          constructor
          · rintro (hmem | ⟨-, hvalue⟩)
            · exact absurd rfl (hfirst (field.1, value) hmem)
            · exact Or.inl (Or.inl (by rw [← Option.some.inj hvalue]))
          · rintro ((hself | hmem) | ⟨⟨hne, -⟩, -⟩)
            · exact Or.inr ⟨hfirst, by rw [← hself]⟩
            · exact absurd rfl (hfirst (field.1, value) hmem)
            · exact absurd rfl hne
        · simp [heq, Prod.ext_iff]
  rw [ofList, hfold]
  simp [get?]

theorem mem_of_mem_ofList {fields : List (κ × α)} {field : κ × α}
    (hfield : field ∈ ofList fields) : field ∈ fields := by
  have hfold : ∀ found : List (κ × α),
      field ∈ fields.foldl (fun acc field => insert field.1 field.2 acc) found →
        field ∈ fields ∨ field ∈ found := by
    clear hfield
    induction fields with
    | nil => exact fun found hmem => Or.inr hmem
    | cons first rest ih =>
        intro found hmem
        rcases ih _ hmem with hrest | hinsert
        · exact Or.inl (List.mem_cons_of_mem _ hrest)
        · rcases eq_or_mem_of_mem_insert hinsert with rfl | hfound
          · exact Or.inl List.mem_cons_self
          · exact Or.inr hfound
  exact (hfold [] hfield).resolve_right List.not_mem_nil

end Insert

/-! ## Fields in order -/

section Ordered

variable [LT κ] [IsStrictTotalOrder κ (· < ·)]

theorem get?_of_mem {key : κ} {value : α} {fields : List (κ × α)}
    (hfields : Ordered fields) (hmem : (key, value) ∈ fields) : get? key fields = some value := by
  induction fields with
  | nil => simp at hmem
  | cons field rest ih =>
      obtain ⟨k, v⟩ := field
      obtain ⟨hfirst, hrest⟩ := List.pairwise_cons.mp hfields
      rw [get?]
      rcases List.mem_cons.mp hmem with heq | htail
      · obtain ⟨rfl, rfl⟩ := Prod.mk.inj heq
        rw [if_pos rfl]
      · rw [if_neg (ne_of_irrefl (hfirst _ htail)).symm, ih hrest htail]

theorem mem_iff_get? {key : κ} {value : α} {fields : List (κ × α)}
    (hfields : Ordered fields) : (key, value) ∈ fields ↔ get? key fields = some value :=
  ⟨get?_of_mem hfields, mem_of_get?⟩

/-- Ordered fields that bind every key alike are the same. -/
theorem eq_of_get?_eq {left right : List (κ × α)} (hleft : Ordered left)
    (hright : Ordered right) (hget : ∀ key, get? key left = get? key right) : left = right := by
  have hnodup : ∀ {fields : List (κ × α)}, Ordered fields → fields.Nodup := by
    intro fields hfields
    apply hfields.imp
    rintro field _ hlt rfl
    exact irrefl _ hlt
  have hperm : left.Perm right := by
    apply (List.perm_ext_iff_of_nodup (hnodup hleft) (hnodup hright)).mpr
    rintro ⟨key, value⟩
    rw [mem_iff_get? hleft, mem_iff_get? hright, hget]
  apply hperm.eq_of_pairwise _ hleft hright
  intro field other _ _ hlt hgt
  exact absurd hlt (asymm hgt)

variable [DecidableLT κ]

theorem ordered_insert {key : κ} {value : α} {fields : List (κ × α)}
    (hfields : Ordered fields) : Ordered (insert key value fields) := by
  induction fields with
  | nil => simp [insert, Ordered]
  | cons first rest ih =>
      obtain ⟨k, v⟩ := first
      obtain ⟨hfirst, hrest⟩ := List.pairwise_cons.mp hfields
      rw [insert]
      split
      · next hlt =>
          refine List.pairwise_cons.mpr ⟨?_, hfields⟩
          intro field hfield
          rcases List.mem_cons.mp hfield with rfl | hmem
          · exact hlt
          · exact IsTrans.trans _ _ _ hlt (hfirst field hmem)
      · next hnotlt =>
          split
          · next heq =>
              subst heq
              exact List.pairwise_cons.mpr ⟨hfirst, hrest⟩
          · next hne =>
              refine List.pairwise_cons.mpr ⟨?_, ih hrest⟩
              intro field hfield
              rcases eq_or_mem_of_mem_insert hfield with rfl | hmem
              · exact of_not_not fun hnot => hne (Std.Trichotomous.trichotomous _ _ hnotlt hnot)
              · exact hfirst field hmem

theorem ordered_ofList (fields : List (κ × α)) : Ordered (ofList fields) := by
  have hfold : ∀ found : List (κ × α), Ordered found →
      Ordered (fields.foldl (fun acc field => insert field.1 field.2 acc) found) := by
    induction fields with
    | nil => exact fun found hfound => hfound
    | cons field rest ih => exact fun found hfound => ih _ (ordered_insert hfound)
  exact hfold [] ordered_nil

/-- Fields that are in order stay as they are. -/
theorem ofList_eq_self {fields : List (κ × α)} (hfields : Ordered fields) :
    ofList fields = fields := by
  apply eq_of_get?_eq (ordered_ofList fields) hfields
  intro key
  ext value
  rw [get?_ofList_eq_some (hfields.imp ne_of_irrefl), mem_iff_get? hfields]

end Ordered

/-! ## One value replaced -/

section Replaced

variable {key : κ} {value other : α} {fields fields' : List (κ × α)}

/-- The fields differ in the value of one key at most, which is there. -/
def Replaced (key : κ) (value other : α) (fields fields' : List (κ × α)) : Prop :=
  ∃ front back, fields = front ++ (key, value) :: back ∧ fields' = front ++ (key, other) :: back ∧
    ∀ field ∈ front, field.1 ≠ key

theorem exists_replaced (hvalue : get? key fields = some value) (other : α) :
    ∃ fields', Replaced key value other fields fields' := by
  induction fields with
  | nil => cases hvalue
  | cons field rest ih =>
      obtain ⟨k, v⟩ := field
      rw [get?] at hvalue
      by_cases heq : key = k
      · subst heq
        obtain rfl : v = value := by simpa using hvalue
        exact ⟨(key, other) :: rest, [], rest, rfl, rfl, by simp⟩
      · rw [if_neg heq] at hvalue
        obtain ⟨_, front, back, rfl, rfl, hfront⟩ := ih hvalue
        refine ⟨_, (k, v) :: front, back, rfl, rfl, ?_⟩
        exact List.forall_mem_cons.mpr ⟨Ne.symm heq, hfront⟩

omit [DecidableEq κ] in
theorem Replaced.symm (h : Replaced key value other fields fields') :
    Replaced key other value fields' fields := by
  obtain ⟨front, back, hfields, hfields', hfront⟩ := h
  exact ⟨front, back, hfields', hfields, hfront⟩

omit [DecidableEq κ] in
theorem Replaced.again (h : Replaced key value other fields fields') :
    Replaced key other other fields' fields' := by
  obtain ⟨front, back, -, hfields', hfront⟩ := h
  exact ⟨front, back, hfields', hfields', hfront⟩

theorem Replaced.get? (h : Replaced key value other fields fields') :
    Fields.get? key fields = some value := by
  obtain ⟨front, back, rfl, -, hfront⟩ := h
  induction front with
  | nil => simp [Fields.get?]
  | cons field front ih =>
      obtain ⟨hfield, hrest⟩ := List.forall_mem_cons.mp hfront
      rw [List.cons_append, Fields.get?, if_neg (Ne.symm hfield), ih hrest]

theorem Replaced.get?_of_ne (h : Replaced key value other fields fields') {name : κ}
    (hname : name ≠ key) : Fields.get? name fields' = Fields.get? name fields := by
  obtain ⟨front, back, rfl, rfl, -⟩ := h
  induction front with
  | nil => simp [Fields.get?, hname]
  | cons field front ih => rw [List.cons_append, List.cons_append, Fields.get?, Fields.get?, ih]

/-- The value of a key is changed in its place. -/
theorem Replaced.modify? (h : Replaced key value other fields fields') {f : α → Option α}
    (hf : f value = some other) : Fields.modify? key f fields = some fields' := by
  obtain ⟨front, back, rfl, rfl, hfront⟩ := h
  induction front with
  | nil => simp [Fields.modify?, hf]
  | cons field front ih =>
      obtain ⟨hfield, hrest⟩ := List.forall_mem_cons.mp hfront
      rw [List.cons_append, Fields.modify?, if_neg (Ne.symm hfield), ih hrest]
      rfl

theorem exists_replaced_of_modify? {f : α → Option α}
    (hmodify : Fields.modify? key f fields = some fields') :
    ∃ value other, f value = some other ∧ Replaced key value other fields fields' := by
  induction fields generalizing fields' with
  | nil => cases hmodify
  | cons field rest ih =>
      obtain ⟨k, v⟩ := field
      rw [Fields.modify?] at hmodify
      split at hmodify
      · next hkey =>
          subst hkey
          obtain ⟨w, hw, rfl⟩ := Option.map_eq_some_iff.mp hmodify
          exact ⟨v, w, hw, [], rest, rfl, rfl, List.forall_mem_nil _⟩
      · next hkey =>
          obtain ⟨more, hmore, rfl⟩ := Option.map_eq_some_iff.mp hmodify
          obtain ⟨value, other, hother, front, back, rfl, rfl, hfront⟩ := ih hmore
          refine ⟨value, other, hother, (k, v) :: front, back, rfl, rfl, ?_⟩
          exact List.forall_mem_cons.mpr ⟨Ne.symm hkey, hfront⟩

end Replaced

end Shipment.Fields
