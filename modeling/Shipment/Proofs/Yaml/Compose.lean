import Shipment.Proofs.Yaml.Node
import Shipment.Yaml.Compose

/-!
# Composed values have distinct keys

A mapping is composed entry by entry, and a key that equals an earlier one is a
fault.  So no mapping of a document's value holds two equal keys, wherever it
stands.
-/

namespace Shipment.Yaml

namespace Compose

theorem distinctKeys_ofMeaning {m : Meaning} {node : Node} (hnode : ofMeaning m = .ok node) :
    node.DistinctKeys := by
  cases m with
  | null =>
      cases hnode
      exact .null
  | bool b =>
      cases hnode
      exact .bool b
  | integer n =>
      cases hnode
      exact .number _
  | wideUnsigned n => cases hnode
  | wideSigned n => cases hnode
  | float x =>
      cases hnode
      exact .number _
  | string text =>
      cases hnode
      exact .string _

theorem distinctKeys_scalar {bare : Bool} {tag : Option TagText} {text : List Char}
    {style : ScalarStyle} {node : Node} (hnode : scalar bare tag text style = .ok node) :
    node.DistinctKeys := by
  unfold scalar at hnode
  split at hnode
  · exact distinctKeys_ofMeaning hnode
  · cases hnode

/-- The entries read so far, last first, as they will stand in the mapping. -/
structure DistinctSoFar (found : List (Node × Node)) : Prop where
  distinct : found.Pairwise fun entry earlier => earlier.1.same entry.1 = false
  keys : ∀ entry ∈ found, entry.1.DistinctKeys
  values : ∀ entry ∈ found, entry.2.DistinctKeys

theorem DistinctSoFar.nil : DistinctSoFar [] :=
  ⟨.nil, by simp, by simp⟩

theorem DistinctSoFar.cons {found : List (Node × Node)} (hfound : DistinctSoFar found)
    {key value : Node} (hnew : Node.lookup? key found = none) (hkey : key.DistinctKeys)
    (hvalue : value.DistinctKeys) : DistinctSoFar ((key, value) :: found) where
  distinct := List.pairwise_cons.mpr ⟨Node.lookup?_eq_none_iff.mp hnew, hfound.distinct⟩
  keys := List.forall_mem_cons.mpr ⟨hkey, hfound.keys⟩
  values := List.forall_mem_cons.mpr ⟨hvalue, hfound.values⟩

theorem DistinctSoFar.mapping {found : List (Node × Node)} (hfound : DistinctSoFar found) :
    (Node.mapping found.reverse).DistinctKeys :=
  .mapping (List.pairwise_reverse.mpr hfound.distinct)
    (fun entry hentry => hfound.keys entry (List.mem_reverse.mp hentry))
    (fun entry hentry => hfound.values entry (List.mem_reverse.mp hentry))

variable {doc : Document}

mutual

theorem distinctKeys_value {fuel depth : Nat} {path : Path} {bare : Bool} {rest : Rest}
    {node : Node} {after : Rest}
    (hvalue : value doc fuel depth path bare rest = .ok (node, after)) : node.DistinctKeys := by
  cases fuel with
  | zero => simp [value] at hvalue
  | succ fuel =>
      rw [value] at hvalue
      split at hvalue
      · cases hvalue
      split at hvalue
      · split at hvalue
        · cases hvalue
        · next htagged =>
            cases hvalue
            exact .tagged _ (distinctKeys_value htagged)
      split at hvalue
      · split at hvalue
        · cases hvalue
        split at hvalue
        · cases hvalue
        · next htarget =>
            cases hvalue
            exact distinctKeys_value htarget
      · split at hvalue
        · cases hvalue
        · next hscalar =>
            cases hvalue
            exact distinctKeys_scalar hscalar
      · split at hvalue
        · cases hvalue
        · exact distinctKeys_items (by simp) hvalue
      · split at hvalue
        · cases hvalue
        · exact distinctKeys_entries .nil hvalue
      · cases hvalue
        exact .null
      · cases hvalue
      · cases hvalue
termination_by fuel

theorem distinctKeys_items {fuel depth : Nat} {path : Path} {index : Nat} {found : List Node}
    {rest : Rest} {node : Node} {after : Rest} (hfound : ∀ item ∈ found, item.DistinctKeys)
    (hitems : items doc fuel depth path index found rest = .ok (node, after)) :
    node.DistinctKeys := by
  cases fuel with
  | zero => simp [items] at hitems
  | succ fuel =>
      rw [items] at hitems
      split at hitems
      · cases hitems
      · cases hitems
        exact .sequence fun item hitem => hfound item (List.mem_reverse.mp hitem)
      · split at hitems
        · cases hitems
        · next hitem =>
            exact distinctKeys_items
              (List.forall_mem_cons.mpr ⟨distinctKeys_value hitem, hfound⟩) hitems
termination_by fuel

theorem distinctKeys_entries {fuel depth : Nat} {path : Path} {start : Mark}
    {found : List (Node × Node)} {rest : Rest} {node : Node} {after : Rest}
    (hfound : DistinctSoFar found)
    (hentries : entries doc fuel depth path start found rest = .ok (node, after)) :
    node.DistinctKeys := by
  cases fuel with
  | zero => simp [entries] at hentries
  | succ fuel =>
      rw [entries] at hentries
      split at hentries
      · cases hentries
      · cases hentries
        exact hfound.mapping
      · split at hentries
        · cases hentries
        · next hkey =>
            split at hentries
            · cases hentries
            · next hnew =>
                split at hentries
                · cases hentries
                · next hvalue =>
                    exact distinctKeys_entries
                      (hfound.cons hnew (distinctKeys_value hkey) (distinctKeys_value hvalue))
                      hentries
termination_by fuel

end

end Compose

/-- The value of a document holds no two equal keys in one mapping. -/
theorem Document.distinctKeys_value {doc : Document} {node : Node}
    (hvalue : doc.value = .ok node) : node.DistinctKeys := by
  unfold Document.value at hvalue
  split at hvalue
  · cases hvalue
  · next hcomposed =>
      split at hvalue
      · cases hvalue
      · cases hvalue
        exact Compose.distinctKeys_value hcomposed

end Shipment.Yaml
