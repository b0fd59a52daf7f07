import Shipment.Proofs.Yaml.Merge

/-!
# What a key holds after merging

Resolving the merge keys of a value keeps every location that does not lead through one.  At
such a location, a key of a mapping holds what it held before, else what the first merged
mapping with that key holds for it, with the merge keys in that value resolved on its own.
-/

namespace Shipment.Yaml

namespace Merge

variable {entries : List (Node × Node)} {key : Node} {entry : Node × Node}

/-! ## Looking up a key -/

/-- A key is found in the first mapping that has it. -/
theorem lookup?_foldl_addEntries (acc : List (Node × Node)) (mappings : List (List (Node × Node)))
    (key : Node) :
    Node.lookup? key (mappings.foldl addEntries acc) =
      (Node.lookup? key acc).or (mappings.findSome? (Node.lookup? key)) := by
  induction mappings generalizing acc with
  | nil => simp
  | cons first rest ih =>
      rw [List.foldl_cons, ih, lookup?_addEntries, Option.or_assoc, List.findSome?_cons]
      cases Node.lookup? key first <;> rfl

/-- An entry is found by any key that equals its own. -/
theorem lookup?_eq_some_of_mem (hentries : (Node.mapping entries).DistinctKeys)
    (hentry : entry ∈ entries) (hsame : entry.1.same key = true) :
    Node.lookup? key entries = some entry := by
  cases hentries with
  | mapping hdistinct hkeys hvalues =>
      obtain ⟨front, back, rfl⟩ := List.append_of_mem hentry
      have hback : key.same entry.1 = true := (hkeys entry hentry).same_symm hsame
      have hfront : ∀ other ∈ front, other.1.same key = false := by
        intro other hother
        have hne := (List.pairwise_append.mp hdistinct).2.2 other hother entry List.mem_cons_self
        exact Bool.eq_false_iff.mpr fun hown =>
          Bool.eq_false_iff.mp hne (Node.same_trans _ hown hback)
      rw [Node.lookup?_append, Node.lookup?_eq_none_iff.mpr hfront]
      simp [Node.lookup?, hsame]

theorem eq_mergeKey_of_same (hsame : mergeKey.same key = true) : key = mergeKey :=
  same_mergeKey.mp ((Node.DistinctKeys.string _).same_symm hsame)

/-- Other keys are found as before when the merge key is taken out. -/
theorem lookup?_eq_of_mem_iff {rest : List (Node × Node)}
    (hentries : (Node.mapping entries).DistinctKeys)
    (hrest : ∀ entry, entry ∈ rest ↔ entry ∈ entries ∧ entry.1 ≠ mergeKey)
    (hkey : key ≠ mergeKey) : Node.lookup? key rest = Node.lookup? key entries := by
  cases hfound : Node.lookup? key rest with
  | some entry =>
      have hsame : entry.1.same key = true := by simpa using List.find?_some hfound
      have hentry := ((hrest entry).mp (List.mem_of_find?_eq_some hfound)).1
      exact (lookup?_eq_some_of_mem hentries hentry hsame).symm
  | none =>
      rw [Node.lookup?_eq_none_iff] at hfound
      refine (Node.lookup?_eq_none_iff.mpr fun entry hentry => ?_).symm
      by_cases hown : entry.1 = mergeKey
      · rw [hown]
        exact Bool.eq_false_iff.mpr fun hsame => hkey (eq_mergeKey_of_same hsame)
      · exact hfound entry ((hrest entry).mpr ⟨hentry, hown⟩)

/-- A mapping with its merge key resolved has its own keys, and the others of its sources. -/
theorem lookup?_mergeEntries {merged : List (Node × Node)}
    (hentries : (Node.mapping entries).DistinctKeys) (hmerged : mergeEntries entries = .ok merged)
    (hkey : key ≠ mergeKey) :
    Node.lookup? key merged =
      (Node.lookup? key entries).or ((sources entries).findSome? (Node.lookup? key)) := by
  have hdistinct : entries.Pairwise fun entry later => entry.1.same later.1 = false := by
    cases hentries with
    | mapping hdistinct _ _ => exact hdistinct
  obtain ⟨rest, rfl, hrest⟩ := mergeEntries_eq_ok hdistinct hmerged
  rw [lookup?_foldl_addEntries, lookup?_eq_of_mem_iff hentries hrest hkey]

/-- The merge key holds a mapping or a list of mappings. -/
def IsSource (value : Node) : Prop :=
  (∃ more, value = .mapping more) ∨
    ∃ items, value = .sequence items ∧ ∀ item ∈ items, ∃ more, item = .mapping more

theorem isMapping_of_addItems {acc merged : List (Node × Node)} {items : List Node}
    (hmerged : addItems acc items = .ok merged) :
    ∀ item ∈ items, ∃ more, item = .mapping more := by
  induction items generalizing acc with
  | nil => simp
  | cons item rest ih =>
      cases item with
      | mapping more => exact List.forall_mem_cons.mpr ⟨⟨more, rfl⟩, ih hmerged⟩
      | _ => cases hmerged

theorem isSource_of_mergeEntries {merged : List (Node × Node)}
    (hmerged : mergeEntries entries = .ok merged)
    (hentry : Node.lookup? mergeKey entries = some entry) : IsSource entry.2 := by
  unfold mergeEntries at hmerged
  cases hswap : swapRemove (fun entry => entry.1.same mergeKey) entries with
  | none =>
      have hnone := Node.lookup?_eq_none_iff.mpr (swapRemove_eq_none hswap)
      cases hnone.symm.trans hentry
  | some found =>
      obtain ⟨⟨own, value⟩, rest⟩ := found
      rw [hswap] at hmerged
      obtain rfl : (own, value) = entry :=
        Option.some.inj ((lookup?_of_swapRemove hswap).symm.trans hentry)
      cases value with
      | mapping more => exact Or.inl ⟨more, rfl⟩
      | sequence items => exact Or.inr ⟨items, rfl, isMapping_of_addItems hmerged⟩
      | _ => cases hmerged

/-! ## Values on their own -/

theorem mapFromLast_congr {α β ε : Type} {f g : α → Except ε β} {items : List α}
    (hsame : ∀ item ∈ items, f item = g item) : mapFromLast f items = mapFromLast g items := by
  induction items with
  | nil => rfl
  | cons item rest ih =>
      obtain ⟨hitem, hrest⟩ := List.forall_mem_cons.mp hsame
      rw [mapFromLast, mapFromLast, ih hrest, hitem]

/-- More levels than a value has make no difference. -/
theorem resolveFrom_eq_of_depth_le {fuel more : Nat} {node : Node} (hnode : node.DistinctKeys)
    (hfuel : node.depth ≤ fuel) (hmore : node.depth ≤ more) :
    resolveFrom fuel node = resolveFrom more node := by
  induction fuel generalizing more node with
  | zero => exact absurd node.depth_pos (by omega)
  | succ fuel ih =>
      cases more with
      | zero => exact absurd node.depth_pos (by omega)
      | succ more =>
          cases hnode with
          | sequence hitems =>
              have hsame : mapFromLast (resolveFrom fuel) _ = mapFromLast (resolveFrom more) _ :=
                mapFromLast_congr fun item hitem => by
                  have hlt := Node.depth_lt_of_mem_sequence hitem
                  exact ih (hitems item hitem) (by omega) (by omega)
              rw [resolveFrom, resolveFrom, hsame]
          | @tagged tag value hvalue =>
              have hlt := Node.depth_lt_tagged tag value
              have heq : resolveFrom fuel value = resolveFrom more value :=
                ih hvalue (by omega) (by omega)
              rw [resolveFrom, resolveFrom, heq]
          | mapping hdistinct hkeys hvalues =>
              have hentries := Node.DistinctKeys.mapping hdistinct hkeys hvalues
              simp only [resolveFrom]
              split
              · rfl
              · next merged hmerge =>
                  refine congrArg (Except.map Node.mapping) (mapFromLast_congr fun entry hentry => ?_)
                  have heffective := (mem_mergeEntries hentries hmerge).mp hentry
                  have hlt := heffective.depth_lt
                  have heq : resolveFrom fuel entry.2 = resolveFrom more entry.2 :=
                    ih (heffective.distinctKeys hentries) (by omega) (by omega)
                  rw [heq]
          | _ => rfl

theorem resolveFrom_eq_resolve {fuel : Nat} {node : Node} (hnode : node.DistinctKeys)
    (hfuel : node.depth ≤ fuel) : resolveFrom fuel node = resolve node :=
  resolveFrom_eq_of_depth_le hnode hfuel (Nat.le_refl _)

/-- A mapping holds under a key what an entry holds, with its merge keys resolved. -/
def Holds (results : List (Node × Node)) (key : Node) (entry : Node × Node) : Prop :=
  ∃ resolved, resolve entry.2 = .ok resolved ∧ Node.lookup? key results = some (entry.1, resolved)

/-- What the entries of a mapping become.  An own key keeps its value, any other key has the
value of the first source with that key, and there are no other keys but the merge key. -/
structure MergedInto (entries results : List (Node × Node)) : Prop where
  source : ∀ entry, Node.lookup? mergeKey entries = some entry → IsSource entry.2
  own : ∀ key entry, key ≠ mergeKey → Node.lookup? key entries = some entry →
    Holds results key entry
  merged : ∀ key entry before more after, key ≠ mergeKey → Node.lookup? key entries = none →
    sources entries = before ++ more :: after →
      (∀ earlier ∈ before, Node.lookup? key earlier = none) →
        Node.lookup? key more = some entry → Holds results key entry
  absent : ∀ key, key ≠ mergeKey → Node.lookup? key entries = none →
    (∀ more ∈ sources entries, Node.lookup? key more = none) → Node.lookup? key results = none

/-- Resolved entries are found under the same keys. -/
theorem lookup?_of_forall₂ {merged results : List (Node × Node)} {R : Node × Node → Node → Prop}
    (hpairs : List.Forall₂ (fun entry result => result.1 = entry.1 ∧ R entry result.2)
      merged results) (key : Node) :
    (Node.lookup? key merged = none → Node.lookup? key results = none) ∧
      ∀ entry, Node.lookup? key merged = some entry →
        ∃ resolved, R entry resolved ∧ Node.lookup? key results = some (entry.1, resolved) := by
  induction hpairs with
  | nil => simp [Node.lookup?]
  | @cons first result merged results hfirst hpairs ih =>
      obtain ⟨name, value⟩ := result
      obtain ⟨hkey, hvalue⟩ := hfirst
      obtain rfl : name = first.1 := hkey
      cases hsame : first.1.same key with
      | true =>
          have hown : Node.lookup? key (first :: merged) = some first := by
            simp [Node.lookup?, hsame]
          have hresult : Node.lookup? key ((first.1, value) :: results) = some (first.1, value) := by
            simp [Node.lookup?, hsame]
          rw [hown, hresult]
          refine ⟨by simp, fun entry hentry => ?_⟩
          obtain rfl := Option.some.inj hentry
          exact ⟨value, hvalue, rfl⟩
      | false =>
          have hown : Node.lookup? key (first :: merged) = Node.lookup? key merged := by
            simp [Node.lookup?, hsame]
          have hresult : Node.lookup? key ((first.1, value) :: results) =
              Node.lookup? key results := by
            simp [Node.lookup?, hsame]
          rw [hown, hresult]
          exact ih

/-- A mapping is merged first, and each value that it then has is resolved on its own. -/
theorem resolve_mapping_eq_ok {resolved : Node} (hentries : (Node.mapping entries).DistinctKeys)
    (hresolved : resolve (.mapping entries) = .ok resolved) :
    ∃ merged results, mergeEntries entries = .ok merged ∧ resolved = .mapping results ∧
      List.Forall₂ (fun entry result => result.1 = entry.1 ∧ resolve entry.2 = .ok result.2)
        merged results := by
  rw [resolve, Node.depth] at hresolved
  obtain ⟨merged, results, hmerge, hmapping, hpairs⟩ := resolveFrom_mapping_eq_ok hresolved
  have hvalues : ∀ entry ∈ merged,
      resolveFrom (Node.entriesDepth entries) entry.2 = resolve entry.2 := by
    intro entry hentry
    have heffective := (mem_mergeEntries hentries hmerge).mp hentry
    have hlt := heffective.depth_lt
    rw [Node.depth] at hlt
    exact resolveFrom_eq_resolve (heffective.distinctKeys hentries) (by omega)
  refine ⟨merged, results, hmerge, hmapping, ?_⟩
  apply ((List.forall₂_and_left merged results).mpr ⟨hvalues, hpairs⟩).imp
  rintro entry result ⟨hvalue, hkey, hresult⟩
  exact ⟨hkey, hvalue.symm.trans hresult⟩

theorem resolve_sequence_eq_ok {items : List Node} {resolved : Node}
    (hitems : (Node.sequence items).DistinctKeys)
    (hresolved : resolve (.sequence items) = .ok resolved) :
    ∃ results, resolved = .sequence results ∧
      List.Forall₂ (fun item result => resolve item = .ok result) items results := by
  cases hitems with
  | sequence hitems =>
      rw [resolve, Node.depth] at hresolved
      obtain ⟨results, hsequence, hpairs⟩ := resolveFrom_sequence_eq_ok hresolved
      have hvalues : ∀ item ∈ items,
          resolveFrom (Node.itemsDepth items) item = resolve item := by
        intro item hitem
        have hlt := Node.depth_lt_of_mem_sequence hitem
        rw [Node.depth] at hlt
        exact resolveFrom_eq_resolve (hitems item hitem) (by omega)
      refine ⟨results, hsequence, ?_⟩
      apply ((List.forall₂_and_left items results).mpr ⟨hvalues, hpairs⟩).imp
      rintro item result ⟨hvalue, hresult⟩
      exact hvalue.symm.trans hresult

/-- A resolved mapping has the keys of the mapping and those of its sources. -/
theorem mergedInto_of_resolve {results : List (Node × Node)}
    (hentries : (Node.mapping entries).DistinctKeys)
    (hresolved : resolve (.mapping entries) = .ok (.mapping results)) :
    MergedInto entries results := by
  obtain ⟨merged, own, hmerge, hmapping, hpairs⟩ := resolve_mapping_eq_ok hentries hresolved
  obtain rfl := Node.mapping.inj hmapping
  have hlookup := lookup?_of_forall₂ (R := fun entry result => resolve entry.2 = .ok result) hpairs
  constructor
  · intro entry hentry
    exact isSource_of_mergeEntries hmerge hentry
  · intro key entry hkey hentry
    apply (hlookup key).2
    rw [lookup?_mergeEntries hentries hmerge hkey, hentry]
    rfl
  · intro key entry before more after hkey hown hsources hearlier hentry
    apply (hlookup key).2
    have hbefore : before.findSome? (Node.lookup? key) = none :=
      List.findSome?_eq_none_iff.mpr hearlier
    rw [lookup?_mergeEntries hentries hmerge hkey, hown, hsources, List.findSome?_append, hbefore,
      List.findSome?_cons, hentry]
    rfl
  · intro key hkey hown hsources
    apply (hlookup key).1
    rw [lookup?_mergeEntries hentries hmerge hkey, hown, List.findSome?_eq_none_iff.mpr hsources]
    rfl

end Merge

/-! ## Locations -/

namespace Node

/-- The steps lead from a value to another one, through no merge key. -/
inductive Leads : Node → List Step → Node → Prop
  | here (node : Node) : Leads node [] node
  | key {entries : List (Node × Node)} {key : Node} {entry : Node × Node} {rest : List Step}
      {target : Node} (hkey : key ≠ Merge.mergeKey) (hentry : lookup? key entries = some entry)
      (hrest : Leads entry.2 rest target) : Leads (.mapping entries) (.key key :: rest) target
  | item {items : List Node} {index : Nat} {item : Node} {rest : List Step} {target : Node}
      (hitem : items[index]? = some item) (hrest : Leads item rest target) :
      Leads (.sequence items) (.item index :: rest) target
  | tag {tag : String} {value : Node} {rest : List Step} {target : Node}
      (hrest : Leads value rest target) : Leads (.tagged tag value) (.tag :: rest) target

end Node

namespace Merge

/-- A location that does not lead through a merge key leads in the resolved value to what is
there, resolved on its own. -/
theorem exists_leads_resolved {node resolved target : Node} {location : List Node.Step}
    (hnode : node.DistinctKeys) (hresolved : resolve node = .ok resolved)
    (htarget : node.Leads location target) :
    target.DistinctKeys ∧ ∃ result, resolve target = .ok result ∧ resolved.Leads location result := by
  induction htarget generalizing resolved with
  | here node => exact ⟨hnode, resolved, hresolved, .here resolved⟩
  | key hkey hentry hrest ih =>
      obtain ⟨merged, results, -, rfl, -⟩ := resolve_mapping_eq_ok hnode hresolved
      obtain ⟨value, hvalue, hfound⟩ := (mergedInto_of_resolve hnode hresolved).own _ _ hkey hentry
      have hmember := List.mem_of_find?_eq_some hentry
      cases hnode with
      | mapping hdistinct hkeys hvalues =>
          obtain ⟨hown, result, hresult, hleads⟩ := ih (hvalues _ hmember) hvalue
          exact ⟨hown, result, hresult, .key hkey hfound hleads⟩
  | item hitem hrest ih =>
      obtain ⟨results, rfl, hpairs⟩ := resolve_sequence_eq_ok hnode hresolved
      obtain ⟨value, hvalue, hsame⟩ := exists_getElem?_right hpairs hitem
      cases hnode with
      | sequence hitems =>
          obtain ⟨hown, result, hresult, hleads⟩ := ih (hitems _ (List.mem_of_getElem? hitem)) hsame
          exact ⟨hown, result, hresult, .item hvalue hleads⟩
  | tag hrest ih =>
      cases hnode with
      | tagged _ hvalue =>
          obtain ⟨value, hsame, rfl⟩ := map_eq_ok.mp hresolved
          obtain ⟨hown, result, hresult, hleads⟩ := ih hvalue hsame
          exact ⟨hown, result, hresult, .tag hleads⟩

/-- At each location outside merge keys, a mapping becomes what its own keys and those of its
sources make of it. -/
theorem exists_mergedInto {node resolved : Node} {location : List Node.Step}
    {entries : List (Node × Node)} (hnode : node.DistinctKeys)
    (hresolved : resolve node = .ok resolved) (hmapping : node.Leads location (.mapping entries)) :
    ∃ results, resolved.Leads location (.mapping results) ∧ MergedInto entries results := by
  obtain ⟨hentries, result, hresult, hleads⟩ := exists_leads_resolved hnode hresolved hmapping
  obtain ⟨merged, results, -, rfl, -⟩ := resolve_mapping_eq_ok hentries hresult
  exact ⟨results, hleads, mergedInto_of_resolve hentries hresult⟩

end Merge

end Shipment.Yaml
