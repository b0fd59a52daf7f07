import Mathlib.Data.List.TakeDrop
import Mathlib.Data.List.TakeWhile
import Shipment.Proofs.Basic
import Shipment.Proofs.Yaml.Node
import Shipment.Yaml.Merge

/-!
# What merge keys leave behind

Resolving the merge key of a mapping leaves the entries of its own and, of each
mapping it merges, those whose key neither the mapping nor an earlier one has.
Each mapping is resolved once.  So a resolved value still has a merge key
exactly where a merged mapping brought one in.
-/

namespace Shipment.Yaml

namespace Merge

theorem same_mergeKey {key : Node} : key.same mergeKey = true ↔ key = mergeKey := by
  cases key <;> simp [mergeKey, Node.same]

/-! ## Taking the merge key out -/

section SwapRemove

variable {α : Type} {p : α → Bool} {entries : List α}

theorem swapRemove_eq_none (hnone : swapRemove p entries = none) :
    ∀ entry ∈ entries, p entry = false := by
  unfold swapRemove at hnone
  rw [List.span_eq_takeWhile_dropWhile] at hnone
  split at hnone
  · next hspan =>
      have hdrop : entries.dropWhile (!p ·) = [] := congrArg Prod.snd hspan
      simpa using List.dropWhile_eq_nil_iff.mp hdrop
  · split at hnone <;> cases hnone

/-- What is taken out is the first entry with the property; the others stay. -/
theorem swapRemove_eq_some {found : α} {rest : List α}
    (hsome : swapRemove p entries = some (found, rest)) :
    ∃ before after, entries = before ++ found :: after ∧ (∀ entry ∈ before, p entry = false) ∧
      p found = true ∧ rest.Perm (before ++ after) := by
  unfold swapRemove at hsome
  rw [List.span_eq_takeWhile_dropWhile] at hsome
  split at hsome
  · cases hsome
  · next before entry after hspan =>
      obtain ⟨hbefore, hdrop⟩ := Prod.mk.inj hspan
      have hentries : entries = before ++ entry :: after := by
        rw [← hbefore, ← hdrop, List.takeWhile_append_dropWhile]
      have hfalse : ∀ other ∈ before, p other = false := by
        intro other hother
        rw [← hbefore] at hother
        simpa using List.mem_takeWhile_imp hother
      have htrue : p entry = true := by
        have hhead := List.head?_dropWhile_not (!p ·) entries
        rw [hdrop] at hhead
        simpa using hhead
      split at hsome
      · next hlast =>
          cases hsome
          obtain rfl := List.getLast?_eq_none_iff.mp hlast
          exact ⟨_, [], hentries, hfalse, htrue, by simp⟩
      · next last hlast =>
          cases hsome
          have hmoved := (List.perm_append_singleton last after.dropLast).symm
          rw [List.dropLast_append_getLast? last hlast] at hmoved
          exact ⟨before, after, hentries, hfalse, htrue, hmoved.append_left before⟩

end SwapRemove

/-! ## Adding entries -/

variable {entries acc more : List (Node × Node)} {key : Node} {entry : Node × Node}

theorem lookup?_addEntry (acc : List (Node × Node)) (entry : Node × Node) (key : Node) :
    Node.lookup? key (addEntry acc entry) =
      (Node.lookup? key acc).or (Node.lookup? key [entry]) := by
  rw [addEntry]
  split
  · next hthere =>
      obtain ⟨other, hother, hsame⟩ := Node.lookup?_isSome_iff.mp hthere
      cases hkey : entry.1.same key with
      | false => simp [Node.lookup?, hkey]
      | true =>
          -- a key equal to the entry's is equal to the one that is there
          have hfound : (Node.lookup? key acc).isSome = true :=
            Node.lookup?_isSome_iff.mpr ⟨other, hother, Node.same_trans _ hsame hkey⟩
          exact (Option.or_of_isSome hfound).symm
  · exact Node.lookup?_append acc [entry] key

/-- A key is found among the entries that were there, else among the added ones. -/
theorem lookup?_addEntries (acc more : List (Node × Node)) (key : Node) :
    Node.lookup? key (addEntries acc more) = (Node.lookup? key acc).or (Node.lookup? key more) := by
  induction more generalizing acc with
  | nil => simp [addEntries, Node.lookup?]
  | cons entry rest ih =>
      have hrest := ih (addEntry acc entry)
      rw [addEntries, List.foldl_cons, ← addEntries, hrest, lookup?_addEntry, Option.or_assoc,
        ← Node.lookup?_append, List.singleton_append]

theorem mem_addEntry {other : Node × Node} :
    other ∈ addEntry acc entry ↔ other ∈ acc ∨ other = entry ∧ Node.lookup? entry.1 acc = none := by
  rw [addEntry]
  cases Node.lookup? entry.1 acc <;> simp

theorem mem_addEntries
    (hmore : more.Pairwise fun entry later => entry.1.same later.1 = false) :
    entry ∈ addEntries acc more ↔
      entry ∈ acc ∨ entry ∈ more ∧ Node.lookup? entry.1 acc = none := by
  induction more generalizing acc with
  | nil => simp [addEntries]
  | cons first rest ih =>
      obtain ⟨hfirst, hrest⟩ := List.pairwise_cons.mp hmore
      rw [addEntries, List.foldl_cons, ← addEntries, ih hrest, mem_addEntry, List.mem_cons]
      have hlookup : entry ∈ rest →
          (Node.lookup? entry.1 (addEntry acc first) = none ↔ Node.lookup? entry.1 acc = none) := by
        intro hentry
        rw [lookup?_addEntry]
        simp [Node.lookup?, hfirst entry hentry]
      constructor
      · rintro ((hacc | ⟨rfl, hnone⟩) | ⟨hentry, hnone⟩)
        · exact Or.inl hacc
        · exact Or.inr ⟨Or.inl rfl, hnone⟩
        · exact Or.inr ⟨Or.inr hentry, (hlookup hentry).mp hnone⟩
      · rintro (hacc | ⟨rfl | hentry, hnone⟩)
        · exact Or.inl (Or.inl hacc)
        · exact Or.inl (Or.inr ⟨rfl, hnone⟩)
        · exact Or.inr ⟨hentry, (hlookup hentry).mpr hnone⟩

/-- An entry of some mappings is added if no earlier one has its key. -/
theorem mem_foldl_addEntries {mappings : List (List (Node × Node))}
    (hmappings : ∀ more ∈ mappings,
      more.Pairwise fun entry later => entry.1.same later.1 = false) :
    entry ∈ mappings.foldl addEntries acc ↔
      entry ∈ acc ∨ Node.lookup? entry.1 acc = none ∧
        ∃ before more after, mappings = before ++ more :: after ∧
          (∀ earlier ∈ before, Node.lookup? entry.1 earlier = none) ∧ entry ∈ more := by
  induction mappings generalizing acc with
  | nil => simp
  | cons first rest ih =>
      obtain ⟨hfirst, hrest⟩ := List.forall_mem_cons.mp hmappings
      rw [List.foldl_cons, ih hrest, mem_addEntries hfirst, lookup?_addEntries,
        Option.or_eq_none_iff, exists_behind_cons_iff, or_assoc, and_or_left, and_assoc,
        and_comm (a := entry ∈ first)]

/-! ## The entries of a mapping after its merge -/

def mappingEntries? : Node → Option (List (Node × Node))
  | .mapping entries => some entries
  | _ => none

/-- The mappings that the merge key of a mapping holds, in their order. -/
def sources (entries : List (Node × Node)) : List (List (Node × Node)) :=
  match Node.lookup? mergeKey entries with
  | some (_, .sequence items) => items.filterMap mappingEntries?
  | some (_, value) => (mappingEntries? value).toList
  | none => []

/-- The entries that a mapping is to have: its own, and from each source those
whose key neither the mapping nor an earlier source has. -/
inductive Effective (entries : List (Node × Node)) (entry : Node × Node) : Prop
  | own (hentry : entry ∈ entries) (hkey : entry.1 ≠ mergeKey)
  | merged {before after : List (List (Node × Node))} {more : List (Node × Node)}
      (hsources : sources entries = before ++ more :: after) (hentry : entry ∈ more)
      (hown : ∀ own ∈ entries, own.1 ≠ mergeKey → own.1.same entry.1 = false)
      (hearlier : ∀ earlier ∈ before, Node.lookup? entry.1 earlier = none)

theorem mem_sources (hmore : more ∈ sources entries) :
    ∃ entry ∈ entries, entry.1 = mergeKey ∧
      (entry.2 = .mapping more ∨ ∃ items, entry.2 = .sequence items ∧ .mapping more ∈ items) := by
  have hmapping : ∀ {node}, mappingEntries? node = some more → node = .mapping more := by
    intro node hnode
    cases node <;> simp [mappingEntries?] at hnode
    rw [hnode]
  unfold sources at hmore
  split at hmore
  · next key items hfound =>
      obtain ⟨item, hitem, hvalue⟩ := List.mem_filterMap.mp hmore
      refine ⟨_, List.mem_of_find?_eq_some hfound, ?_, Or.inr ⟨items, rfl, ?_⟩⟩
      · exact same_mergeKey.mp (by simpa using List.find?_some hfound)
      · rwa [← hmapping hvalue]
  · next key value hfound =>
      refine ⟨_, List.mem_of_find?_eq_some hfound, ?_, Or.inl ?_⟩
      · exact same_mergeKey.mp (by simpa using List.find?_some hfound)
      · exact hmapping (Option.mem_toList.mp hmore)
  · cases hmore

theorem distinctKeys_of_mem_sources (hentries : (Node.mapping entries).DistinctKeys)
    (hmore : more ∈ sources entries) : (Node.mapping more).DistinctKeys := by
  cases hentries with
  | mapping hdistinct hkeys hvalues =>
      obtain ⟨entry, hentry, -, hvalue | ⟨items, hvalue, hitem⟩⟩ := mem_sources hmore
      · rw [← hvalue]
        exact hvalues entry hentry
      · have hitems := hvalues entry hentry
        rw [hvalue] at hitems
        cases hitems with
        | sequence hitems => exact hitems _ hitem

theorem depth_lt_of_mem_sources (hmore : more ∈ sources entries) :
    (Node.mapping more).depth < (Node.mapping entries).depth := by
  obtain ⟨entry, hentry, -, hvalue | ⟨items, hvalue, hitem⟩⟩ := mem_sources hmore
  · rw [← hvalue]
    exact Node.depth_lt_of_mem_mapping hentry
  · calc
      (Node.mapping more).depth < entry.2.depth := by
        rw [hvalue]
        exact Node.depth_lt_of_mem_sequence hitem
      _ < (Node.mapping entries).depth := Node.depth_lt_of_mem_mapping hentry

theorem addItems_eq_ok {items : List Node} {merged : List (Node × Node)}
    (hmerged : addItems acc items = .ok merged) :
    merged = (items.filterMap mappingEntries?).foldl addEntries acc := by
  induction items generalizing acc with
  | nil =>
      cases hmerged
      rfl
  | cons item rest ih =>
      cases item with
      | mapping more => exact ih hmerged
      | null => cases hmerged
      | bool b => cases hmerged
      | number n => cases hmerged
      | string s => cases hmerged
      | sequence items => cases hmerged
      | tagged tag value => cases hmerged

/-- What is taken out is the entry of the merge key. -/
theorem lookup?_of_swapRemove {taken : Node × Node} {rest : List (Node × Node)}
    (hswap : swapRemove (fun entry => entry.1.same mergeKey) entries = some (taken, rest)) :
    Node.lookup? mergeKey entries = some taken := by
  obtain ⟨before, after, rfl, hbefore, hkey, -⟩ := swapRemove_eq_some hswap
  rw [Node.lookup?_append, Node.lookup?_eq_none_iff.mpr hbefore]
  simp [Node.lookup?, hkey]

/-- What stays are the entries with other keys: the merge key is not met twice. -/
theorem mem_of_swapRemove {taken : Node × Node} {rest : List (Node × Node)}
    (hdistinct : entries.Pairwise fun entry later => entry.1.same later.1 = false)
    (hswap : swapRemove (fun entry => entry.1.same mergeKey) entries = some (taken, rest)) :
    entry ∈ rest ↔ entry ∈ entries ∧ entry.1 ≠ mergeKey := by
  obtain ⟨before, after, rfl, hbefore, hkey, hperm⟩ := swapRemove_eq_some hswap
  have htaken : taken.1 = mergeKey := same_mergeKey.mp hkey
  have hafter := (List.pairwise_cons.mp (List.pairwise_append.mp hdistinct).2.1).1
  have hother : ∀ other ∈ before ++ after, other.1 ≠ mergeKey := by
    intro other hother heq
    rcases List.mem_append.mp hother with hmem | hmem
    · simpa [same_mergeKey.mpr heq] using hbefore other hmem
    · simpa [htaken, heq, same_mergeKey.mpr] using hafter other hmem
  rw [hperm.mem_iff]
  constructor
  · intro hentry
    refine ⟨?_, hother entry hentry⟩
    rcases List.mem_append.mp hentry with hmem | hmem
    · exact List.mem_append_left _ hmem
    · exact List.mem_append_right _ (List.mem_cons_of_mem _ hmem)
  · rintro ⟨hentry, hne⟩
    rcases List.mem_append.mp hentry with hmem | hmem
    · exact List.mem_append_left _ hmem
    · rcases List.mem_cons.mp hmem with rfl | hmem
      · exact absurd htaken hne
      · exact List.mem_append_right _ hmem

/-- A merge adds the sources in their order to the entries without the merge key. -/
theorem mergeEntries_eq_ok {merged : List (Node × Node)}
    (hdistinct : entries.Pairwise fun entry later => entry.1.same later.1 = false)
    (hmerged : mergeEntries entries = .ok merged) :
    ∃ rest, merged = (sources entries).foldl addEntries rest ∧
      ∀ entry, entry ∈ rest ↔ entry ∈ entries ∧ entry.1 ≠ mergeKey := by
  unfold mergeEntries at hmerged
  cases hswap : swapRemove (fun entry => entry.1.same mergeKey) entries with
  | none =>
      rw [hswap] at hmerged
      cases hmerged
      have hfree := swapRemove_eq_none hswap
      refine ⟨entries, ?_, fun entry => ⟨fun hentry => ⟨hentry, fun hkey => ?_⟩, And.left⟩⟩
      · rw [sources, Node.lookup?_eq_none_iff.mpr hfree]
        rfl
      · have hdiffers := hfree entry hentry
        simp [same_mergeKey.mpr hkey] at hdiffers
  | some found =>
      obtain ⟨⟨key, value⟩, rest⟩ := found
      refine ⟨rest, ?_, fun entry => mem_of_swapRemove hdistinct hswap⟩
      rw [hswap] at hmerged
      rw [sources, lookup?_of_swapRemove hswap]
      cases value with
      | mapping more =>
          cases hmerged
          rfl
      | sequence items => exact addItems_eq_ok hmerged
      | _ => cases hmerged

theorem mem_mergeEntries {merged : List (Node × Node)}
    (hentries : (Node.mapping entries).DistinctKeys) (hmerged : mergeEntries entries = .ok merged) :
    entry ∈ merged ↔ Effective entries entry := by
  cases hentries with
  | mapping hdistinct hkeys hvalues =>
      obtain ⟨rest, rfl, hrest⟩ := mergeEntries_eq_ok hdistinct hmerged
      have hsources : ∀ more ∈ sources entries,
          more.Pairwise fun entry later => entry.1.same later.1 = false := by
        intro more hmore
        cases distinctKeys_of_mem_sources (.mapping hdistinct hkeys hvalues) hmore with
        | mapping hmore => exact hmore
      have hown : Node.lookup? entry.1 rest = none ↔
          ∀ own ∈ entries, own.1 ≠ mergeKey → own.1.same entry.1 = false := by
        simp only [Node.lookup?_eq_none_iff, hrest, and_imp]
      rw [mem_foldl_addEntries hsources, hrest, hown]
      constructor
      · rintro (⟨hentry, hkey⟩ | ⟨hfree, before, more, after, hsplit, hearlier, hentry⟩)
        · exact .own hentry hkey
        · exact .merged hsplit hentry hfree hearlier
      · rintro (⟨hentry, hkey⟩ | ⟨hsplit, hentry, hfree, hearlier⟩)
        · exact Or.inl ⟨hentry, hkey⟩
        · exact Or.inr ⟨hfree, _, _, _, hsplit, hearlier, hentry⟩

private theorem mem_of_split {mappings before after : List (List (Node × Node))}
    (hsplit : mappings = before ++ more :: after) : more ∈ mappings := by
  rw [hsplit]
  exact List.mem_append_right _ List.mem_cons_self

theorem Effective.distinctKeys (heffective : Effective entries entry)
    (hentries : (Node.mapping entries).DistinctKeys) : entry.2.DistinctKeys := by
  cases heffective with
  | own hentry _ =>
      cases hentries with
      | mapping _ _ hvalues => exact hvalues entry hentry
  | merged hsources hentry _ _ =>
      cases distinctKeys_of_mem_sources hentries (mem_of_split hsources) with
      | mapping _ _ hvalues => exact hvalues entry hentry

theorem Effective.depth_lt (heffective : Effective entries entry) :
    entry.2.depth < (Node.mapping entries).depth := by
  cases heffective with
  | own hentry _ => exact Node.depth_lt_of_mem_mapping hentry
  | merged hsources hentry _ _ =>
      exact (Node.depth_lt_of_mem_mapping hentry).trans
        (depth_lt_of_mem_sources (mem_of_split hsources))

/-! ## Resolving a whole value -/

theorem mapFromLast_eq_ok {α β ε : Type} {f : α → Except ε β} {items : List α}
    {results : List β} (hresults : mapFromLast f items = .ok results) :
    List.Forall₂ (fun item result => f item = .ok result) items results := by
  induction items generalizing results with
  | nil =>
      cases hresults
      exact .nil
  | cons item rest ih =>
      rw [mapFromLast] at hresults
      split at hresults
      · cases hresults
      · next hrest =>
          split at hresults
          · cases hresults
          · next hitem =>
              cases hresults
              exact .cons hitem (ih hrest)

theorem resolveFrom_sequence_eq_ok {fuel : Nat} {items : List Node} {resolved : Node}
    (hresolved : resolveFrom (fuel + 1) (.sequence items) = .ok resolved) :
    ∃ results, resolved = .sequence results ∧
      List.Forall₂ (fun item result => resolveFrom fuel item = .ok result) items results := by
  obtain ⟨results, hresults, rfl⟩ := map_eq_ok.mp hresolved
  exact ⟨results, rfl, mapFromLast_eq_ok hresults⟩

/-- A mapping is merged first, and the values that it then has are resolved. -/
theorem resolveFrom_mapping_eq_ok {fuel : Nat} {resolved : Node}
    (hresolved : resolveFrom (fuel + 1) (.mapping entries) = .ok resolved) :
    ∃ merged results, mergeEntries entries = .ok merged ∧ resolved = .mapping results ∧
      List.Forall₂ (fun entry result => result.1 = entry.1 ∧
        resolveFrom fuel entry.2 = .ok result.2) merged results := by
  simp only [resolveFrom] at hresolved
  split at hresolved
  · cases hresolved
  · next merged hmerge =>
      obtain ⟨results, hresults, rfl⟩ := map_eq_ok.mp hresolved
      refine ⟨merged, results, hmerge, rfl, (mapFromLast_eq_ok hresults).imp ?_⟩
      intro entry result hresult
      obtain ⟨value, hvalue, rfl⟩ := map_eq_ok.mp hresult
      exact ⟨rfl, hvalue⟩

end Merge

/-- A mapping in a value, not in one of its keys, has the merge key. -/
inductive Node.HoldsMergeKey : Node → Prop
  | here {entries : List (Node × Node)} {entry : Node × Node} (hentry : entry ∈ entries)
      (hkey : entry.1 = Merge.mergeKey) : HoldsMergeKey (mapping entries)
  | value {entries : List (Node × Node)} {entry : Node × Node} (hentry : entry ∈ entries)
      (hvalue : HoldsMergeKey entry.2) : HoldsMergeKey (mapping entries)
  | item {items : List Node} {item : Node} (hitem : item ∈ items) (hvalue : HoldsMergeKey item) :
      HoldsMergeKey (sequence items)
  | tagged {tag : String} {value : Node} (hvalue : HoldsMergeKey value) :
      HoldsMergeKey (tagged tag value)

namespace Node

variable {entries : List (Node × Node)} {items : List Node} {tag : String} {value : Node}

theorem holdsMergeKey_mapping :
    (mapping entries).HoldsMergeKey ↔
      (∃ entry ∈ entries, entry.1 = Merge.mergeKey) ∨ ∃ entry ∈ entries, entry.2.HoldsMergeKey := by
  constructor
  · rintro (⟨hentry, hkey⟩ | ⟨hentry, hvalue⟩)
    · exact Or.inl ⟨_, hentry, hkey⟩
    · exact Or.inr ⟨_, hentry, hvalue⟩
  · rintro (⟨_, hentry, hkey⟩ | ⟨_, hentry, hvalue⟩)
    · exact .here hentry hkey
    · exact .value hentry hvalue

theorem holdsMergeKey_sequence :
    (sequence items).HoldsMergeKey ↔ ∃ item ∈ items, item.HoldsMergeKey := by
  constructor
  · rintro (_ | _ | ⟨hitem, hvalue⟩)
    exact ⟨_, hitem, hvalue⟩
  · rintro ⟨_, hitem, hvalue⟩
    exact .item hitem hvalue

theorem holdsMergeKey_tagged : (tagged tag value).HoldsMergeKey ↔ value.HoldsMergeKey := by
  constructor
  · rintro (_ | _ | _ | hvalue)
    exact hvalue
  · exact .tagged

end Node

namespace Merge

/-- Somewhere in a value a mapping merges one that has a merge key itself.  The
values that count are those left when every mapping has its effective entries. -/
inductive Chained : Node → Prop
  | here {entries more : List (Node × Node)} {entry : Node × Node}
      (hmore : more ∈ sources entries) (hentry : entry ∈ more) (hkey : entry.1 = mergeKey) :
      Chained (.mapping entries)
  | value {entries : List (Node × Node)} {entry : Node × Node}
      (hentry : Effective entries entry) (hvalue : Chained entry.2) : Chained (.mapping entries)
  | item {items : List Node} {item : Node} (hitem : item ∈ items) (hvalue : Chained item) :
      Chained (.sequence items)
  | tagged {tag : String} {value : Node} (hvalue : Chained value) : Chained (.tagged tag value)

/-- The merge key is an effective key exactly if a source has it. -/
theorem exists_effective_mergeKey :
    (∃ entry, Effective entries entry ∧ entry.1 = mergeKey) ↔
      ∃ more ∈ sources entries, ∃ entry ∈ more, entry.1 = mergeKey := by
  constructor
  · rintro ⟨entry, ⟨-, hne⟩ | ⟨hsources, hentry, -, -⟩, hkey⟩
    · exact absurd hkey hne
    · exact ⟨_, mem_of_split hsources, entry, hentry, hkey⟩
  · rintro ⟨more, hmore, entry, hentry, hkey⟩
    -- the first source with the key is the one it is taken from
    let hasKey : List (Node × Node) → Bool := fun source => (Node.lookup? mergeKey source).isSome
    have hfound : ((sources entries).find? hasKey).isSome = true := by
      rw [List.find?_isSome]
      exact ⟨more, hmore, Node.lookup?_isSome_iff.mpr ⟨entry, hentry, same_mergeKey.mpr hkey⟩⟩
    obtain ⟨first, hfirst⟩ := Option.isSome_iff_exists.mp hfound
    obtain ⟨hhas, before, after, hsplit, hbefore⟩ := List.find?_eq_some_iff_append.mp hfirst
    obtain ⟨own, hown, hsame⟩ := Node.lookup?_isSome_iff.mp hhas
    obtain heq := same_mergeKey.mp hsame
    refine ⟨own, .merged hsplit hown ?_ ?_, heq⟩
    · intro other _ hne
      rw [heq]
      exact Bool.eq_false_iff.mpr fun h => hne (same_mergeKey.mp h)
    · intro earlier hearlier
      rw [heq]
      simpa [hasKey] using hbefore earlier hearlier

theorem chained_mapping :
    Chained (.mapping entries) ↔
      (∃ entry, Effective entries entry ∧ entry.1 = mergeKey) ∨
        ∃ entry, Effective entries entry ∧ Chained entry.2 := by
  rw [exists_effective_mergeKey]
  constructor
  · rintro (⟨hmore, hentry, hkey⟩ | ⟨hentry, hvalue⟩)
    · exact Or.inl ⟨_, hmore, _, hentry, hkey⟩
    · exact Or.inr ⟨_, hentry, hvalue⟩
  · rintro (⟨_, hmore, _, hentry, hkey⟩ | ⟨_, hentry, hvalue⟩)
    · exact .here hmore hentry hkey
    · exact .value hentry hvalue

theorem chained_sequence {items : List Node} :
    Chained (.sequence items) ↔ ∃ item ∈ items, Chained item := by
  constructor
  · rintro (_ | _ | ⟨hitem, hvalue⟩)
    exact ⟨_, hitem, hvalue⟩
  · rintro ⟨_, hitem, hvalue⟩
    exact .item hitem hvalue

theorem chained_tagged {tag : String} {value : Node} :
    Chained (.tagged tag value) ↔ Chained value := by
  constructor
  · rintro (_ | _ | _ | hvalue)
    exact hvalue
  · exact .tagged

theorem holdsMergeKey_resolveFrom {fuel : Nat} {node resolved : Node}
    (hdepth : node.depth ≤ fuel) (hnode : node.DistinctKeys)
    (hresolved : resolveFrom fuel node = .ok resolved) :
    resolved.HoldsMergeKey ↔ Chained node := by
  induction fuel generalizing node resolved with
  | zero => exact absurd node.depth_pos (by omega)
  | succ fuel ih =>
      cases hnode with
      | null =>
          cases hresolved
          constructor <;> rintro ⟨⟩
      | bool b =>
          cases hresolved
          constructor <;> rintro ⟨⟩
      | number n =>
          cases hresolved
          constructor <;> rintro ⟨⟩
      | string s =>
          cases hresolved
          constructor <;> rintro ⟨⟩
      | sequence hitems =>
          obtain ⟨results, rfl, hpairs⟩ := resolveFrom_sequence_eq_ok hresolved
          rw [Node.holdsMergeKey_sequence, chained_sequence]
          refine exists_mem_iff hpairs fun item hitem result hresult => ?_
          have hlt := Node.depth_lt_of_mem_sequence hitem
          exact ih (by omega) (hitems item hitem) hresult
      | @tagged tag value hvalue =>
          obtain ⟨result, hresult, rfl⟩ := map_eq_ok.mp hresolved
          rw [Node.holdsMergeKey_tagged, chained_tagged]
          have hlt := Node.depth_lt_tagged tag value
          exact ih (by omega) hvalue hresult
      | mapping hdistinct hkeys hvalues =>
          have hentries := Node.DistinctKeys.mapping hdistinct hkeys hvalues
          obtain ⟨merged, results, hmerge, rfl, hpairs⟩ := resolveFrom_mapping_eq_ok hresolved
          rw [Node.holdsMergeKey_mapping, chained_mapping]
          simp only [← mem_mergeEntries hentries hmerge]
          refine or_congr ?_ ?_
          · refine exists_mem_iff hpairs fun entry _ result hresult => ?_
            rw [hresult.1]
          · refine exists_mem_iff hpairs fun entry hentry result hresult => ?_
            have heffective := (mem_mergeEntries hentries hmerge).mp hentry
            have hlt := heffective.depth_lt
            exact ih (by omega) (heffective.distinctKeys hentries) hresult.2

/-- A resolved value holds a merge key exactly where a merged mapping has one. -/
theorem holdsMergeKey_resolve {node resolved : Node} (hnode : node.DistinctKeys)
    (hresolved : resolve node = .ok resolved) : resolved.HoldsMergeKey ↔ Chained node :=
  holdsMergeKey_resolveFrom (Nat.le_refl _) hnode hresolved

end Merge

end Shipment.Yaml
