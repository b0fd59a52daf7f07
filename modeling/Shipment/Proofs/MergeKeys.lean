import Shipment.Proofs.Loading
import Shipment.Proofs.Yaml.Compose
import Shipment.Proofs.Yaml.MergedKeys

/-!
# Merge keys of loaded documents

Merge keys are resolved once in each document.  A loaded document is free of
them unless a mapping in it merges one that has a merge key of its own, as when
an anchored mapping with a merge key is merged somewhere else.  Every other key
of a mapping holds its own value, else that of the first mapping merged.
-/

namespace Shipment.SourceDocument

open Yaml (Node)

theorem valueOf_eq_ok {document : Yaml.Document} {resolved : Node} :
    valueOf document = .ok resolved ↔
      ∃ value, document.value = .ok value ∧ Yaml.Merge.resolve value = .ok resolved := by
  unfold valueOf
  cases document.value with
  | error fault => simp
  | ok value =>
      cases hresolve : Yaml.Merge.resolve value <;> simp [hresolve]

/-- A value as it is composed from a document of a text, before its merge keys
are resolved. -/
def Composed (source : String) (value : Node) : Prop :=
  isVoid source = false ∧
    ∃ document ∈ Yaml.documents source.toList, document.value = .ok value

/-- The documents of a text have no merge key left exactly if none of them, as
composed, merges a mapping that has a merge key itself. -/
theorem free_of_mergeKey_iff {path source : String} {documents : List SourceDocument}
    (hload : ofSource path source = .ok documents) :
    (∀ document ∈ documents, ¬document.value.HoldsMergeKey) ↔
      ∀ value, Composed source value → ¬Yaml.Merge.Chained value := by
  rw [ofSource] at hload
  split at hload
  · next hvoid =>
      cases hload
      simp [Composed, hvoid]
  · next hvoid =>
      have hiff := exists_mem_iff (forall₂_numbered hload)
        (P := fun document => ∃ value, document.value = .ok value ∧ Yaml.Merge.Chained value)
        (Q := fun loaded => loaded.value.HoldsMergeKey) <| by
          rintro document - loaded ⟨-, hvalue⟩
          obtain ⟨value, hcomposed, hresolve⟩ := valueOf_eq_ok.mp hvalue
          have hdistinct := Yaml.Document.distinctKeys_value hcomposed
          rw [Yaml.Merge.holdsMergeKey_resolve hdistinct hresolve]
          simp [hcomposed]
      constructor
      · rintro hfree value ⟨-, document, hdocument, hvalue⟩ hchained
        obtain ⟨loaded, hloaded, hholds⟩ := hiff.mpr ⟨document, hdocument, value, hvalue, hchained⟩
        exact hfree loaded hloaded hholds
      · intro hunchained loaded hloaded hholds
        obtain ⟨document, hdocument, value, hvalue, hchained⟩ := hiff.mp ⟨loaded, hloaded, hholds⟩
        exact hunchained value ⟨by simpa using hvoid, document, hdocument, hvalue⟩ hchained

/-- The second mapping merges the first, which has a merge key itself. -/
def chainedAnchors : String :=
  "base: &base\n  <<: {retries: 3}\njob:\n  <<: *base\n"

def retries : Node := .mapping [(.string "retries", .number (.integer 3))]

set_option maxRecDepth 2000 in
theorem value_chainedAnchors :
    (Yaml.documents chainedAnchors.toList).map (·.value) =
      [.ok (.mapping [(.string "base", .mapping [(.string "<<", retries)]),
        (.string "job", .mapping [(.string "<<", .mapping [(.string "<<", retries)])])])] := by
  with_unfolding_all rfl

set_option maxRecDepth 2000 in
theorem ofSource_chainedAnchors :
    ofSource "chain.yml" chainedAnchors =
      .ok [⟨"chain.yml", 1, .mapping [(.string "base", retries),
        (.string "job", .mapping [(.string "<<", retries)])]⟩] := by
  with_unfolding_all rfl

theorem chainedAnchors_keep_mergeKey :
    ∃ documents, ofSource "chain.yml" chainedAnchors = .ok documents ∧
      ∃ document ∈ documents, document.value.HoldsMergeKey := by
  refine ⟨_, ofSource_chainedAnchors, ?_⟩
  by_contra hfree
  have hunchained := (free_of_mergeKey_iff ofSource_chainedAnchors).mp
    fun document hdocument hholds => hfree ⟨document, hdocument, hholds⟩
  have hcomposed : Composed chainedAnchors
      (.mapping [(.string "base", .mapping [(.string "<<", retries)]),
        (.string "job", .mapping [(.string "<<", .mapping [(.string "<<", retries)])])]) := by
    refine ⟨by decide +kernel, ?_⟩
    rw [← List.mem_map, value_chainedAnchors]
    exact List.mem_singleton_self _
  have hsource : [(.string "<<", retries)] ∈
      Yaml.Merge.sources [(.string "<<", .mapping [(.string "<<", retries)])] :=
    List.mem_singleton_self _
  have hjob : Yaml.Merge.Chained (.mapping [(.string "<<", .mapping [(.string "<<", retries)])]) :=
    .here hsource (List.mem_singleton_self _) rfl
  exact hunchained _ hcomposed (.value (.own (List.mem_cons_of_mem _ (List.mem_singleton_self _))
    (by simp [Yaml.Merge.mergeKey])) hjob)

/-- At each location of a document that does not lead through a merge key, a mapping of the
value as composed is a mapping of the loaded value.  Its own keys hold their values, and the
others those of the first merged mapping that has them, with the merge keys in each value
resolved. -/
theorem exists_merged_mapping {path source : String} {documents : List SourceDocument}
    (hload : ofSource path source = .ok documents) {index : Nat} {loaded : SourceDocument}
    (hloaded : documents[index]? = some loaded) :
    ∃ document value, (Yaml.documents source.toList)[index]? = some document ∧
      document.value = .ok value ∧
      ∀ location entries, value.Leads location (.mapping entries) →
        ∃ results, loaded.value.Leads location (.mapping results) ∧
          Yaml.Merge.MergedInto entries results := by
  rw [ofSource] at hload
  split at hload
  · cases hload
    cases hloaded
  · obtain ⟨document, hdocument, -, hvalue⟩ :=
      exists_getElem?_left (forall₂_numbered hload) hloaded
    obtain ⟨value, hcomposed, hresolve⟩ := valueOf_eq_ok.mp hvalue
    have hdistinct := Yaml.Document.distinctKeys_value hcomposed
    refine ⟨document, value, hdocument, hcomposed, fun location entries hmapping => ?_⟩
    exact Yaml.Merge.exists_mergedInto hdistinct hresolve hmapping

/-- The first mapping has the merged key, and the second has not, since the mapping that it
merges has this key by a merge only. -/
theorem chainedAnchors_merged_once :
    ∃ loaded, ofSource "chain.yml" chainedAnchors = .ok [loaded] ∧
      (∃ results, loaded.value.Leads [.key (.string "base")] (.mapping results) ∧
        Node.lookup? (.string "retries") results =
          some (.string "retries", .number (.integer 3))) ∧
      ∃ results, loaded.value.Leads [.key (.string "job")] (.mapping results) ∧
        Node.lookup? (.string "retries") results = none := by
  have hne : ∀ name, name ≠ "<<" → Node.string name ≠ Yaml.Merge.mergeKey := by
    intro name hname heq
    exact hname (Node.string.inj heq)
  refine ⟨_, ofSource_chainedAnchors, ?_⟩
  obtain ⟨document, value, hdocument, hvalue, hmappings⟩ :=
    @exists_merged_mapping _ _ _ ofSource_chainedAnchors 0 _ rfl
  have hcomposed := congrArg (·[0]?) value_chainedAnchors
  rw [List.getElem?_map, hdocument, Option.map_some, hvalue] at hcomposed
  obtain rfl := Except.ok.inj (Option.some.inj hcomposed)
  constructor
  · obtain ⟨results, hleads, hmerged⟩ := hmappings [.key (.string "base")] _
      (.key (hne "base" (by decide)) rfl (.here _))
    obtain ⟨resolved, hresolved, hfound⟩ := hmerged.merged (.string "retries") _ [] _ []
      (hne "retries" (by decide)) rfl rfl (by simp) rfl
    cases hresolved
    exact ⟨results, hleads, hfound⟩
  · obtain ⟨results, hleads, hmerged⟩ := hmappings [.key (.string "job")] _
      (.key (hne "job" (by decide)) rfl (.here _))
    refine ⟨results, hleads, hmerged.absent _ (hne "retries" (by decide)) rfl ?_⟩
    intro more hmore
    obtain rfl := List.mem_singleton.mp hmore
    rfl

end Shipment.SourceDocument
