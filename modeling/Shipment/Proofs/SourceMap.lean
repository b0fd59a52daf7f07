import Shipment.Proofs.Compilation
import Shipment.Proofs.Tracing

/-!
# From a failure back to its document

A server names a document by its index in the request body.  The index as it is
printed is read back as that index, whatever location follows it, so a failure
leads to the manifest entry at the index, and the entry leads to the document of
a listed file that it was compiled from.
-/

namespace Shipment

namespace Diagnostic

/-- A printed index is read back, if it fits a machine word. -/
theorem index?_toString {index : Nat} (hindex : index < Digits.wordCount) :
    index? (toString index) = some index := by
  rw [index?, Digits.toList_toString, Digits.read?_toDigits]
  simp [hindex]

/-- A failure below an index is about the entry there. -/
theorem ofFailure_of_get? {m : Manifest} {index : Nat} {entry : Entry}
    (hentry : m.get? index = some entry) (hindex : index < Digits.wordCount)
    (rest : Pointer) (reason : String) :
    ofFailure m ⟨"/" ++ Manifest.fieldName ++ "/" ++ toString index ++ rest.text, reason⟩ =
      .ok (ofEntry entry rest reason) := by
  rw [← text_below (Digits.isDigit_toString index)]
  exact ofFailure_of_get?_eq_some (index?_toString hindex) hentry

variable (entry : Entry) (location : Pointer) (reason : String)

@[simp]
theorem path_ofEntry : (ofEntry entry location reason).path = entry.origin.path := by
  unfold ofEntry
  split <;> rfl

@[simp]
theorem reason_ofEntry : (ofEntry entry location reason).reason = reason := by
  unfold ofEntry
  split <;> rfl

/-- The location is left out where it is all of the document. -/
theorem field_ofEntry :
    (ofEntry entry location reason).field =
      if location.segments = [] ∨ location.segments = [""] then none
      else some location.relative := by
  by_cases hwhole : isWhole location = true
  · have hsegments : location.segments = [] ∨ location.segments = [""] := by
      simpa [isWhole] using hwhole
    rw [ofEntry, if_pos hwhole, if_pos hsegments]
  · have hsegments : ¬(location.segments = [] ∨ location.segments = [""]) := by
      simpa [isWhole] using hwhole
    rw [ofEntry, if_neg hwhole, if_neg hsegments]

/-- A document is called by its number, or by the type and the name in it. -/
theorem resource_ofEntry :
    (ofEntry entry location reason).resource = .document entry.origin.document ∨
      ∃ kind name, (ofEntry entry location reason).resource = .named kind name ∧
        entry.spec.stringField? "type" = some kind ∧
        entry.spec.stringField? "name" = some name := by
  unfold ofEntry
  split
  · exact Or.inl rfl
  · cases hname : nameOf? entry.spec with
    | none => exact Or.inl rfl
    | some resource =>
        obtain ⟨kind, name, ⟨fields, hspec, htype, hown, -, -⟩, rfl⟩ :=
          nameOf?_eq_some_iff.mp hname
        exact Or.inr ⟨kind, name, rfl, Json.stringField?_eq_some_iff.mpr ⟨fields, hspec, htype⟩,
          Json.stringField?_eq_some_iff.mpr ⟨fields, hspec, hown⟩⟩

end Diagnostic

namespace Project

/-- An entry holds what a listed file's document at the number of its origin
compiles to. -/
def HasSource (p : Project) (entry : Entry) : Prop :=
  ∃ paths documents document,
    p.findFiles.value = .ok paths ∧ entry.origin.path ∈ paths ∧
      p.Loads entry.origin.path documents ∧ 1 ≤ entry.origin.document ∧
      documents[entry.origin.document - 1]? = some document ∧
      (p.compileDocument document).value = .ok entry

theorem hasSource_of_mem {p : Project} {m : Manifest} (hcompile : p.compile.value = .ok m)
    {entry : Entry} (hentry : entry ∈ m.entries) : p.HasSource entry := by
  obtain ⟨paths, parts, hpaths, hparts, hentries⟩ := p.value_compile_eq_ok.mp hcompile
  rw [hentries] at hentry
  obtain ⟨part, hpart, hmem⟩ := List.mem_flatten.mp hentry
  obtain ⟨path, hpath, hcompiles⟩ := exists_mem_left hparts hpart
  obtain rfl := hcompiles.path_of_mem hmem
  obtain ⟨documents, hload, hpairs⟩ := hcompiles
  obtain ⟨i, hi⟩ := List.mem_iff_getElem?.mp hmem
  obtain ⟨document, hdocument, hvalue⟩ := exists_getElem?_left hpairs hi
  have hnumber : entry.origin.document = i + 1 := by
    rw [origin_of_compileDocument hvalue]
    exact (SourceDocument.numberedFromOne_ofFile hload).number_of_getElem? hdocument
  refine ⟨paths, documents, document, hpaths, hpath, hload, ?_, ?_, hvalue⟩
  · omega
  · rw [hnumber]
    exact hdocument

/-- A failure at any index of a manifest, which is a machine word, is traced to
the document that was compiled to the entry at that index.  What the server says
behind the index and as its reason is kept. -/
theorem failure_leads_to_source {p : Project} {m : Manifest}
    (hcompile : p.compile.value = .ok m) (index : UInt64) (hindex : index.toNat < m.size)
    (rest : Pointer) (reason : String) :
    ∃ origin spec d,
      m.origins[index.toNat]? = some origin ∧ m.specs[index.toNat]? = some spec ∧
        p.HasSource ⟨origin, spec⟩ ∧
        Diagnostic.ofFailure m
          ⟨"/" ++ Manifest.fieldName ++ "/" ++ toString index ++ rest.text, reason⟩ = .ok d ∧
        d.path = origin.path ∧ d.reason = reason ∧
        d.field = (if rest.segments = [] ∨ rest.segments = [""] then none
          else some rest.relative) ∧
        (d.resource = .document origin.document ∨
          ∃ kind name, d.resource = .named kind name ∧
            spec.stringField? "type" = some kind ∧ spec.stringField? "name" = some name) := by
  have hget : m.get? index.toNat = some m.entries[index.toNat] := List.getElem?_eq_getElem hindex
  generalize m.entries[index.toNat] = entry at hget
  have hword : index.toNat < Digits.wordCount := index.toNat_lt
  refine ⟨entry.origin, entry.spec, Diagnostic.ofEntry entry rest reason, ?_, ?_, ?_, ?_, ?_⟩
  · simpa [Manifest.origins] using ⟨entry, hget, rfl⟩
  · simpa [Manifest.specs] using ⟨entry, hget, rfl⟩
  · exact hasSource_of_mem hcompile (List.mem_of_getElem? hget)
  · exact Diagnostic.ofFailure_of_get? hget hword rest reason
  · exact ⟨Diagnostic.path_ofEntry .., Diagnostic.reason_ofEntry .., Diagnostic.field_ofEntry ..,
      Diagnostic.resource_ofEntry ..⟩

theorem twoFiles_failure_leads_to_source :
    ∃ m d, twoFiles.compile.value = .ok m ∧
      Diagnostic.ofFailure m ⟨"/specs/1/name", "taken"⟩ = .ok d ∧
      d.path = "a.yml" ∧ d.reason = "taken" ∧ d.field = some "name" := by
  obtain ⟨origin, spec, d, horigin, -, -, hd, hpath, hreason, hfield, -⟩ :=
    failure_leads_to_source value_compile_twoFiles 1 (by decide) ⟨["name"]⟩ "taken"
  obtain rfl : origin = ⟨"a.yml", 2⟩ := Option.some.inj horigin.symm
  exact ⟨_, d, value_compile_twoFiles, hd, hpath, hreason, hfield⟩

end Project

end Shipment
