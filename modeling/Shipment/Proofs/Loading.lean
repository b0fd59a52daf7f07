import Shipment.Loading
import Shipment.Proofs.Journal

/-!
# Numbers and paths of loaded documents

The documents of a file carry the path they were loaded under, and they are
numbered one after another, the first of them with one.
-/

namespace Shipment.SourceDocument

/-- Each loaded document holds the value of the document at its place. -/
theorem forall₂_numbered {path source : String} {number : Nat} {documents : List Yaml.Document}
    {found : List SourceDocument} (hfound : numbered path source number documents = .ok found) :
    List.Forall₂ (fun document loaded => loaded.path = path ∧ valueOf document = .ok loaded.value)
      documents found := by
  induction documents generalizing number found with
  | nil =>
      cases hfound
      exact .nil
  | cons document rest ih =>
      rw [numbered] at hfound
      cases hvalue : valueOf document with
      | error fault => simp [hvalue] at hfound
      | ok value =>
          simp only [hvalue] at hfound
          cases hrest : numbered path source (number + 1) rest with
          | error e => simp [hrest, Except.map] at hfound
          | ok more =>
              simp only [hrest, Except.map, Except.ok.injEq] at hfound
              subst hfound
              exact .cons ⟨rfl, hvalue⟩ (ih hrest)

theorem map_number_numbered {path source : String} {number : Nat}
    {documents : List Yaml.Document} {found : List SourceDocument}
    (hfound : numbered path source number documents = .ok found) :
    found.map (·.number) = List.range' number found.length := by
  induction documents generalizing number found with
  | nil =>
      cases hfound
      rfl
  | cons document rest ih =>
      rw [numbered] at hfound
      cases hvalue : valueOf document with
      | error fault => simp [hvalue] at hfound
      | ok value =>
          simp only [hvalue] at hfound
          cases hrest : numbered path source (number + 1) rest with
          | error e => simp [hrest, Except.map] at hfound
          | ok more =>
              simp only [hrest, Except.map, Except.ok.injEq] at hfound
              subst hfound
              simp [ih hrest, List.range'_succ]

/-- The error of a file is that one of its documents has no value. -/
theorem exists_mem_of_numbered_error {path source : String} {number : Nat}
    {documents : List Yaml.Document} {e : CompileError}
    (herror : numbered path source number documents = .error e) :
    ∃ document ∈ documents, ∃ failing fault,
      valueOf document = .error fault ∧ e = .malformed path failing source fault := by
  induction documents generalizing number with
  | nil => cases herror
  | cons document rest ih =>
      rw [numbered] at herror
      split at herror
      · next fault hvalue =>
          cases herror
          exact ⟨document, List.mem_cons_self, number, fault, hvalue, rfl⟩
      · obtain ⟨failed, hmem, hfailed⟩ := ih (map_eq_error.mp herror)
        exact ⟨failed, List.mem_cons_of_mem _ hmem, hfailed⟩

/-- Loaded documents carry this path and are numbered from one without a gap. -/
structure NumberedFromOne (path : String) (documents : List SourceDocument) : Prop where
  path_eq : ∀ document ∈ documents, document.path = path
  numbers_eq : documents.map (·.number) = List.range' 1 documents.length

theorem numberedFromOne_ofSource {path source : String} {found : List SourceDocument}
    (hfound : ofSource path source = .ok found) : NumberedFromOne path found := by
  rw [ofSource] at hfound
  split at hfound
  · cases hfound
    exact ⟨by simp, rfl⟩
  · refine ⟨?_, map_number_numbered hfound⟩
    intro loaded hloaded
    obtain ⟨document, -, hpath, -⟩ := exists_mem_left (forall₂_numbered hfound) hloaded
    exact hpath

theorem numberedFromOne_ofFile {files : FileSystem} {root : FilePath} {path : String}
    {found : List SourceDocument} (hfound : (ofFile files root path).value = .ok found) :
    NumberedFromOne path found := by
  simp only [ofFile, Noted.value_after, Noted.value_plain] at hfound
  split at hfound
  · cases hfound
  · exact numberedFromOne_ofSource hfound

namespace NumberedFromOne

variable {path : String} {documents : List SourceDocument}

/-- The number of a document is one more than the number of those before it. -/
theorem number_of_getElem? (h : NumberedFromOne path documents) {i : Nat}
    {document : SourceDocument} (hdocument : documents[i]? = some document) :
    document.number = i + 1 := by
  obtain ⟨hi, -⟩ := List.getElem?_eq_some_iff.mp hdocument
  have hmap : (documents.map (·.number))[i]? = some document.number := by
    simp [hdocument]
  rw [h.numbers_eq, List.getElem?_range' hi] at hmap
  simpa [Nat.add_comm] using hmap.symm

end NumberedFromOne

end Shipment.SourceDocument
