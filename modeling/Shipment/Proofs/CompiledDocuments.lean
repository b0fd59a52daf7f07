import Shipment.Proofs.Compilation
import Shipment.Proofs.Json.WellFormed
import Shipment.Proofs.Normal

/-!
# Compiled documents are well formed

A value becomes a well-formed document when it is normalized, and the code of task
steps keeps the document well formed.  So every manifest that a compilation gives has
well-formed documents only.
-/

namespace Shipment

open Json

namespace Yaml.Node

mutual

theorem wellFormed_normalizeAt (value : Node) {location : Pointer} {document : Json}
    (hdocument : value.normalizeAt location = .ok document) : WellFormed document := by
  cases value with
  | null =>
      cases hdocument
      exact .null
  | bool b =>
      cases hdocument
      exact .bool b
  | number n =>
      rw [normalizeAt] at hdocument
      obtain ⟨number, hnumber, rfl⟩ := map_eq_ok.mp hdocument
      obtain ⟨hfinite, hsame⟩ := normalizeNumber_eq_ok.mp hnumber
      cases hsame with
      | integer => exact .integer _
      | float => exact .float hfinite
  | string s =>
      cases hdocument
      exact .string s
  | sequence items =>
      rw [normalizeAt] at hdocument
      obtain ⟨values, hvalues, rfl⟩ := map_eq_ok.mp hdocument
      exact .array (wellFormed_normalizeItems items hvalues)
  | mapping entries =>
      rw [normalizeAt] at hdocument
      obtain ⟨fields, hfields, rfl⟩ := map_eq_ok.mp hdocument
      exact wellFormed_normalizeEntries entries (.object .nil (by simp)) hfields
  | tagged tag value =>
      rw [normalizeAt] at hdocument
      exact wellFormed_normalizeAt value hdocument

theorem wellFormed_normalizeItems (items : List Node) {location : Pointer} {index : Nat}
    {values : List Json} (hvalues : normalizeItems location index items = .ok values) :
    ∀ value ∈ values, WellFormed value := by
  cases items with
  | nil =>
      cases hvalues
      simp
  | cons item rest =>
      rw [normalizeItems] at hvalues
      split at hvalues
      · cases hvalues
      · next value hvalue =>
          obtain ⟨more, hmore, rfl⟩ := map_eq_ok.mp hvalues
          exact List.forall_mem_cons.mpr
            ⟨wellFormed_normalizeAt item hvalue, wellFormed_normalizeItems rest hmore⟩

theorem wellFormed_normalizeEntries (entries : List (Node × Node)) {location : Pointer}
    {found fields : List (String × Json)} (hfound : WellFormed (.object found))
    (hfields : normalizeEntries location found entries = .ok fields) :
    WellFormed (.object fields) := by
  cases entries with
  | nil =>
      cases hfields
      exact hfound
  | cons entry rest =>
      obtain ⟨key, item⟩ := entry
      cases key with
      | string key =>
          rw [normalizeEntries] at hfields
          split at hfields
          · cases hfields
          · next value hvalue =>
              have hinsert := wellFormed_insert key hfound (wellFormed_normalizeAt item hvalue)
              exact wellFormed_normalizeEntries rest hinsert hfields
      | _ => simp [normalizeEntries] at hfields

end

theorem wellFormed_normalize {value : Node} {document : Json}
    (hdocument : value.normalize = .ok document) : WellFormed document := by
  rw [normalize_eq_normalizeAt] at hdocument
  exact wellFormed_normalizeAt value hdocument

end Yaml.Node

namespace TaskContext

variable {ctx : TaskContext} {index : Nat}

theorem wellFormed_inlineStep {step result : Json} (hstep : step.WellFormed)
    (hresult : (ctx.inlineStep index step).value = .ok result) : result.WellFormed := by
  unfold inlineStep at hresult
  split at hresult
  · split at hresult
    · cases hresult
      exact hstep
    · simp only [Noted.after, Noted.plain] at hresult
      split at hresult
      · cases hresult
      · cases hresult
        exact wellFormed_insert "code" hstep (.string _)
    · cases hresult
  · cases hresult
    exact hstep

theorem wellFormed_inlineSteps {steps : List Json} (hsteps : ∀ step ∈ steps, step.WellFormed) :
    ∀ step ∈ (ctx.inlineSteps index steps).value.1, step.WellFormed := by
  induction steps generalizing index with
  | nil => simp [inlineSteps, Noted.plain]
  | cons step rest ih =>
      obtain ⟨hstep, hrest⟩ := List.forall_mem_cons.mp hsteps
      simp only [inlineSteps]
      split
      · exact hsteps
      · next result hresult =>
          exact List.forall_mem_cons.mpr ⟨wellFormed_inlineStep hstep hresult, ih hrest⟩

theorem wellFormed_inlineSources {spec : Json} (hspec : spec.WellFormed) :
    (ctx.inlineSources spec).value.1.WellFormed := by
  unfold inlineSources
  split
  · exact hspec
  · split
    · next steps hsteps =>
        have hfound := wellFormed_array.mp (wellFormed_lookup hspec hsteps)
        dsimp only
        cases hset : spec.set? stepsPointer (.array (ctx.inlineSteps 0 steps).value.1) with
        | none => exact hspec
        | some replaced => exact wellFormed_set? hspec (.array (wellFormed_inlineSteps hfound)) hset
    · exact hspec

end TaskContext

namespace Project

variable {p : Project}

theorem wellFormed_compileDocument {document : SourceDocument} {entry : Entry}
    (hentry : (p.compileDocument document).value = .ok entry) : entry.spec.WellFormed := by
  unfold compileDocument at hentry
  split at hentry
  · cases hentry
  · next spec hspec =>
      simp only [Noted.value_map] at hentry
      split at hentry
      · cases hentry
      · cases hentry
        exact TaskContext.wellFormed_inlineSources (Yaml.Node.wellFormed_normalize hspec)

/-- The documents of a manifest that a compilation gives are well formed. -/
theorem wellFormed_compile {m : Manifest} (hm : p.compile.value = .ok m) :
    ∀ spec ∈ m.specs, spec.WellFormed := by
  intro spec hspec
  obtain ⟨entry, hentry, rfl⟩ := List.mem_map.mp hspec
  obtain ⟨paths, parts, -, hparts, hentries⟩ := (value_compile_eq_ok p).mp hm
  rw [hentries] at hentry
  obtain ⟨part, hpart, hmem⟩ := List.mem_flatten.mp hentry
  obtain ⟨path, -, documents, -, hdocuments⟩ := exists_mem_left hparts hpart
  obtain ⟨document, -, hcompiles⟩ := exists_mem_left hdocuments hmem
  exact wellFormed_compileDocument hcompiles

end Project

end Shipment
