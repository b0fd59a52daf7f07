import Shipment.Manifest
import Shipment.Proofs.Json.Written

/-!
# What the request body says

The compact text and the pretty text of a manifest say the same: one object whose
only member holds the documents in their order, with nothing of them missing.  The
text of one manifest is therefore that of another exactly if they have the same
documents, wherever these came from.
-/

namespace Shipment.Manifest

open Json Json.Grammar

variable {m other : Manifest}

/-- The two texts of the request body. -/
def texts (m : Manifest) : List String :=
  [m.compact, m.pretty]

theorem wellFormed_body (hspecs : ∀ spec ∈ m.specs, spec.WellFormed) : m.body.WellFormed := by
  refine .object (List.pairwise_singleton _ _) ?_
  rintro field hfield
  rw [List.mem_singleton.mp hfield]
  exact .array hspecs

/-- A written value says the tree that it is written as. -/
theorem says_of_written {value : Json} {tree : TextTree} (hwritten : Written value tree) :
    ∀ text ∈ [value.compact, value.pretty], Says text.toList tree := by
  have hsaid : ∀ {text : List Char}, (∀ rest, Reads (text ++ rest) tree rest) → Says text tree := by
    intro text hread
    refine ⟨[], text, [], rfl, isBlank_nil, ?_, isBlank_nil⟩
    simpa using hread []
  intro text htext
  rcases List.mem_pair.mp htext with rfl | rfl
  · rw [Json.compact, String.toList_ofList]
    exact hsaid hwritten.compact
  · rw [Json.pretty, String.toList_ofList]
    exact hsaid (hwritten.pretty 0)

/-- A tree of the request body holds the documents under the only key. -/
theorem shows_body {tree : TextTree} (hshows : Shows m.body tree) :
    ∃ trees, tree = .object [("specs", .array trees)] ∧ List.Forall₂ Shows m.specs trees := by
  cases hshows with
  | object hkeys _ hvalues =>
      obtain ⟨⟨key, value⟩, rfl, hkey⟩ := List.map_eq_singleton_iff.mp hkeys
      obtain rfl : key = "specs" := hkey
      cases hvalues with
      | cons hspecs _ =>
          cases hspecs with
          | array htrees => exact ⟨_, rfl, htrees⟩

/-- What both texts of a manifest say. -/
theorem exists_trees (hspecs : ∀ spec ∈ m.specs, spec.WellFormed) :
    ∃ trees, List.Forall₂ Shows m.specs trees ∧ ∀ text ∈ m.texts, ∀ tree,
      Says text.toList tree ↔ tree = .object [("specs", .array trees)] := by
  obtain ⟨tree, hwritten⟩ := exists_written (wellFormed_body hspecs)
  obtain ⟨trees, rfl, htrees⟩ := shows_body hwritten.shows
  refine ⟨trees, htrees, fun text htext tree => ?_⟩
  have hsaid := says_of_written hwritten text htext
  constructor
  · exact fun htree => htree.unique hsaid
  · rintro rfl
    exact hsaid

/-- A text belongs to the documents of one manifest only. -/
theorem specs_eq_of_mem_texts (hspecs : ∀ spec ∈ m.specs, spec.WellFormed)
    (hother : ∀ spec ∈ other.specs, spec.WellFormed) {text : String} (htext : text ∈ m.texts)
    (htext' : text ∈ other.texts) : m.specs = other.specs := by
  obtain ⟨trees, htrees, hsaid⟩ := exists_trees hspecs
  obtain ⟨trees', htrees', hsaid'⟩ := exists_trees hother
  have hsame := (hsaid' text htext' _).mp ((hsaid text htext _).mpr rfl)
  obtain rfl : trees = trees' := by simpa using hsame
  exact eq_of_forall₂ htrees htrees' fun _ _ _ _ h h' => h.value_unique h'

/-- By the grammar of JSON, both texts of a manifest say one thing: an object whose
only member holds, in their order, trees that are the documents.  Manifests that have
a text in common have the same documents, and origins are not in the texts. -/
theorem texts_say_specs (m : Manifest) (hspecs : ∀ spec ∈ m.specs, spec.WellFormed) :
    (∃ trees, trees.length = m.size ∧ List.Forall₂ Shows m.specs trees ∧
      ∀ text ∈ m.texts, ∀ tree,
        Says text.toList tree ↔ tree = .object [("specs", .array trees)]) ∧
      (∀ other : Manifest, (∀ spec ∈ other.specs, spec.WellFormed) →
        ∀ text ∈ m.texts, text ∈ other.texts → m.specs = other.specs) ∧
      ∀ other : Manifest, other.specs = m.specs →
        other.compact = m.compact ∧ other.pretty = m.pretty := by
  refine ⟨?_, ?_, ?_⟩
  · obtain ⟨trees, htrees, hsaid⟩ := exists_trees hspecs
    have hlength : trees.length = m.size := by rw [← htrees.length_eq, specs, List.length_map, size]
    exact ⟨trees, hlength, htrees, hsaid⟩
  · exact fun other hother text htext htext' => specs_eq_of_mem_texts hspecs hother htext htext'
  · intro other hsame
    rw [Manifest.compact, Manifest.pretty, Manifest.compact, Manifest.pretty, body, body, hsame]
    exact ⟨rfl, rfl⟩

/-- A document with a key that is escaped, with empty lists and with a number. -/
def escaped (n : Number) : Manifest :=
  ⟨[⟨⟨"a.yaml", 1⟩, .object [("\t\"é", .array []), ("x", .array [.object [], .number n])]⟩]⟩

theorem wellFormed_escaped {n : Number} (hn : n.isFinite = true) :
    ∀ spec ∈ (escaped n).specs, spec.WellFormed := by
  have hitems : ∀ item ∈ [Json.object [], .number n], item.WellFormed :=
    List.forall_mem_cons.mpr
      ⟨.object .nil (by simp), List.forall_mem_singleton.mpr (wellFormed_number hn)⟩
  refine List.forall_mem_singleton.mpr (.object ?_ ?_)
  · exact List.pairwise_pair.mpr (by decide : "\t\"é" < "x")
  · exact List.forall_mem_cons.mpr
      ⟨.array (by simp), List.forall_mem_singleton.mpr (.array hitems)⟩

/-- An integer and the double of the same value are told apart by either text. -/
theorem escaped_texts_differ :
    (∀ spec ∈ (escaped (.integer 1)).specs, spec.WellFormed) ∧
      (∃ trees : List TextTree, trees.length = 1 ∧
        ∀ text ∈ (escaped (.integer 1)).texts, ∀ tree,
          Says text.toList tree ↔ tree = .object [("specs", .array trees)]) ∧
      ∀ text ∈ (escaped (.integer 1)).texts,
        text ∉ (escaped (.float ⟨0x3FF0000000000000⟩)).texts := by
  have hspecs : ∀ spec ∈ (escaped (.integer 1)).specs, spec.WellFormed := wellFormed_escaped rfl
  obtain ⟨⟨trees, hlength, -, hsaid⟩, hown, -⟩ := texts_say_specs (escaped (.integer 1)) hspecs
  refine ⟨hspecs, ⟨trees, hlength, hsaid⟩, fun text htext htext' => ?_⟩
  have hsame := hown (escaped (.float ⟨0x3FF0000000000000⟩)) (wellFormed_escaped rfl) text htext
    htext'
  simp [specs, escaped] at hsame

end Shipment.Manifest
