import Mathlib.Data.Set.Function
import Shipment.Proofs.Pointer

/-!
# Segments and pointer texts

A pointer text has its segments one after another, each behind a slash.  Writing a
segment replaces its tildes and then its slashes, so a written segment has no slash
and the text splits at its slashes into the written segments.  The lists of segments
and the texts that are read as a pointer correspond one to one, and reading is the way
back from the text.
-/

namespace Shipment.Pointer

/-! ## Written segments -/

/-- The text with another text in place of a character. -/
def replaceChar (c : Char) (replacement text : List Char) : List Char :=
  text.flatMap fun d => if d = c then replacement else [d]

/-- The tildes are replaced first, so the tilde that stands for a slash stays as it is. -/
theorem escape_eq_replaceChar (segment : List Char) :
    escape segment = replaceChar '/' ['~', '1'] (replaceChar '~' ['~', '0'] segment) := by
  rw [replaceChar, replaceChar, List.flatMap_assoc, escape]
  congr 1
  funext c
  by_cases htilde : c = '~'
  · simp [escapedChar, htilde]
  · simp [escapedChar, htilde]

/-- In the other order a slash would be read back as the two characters after a tilde. -/
example : replaceChar '~' ['~', '0'] (replaceChar '/' ['~', '1'] ['/']) ≠ escape ['/'] := by
  decide

theorem slash_notMem_escape (segment : List Char) : '/' ∉ escape segment := by
  intro hmem
  obtain ⟨c, -, hslash⟩ := List.mem_flatMap.mp hmem
  by_cases htilde : c = '~'
  · simp [escapedChar, htilde] at hslash
  by_cases hself : c = '/'
  · simp [escapedChar, hself] at hslash
  · simp [escapedChar, htilde, hself] at hslash
    exact hself hslash.symm

/-- Text before the first segment is a piece of its own. -/
theorem splitOn_append_textOf {front : List Char} (hfront : '/' ∉ front)
    (segments : List String) :
    (front ++ textOf segments).splitOn '/' = front :: segments.map (escape ·.toList) := by
  induction segments generalizing front with
  | nil => simpa using List.splitOn_eq_singleton hfront
  | cons segment rest ih =>
      rw [textOf_cons, List.splitOn_append_cons_self, List.splitOn_eq_singleton hfront,
        ih (slash_notMem_escape _)]
      rfl

/-- A text splits at its slashes into its written segments, behind an empty piece. -/
theorem splitOn_text (p : Pointer) :
    p.text.toList.splitOn '/' = [] :: p.segments.map (escape ·.toList) := by
  rw [toList_text]
  exact splitOn_append_textOf List.not_mem_nil p.segments

/-! ## Texts and segments -/

/-- The texts that are read as a pointer. -/
def readable : Set String :=
  {text | ∃ p, parse text = .ok p}

/-- Every list of segments has a text of its own that is read, and every text that is
read is the text of some segments; reading gives the segments back, and writing what
was read gives the text back. -/
theorem text_bijOn_readable :
    Set.BijOn (fun segments => text ⟨segments⟩) Set.univ readable ∧
      (∀ segments, parse (text ⟨segments⟩) = .ok ⟨segments⟩) ∧
      ∀ input p, parse input = .ok p → p.text = input := by
  have hparse (segments : List String) : parse (text ⟨segments⟩) = .ok ⟨segments⟩ :=
    parse_text ⟨segments⟩
  have htext : ∀ input p, parse input = .ok p → p.text = input :=
    fun input p hread => parse_eq_ok_iff.mp hread
  have hmaps : Set.MapsTo (fun segments => text ⟨segments⟩) Set.univ readable :=
    fun segments _ => ⟨⟨segments⟩, hparse segments⟩
  have hinjective : Set.InjOn (fun segments => text ⟨segments⟩) Set.univ := by
    intro left _ right _ hsame
    exact segments_eq_iff.mpr hsame
  have hsurjective : Set.SurjOn (fun segments => text ⟨segments⟩) Set.univ readable := by
    rintro input ⟨p, hread⟩
    exact ⟨p.segments, Set.mem_univ _, htext input p hread⟩
  exact ⟨⟨hmaps, hinjective, hsurjective⟩, hparse, htext⟩

/-- Empty segments, and segments with slashes, tildes and the text of an escape. -/
example : parse "///a~1b/~0/~00/~01" = .ok ⟨["", "", "a/b", "~", "~0", "~1"]⟩ := by
  decide +kernel

end Shipment.Pointer
