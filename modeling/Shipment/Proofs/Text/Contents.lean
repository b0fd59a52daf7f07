import Mathlib.Data.List.TakeWhile
import Shipment.Text.Blank

/-!
# Lines without the blanks around them

A pattern list and a document source are judged by their contents: the lines that
are left when blanks are cut off at both ends of each line and blank lines are
passed over.  Whether a line is cut with its line feed makes no difference.
-/

namespace Shipment.Text

theorem isBlank_lineFeed : isBlank '\n' = true := rfl

/-! ## Trimming -/

theorem trimEnd_append_of_isBlank {c : Char} (hblank : isBlank c = true) (text : List Char) :
    trimEnd (text ++ [c]) = trimEnd text := by
  simp [trimEnd, hblank]

theorem trim_append_of_isBlank {c : Char} (hblank : isBlank c = true) (text : List Char) :
    trim (text ++ [c]) = trim text := by
  rw [trim, trim, trimStart, trimStart, List.dropWhile_append]
  split
  · next hnone =>
      rw [List.isEmpty_iff.mp hnone]
      simp [hblank]
  · exact trimEnd_append_of_isBlank hblank _

/-- Trimming cuts off blanks and nothing else. -/
theorem exists_eq_trimEnd_append (text : List Char) :
    ∃ tail, text = trimEnd text ++ tail ∧ ∀ c ∈ tail, isBlank c = true := by
  refine ⟨(text.reverse.takeWhile isBlank).reverse, ?_, ?_⟩
  · rw [trimEnd, ← List.reverse_append, List.takeWhile_append_dropWhile, List.reverse_reverse]
  · intro c hc
    exact List.mem_takeWhile_imp (List.mem_reverse.mp hc)

theorem exists_eq_append_trim (text : List Char) :
    ∃ lead tail, text = lead ++ trim text ++ tail ∧ (∀ c ∈ lead, isBlank c = true) ∧
      ∀ c ∈ tail, isBlank c = true := by
  obtain ⟨tail, htail, hblank⟩ := exists_eq_trimEnd_append (trimStart text)
  refine ⟨text.takeWhile isBlank, tail, ?_, fun c => List.mem_takeWhile_imp, hblank⟩
  rw [List.append_assoc, trim, ← htail, trimStart, List.takeWhile_append_dropWhile]

theorem isBlank_of_head?_trimStart {text : List Char} {c : Char}
    (hc : (trimStart text).head? = some c) : isBlank c = false := by
  have hhead := List.head?_dropWhile_not isBlank text
  rw [trimStart] at hc
  rwa [hc] at hhead

/-- The end of a line does not matter to its first character that is not blank. -/
theorem head?_trim (text : List Char) : (trim text).head? = (trimStart text).head? := by
  obtain ⟨tail, htail, hblank⟩ := exists_eq_trimEnd_append (trimStart text)
  rw [← trim] at htail
  cases htrim : trim text with
  | cons c rest => rw [htail, htrim, List.cons_append, List.head?_cons, List.head?_cons]
  | nil =>
      rw [htrim, List.nil_append] at htail
      cases hstart : trimStart text with
      | nil => rfl
      | cons c rest =>
          have hfirst := isBlank_of_head?_trimStart (c := c) (by rw [hstart, List.head?_cons])
          rw [hblank c (by rw [← htail, hstart]; exact List.mem_cons_self)] at hfirst
          cases hfirst

theorem isBlank_of_head?_trim {text : List Char} {c : Char}
    (hc : (trim text).head? = some c) : isBlank c = false :=
  isBlank_of_head?_trimStart (by rwa [← head?_trim])

theorem isBlank_of_getLast?_trim {text : List Char} {c : Char}
    (hc : (trim text).getLast? = some c) : isBlank c = false := by
  rw [trim, trimEnd, List.getLast?_reverse] at hc
  have hhead := List.head?_dropWhile_not isBlank (trimStart text).reverse
  rwa [hc] at hhead

/-- What follows a line that is not blank leaves its first blanks as they are. -/
theorem takeWhile_isBlank_append {line : List Char} (hcontent : trim line ≠ []) (more : List Char) :
    (line ++ more).takeWhile isBlank = line.takeWhile isBlank := by
  rw [List.takeWhile_append, if_neg]
  intro hlength
  have hblank : line.takeWhile isBlank = line :=
    (List.takeWhile_prefix isBlank).eq_of_length hlength
  apply hcontent
  rw [trim, trimStart, List.dropWhile_eq_nil_iff.mpr (List.takeWhile_eq_self_iff.mp hblank)]
  rfl

/-! ## Contents -/

/-- The lines that are not blank, without the blanks around them. -/
def contents (text : List Char) : List (List Char) :=
  ((text.splitOn '\n').map trim).filter (· ≠ [])

theorem contents_append_lineFeed (front back : List Char) :
    contents (front ++ '\n' :: back) = contents front ++ contents back := by
  simp [contents, List.splitOn_append_cons_self]

/-- Lines that are cut after their line feeds are those between the line feeds, of
which an empty last one is left out. -/
theorem exists_lines_eq (text : List Char) :
    ∃ front last, text.splitOn '\n' = front ++ [last] ∧
      lines text = front.map (· ++ ['\n']) ++ (if last = [] then [] else [last]) := by
  induction text with
  | nil => exact ⟨[], [], rfl, rfl⟩
  | cons c rest ih =>
      obtain ⟨front, last, hsplit, hlines⟩ := ih
      rw [List.splitOn_cons_eq_if_modifyHead, hsplit, lines, hlines]
      by_cases hfeed : c = '\n'
      · exact ⟨[] :: front, last, by simp [hfeed], by simp [hfeed]⟩
      · cases front with
        | nil =>
            refine ⟨[], c :: last, by simp [hfeed], ?_⟩
            by_cases hlast : last = []
            · simp [hfeed, hlast]
            · simp [hfeed, hlast]
        | cons first more => exact ⟨(c :: first) :: more, last, by simp [hfeed], by simp [hfeed]⟩

theorem filter_map_trim_lines (text : List Char) :
    ((lines text).map trim).filter (· ≠ []) = contents text := by
  obtain ⟨front, last, hsplit, hlines⟩ := exists_lines_eq text
  have htrim : trim ∘ (· ++ ['\n']) = trim := funext fun line => trim_append_of_isBlank isBlank_lineFeed line
  rw [contents, hsplit, hlines, List.map_append, List.map_map, htrim]
  by_cases hlast : last = []
  · subst hlast
    simp [show trim [] = [] from rfl]
  · simp [hlast]

end Shipment.Text
