import Shipment.Proofs.IgnoreLines
import Shipment.Proofs.Text.ByteOrder

/-!
# Lines of an ignore file

An ignore file is read if each of its lines that are not blank is a pattern, and its rules are
then those of these lines in their order.  Otherwise the first line that is no pattern is
blamed: the error has the number of this line, its text without the blanks around it and the
reason why that is no pattern, and it marks the bytes of this text inside the line.
-/

namespace Shipment

namespace IgnoreRules

open IgnoreRule (IsRuleOf fullText)

/-! ## One line -/

/-- The line is blank, or a pattern apart from the blanks around it. -/
def IsRead (line : List Char) : Prop :=
  Text.trim line ≠ [] → ∃ rule, IgnoreRule.compile (Text.trim line) = .ok rule

/-- The error blames the line with this number and with this offset of its start. -/
structure Blames (source name : String) (number start : Nat) (line : List Char)
    (bad : BadPattern) : Prop where
  content : Text.trim line ≠ []
  reason : IgnoreRule.compile (Text.trim line) = .error bad.reason
  number : bad.line = number
  pattern : bad.pattern = String.ofList (Text.trim line)
  offset : bad.offset = start + Text.byteLength (line.takeWhile Text.isBlank)
  source : bad.source = source
  name : bad.sourceName = name

variable {source name : String} {number start : Nat} {line : List Char} {bad : BadPattern}

theorem Blames.not_isRead (hblames : Blames source name number start line bad) :
    ¬IsRead line := by
  intro hread
  obtain ⟨rule, hrule⟩ := hread hblames.content
  cases hrule.symm.trans hblames.reason

/-- A line is read, or its error is the one that blames it. -/
theorem readLines_cons_eq_error_iff {rest : List (List Char)} :
    readLines name source number start ((line ++ ['\n']) :: rest) = .error bad ↔
      Blames source name number start line bad ∨
        IsRead line ∧
          readLines name source (number + 1) (start + Text.byteLength (line ++ ['\n'])) rest =
            .error bad := by
  rw [readLines, Text.trim_append_of_isBlank Text.isBlank_lineFeed]
  cases htrim : Text.trim line with
  | nil =>
      have hread : IsRead line := fun hcontent => absurd htrim hcontent
      have hblames : ¬Blames source name number start line bad := fun h => h.content htrim
      simp [hread, hblames]
  | cons c more =>
      have hcontent : Text.trim line ≠ [] := by simp [htrim]
      rw [List.isEmpty_cons, if_neg Bool.false_ne_true, ← htrim,
        Text.takeWhile_isBlank_append hcontent]
      cases hcompile : IgnoreRule.compile (Text.trim line) with
      | ok rule =>
          have hread : IsRead line := fun _ => ⟨rule, hcompile⟩
          have hblames : ¬Blames source name number start line bad := fun h => h.not_isRead hread
          simp [hread, hblames, map_eq_error]
      | error reason =>
          have hown : Blames source name number start line
              ⟨number, String.ofList (Text.trim line), reason, name, source,
                start + Text.byteLength (line.takeWhile Text.isBlank)⟩ :=
            ⟨hcontent, hcompile, rfl, rfl, rfl, rfl, rfl⟩
          simp only [Except.error.injEq, hown.not_isRead, false_and, or_false]
          constructor
          · rintro rfl
            exact hown
          · intro h
            obtain rfl : reason = bad.reason := Except.error.inj (hcompile.symm.trans h.reason)
            rw [← h.number, ← h.pattern, ← h.offset, ← h.source, ← h.name]

/-! ## All lines -/

/-- The bytes before a line, those of the line feeds included. -/
def lineStart (before : List (List Char)) : Nat :=
  Text.byteLength (before.flatMap (· ++ ['\n']))

theorem lineStart_cons (line : List Char) (before : List (List Char)) :
    lineStart (line :: before) = Text.byteLength (line ++ ['\n']) + lineStart before := by
  rw [lineStart, lineStart, List.flatMap_cons, Text.byteLength_append (line ++ ['\n'])]

/-- The first line that is not read is the one that is blamed. -/
theorem readLines_eq_error_iff {lines : List (List Char)} :
    readLines name source number start (lines.map (· ++ ['\n'])) = .error bad ↔
      ∃ before line after, lines = before ++ line :: after ∧
        (∀ earlier ∈ before, IsRead earlier) ∧
          Blames source name (number + before.length) (start + lineStart before) line bad := by
  induction lines generalizing number start with
  | nil => simp [readLines]
  | cons line rest ih =>
      have hstart (before : List (List Char)) :
          start + Text.byteLength (line ++ ['\n']) + lineStart before =
            start + lineStart (line :: before) := by
        rw [lineStart_cons, Nat.add_assoc]
      have hnumber (before : List (List Char)) :
          number + 1 + before.length = number + (line :: before).length := by
        rw [List.length_cons, Nat.add_assoc, Nat.add_comm 1]
      simp only [List.map_cons, readLines_cons_eq_error_iff, ih, exists_behind_cons_iff, hstart,
        hnumber]
      rfl

theorem readLines_append_congr {front back back' : List (List Char)}
    (hback : ∀ number start, readLines name source number start back =
      readLines name source number start back') :
    readLines name source number start (front ++ back) =
      readLines name source number start (front ++ back') := by
  induction front generalizing number start with
  | nil => exact hback number start
  | cons line rest ih => rw [List.cons_append, List.cons_append, readLines, readLines, ih]

/-- Whether the last line has its line feed makes no difference. -/
theorem readLines_lines (text : List Char) :
    readLines name source number start (Text.lines text) =
      readLines name source number start ((text.splitOn '\n').map (· ++ ['\n'])) := by
  obtain ⟨front, last, hsplit, hlines⟩ := Text.exists_lines_eq text
  rw [hsplit, hlines, List.map_append]
  apply readLines_append_congr
  intro number start
  by_cases hlast : last = []
  · subst hlast
    rfl
  · simp only [if_neg hlast, List.map_cons, List.map_nil, readLines,
      Text.trim_append_of_isBlank Text.isBlank_lineFeed]
    by_cases hcontent : Text.trim last = []
    · simp [hcontent]
    · rw [Text.takeWhile_isBlank_append hcontent]

theorem parse_eq_error_iff :
    parse source name = .error bad ↔
      ∃ before line after, source.toList.splitOn '\n' = before ++ line :: after ∧
        (∀ earlier ∈ before, IsRead earlier) ∧
          Blames source name (before.length + 1) (lineStart before) line bad := by
  rw [parse, map_eq_error, readLines_lines, readLines_eq_error_iff]
  simp only [Nat.add_comm 1, Nat.zero_add]

theorem exists_parse_eq_ok_iff :
    (∃ set, parse source name = .ok set) ↔
      ∀ line ∈ source.toList.splitOn '\n', IsRead line := by
  have hcontents : (∀ pattern ∈ Text.contents source.toList, ∃ rule, IsRuleOf pattern rule) ↔
      ∀ line ∈ source.toList.splitOn '\n', IsRead line := by
    simp only [Text.contents, List.mem_filter, List.mem_map, decide_eq_true_eq]
    constructor
    · intro hpatterns line hline hcontent
      exact hpatterns _ ⟨⟨line, hline, rfl⟩, hcontent⟩
    · rintro hlines _ ⟨⟨line, hline, rfl⟩, hcontent⟩
      exact hlines line hline hcontent
  simp only [parse_eq_ok_iff, ← hcontents]
  constructor
  · rintro ⟨set, hset⟩ pattern hpattern
    obtain ⟨rule, -, hrule⟩ := exists_mem_right hset hpattern
    exact ⟨rule, hrule⟩
  · intro hpatterns
    obtain ⟨rules, hrules⟩ := exists_forall₂ hpatterns
    exact ⟨⟨rules⟩, hrules⟩

/-! ## The marked bytes -/

/-- The error marks bytes inside the line behind some others, and they are those of its
pattern. -/
structure Marks (before : List (List Char)) (line : List Char) (bad : BadPattern) : Prop where
  behind : lineStart before ≤ bad.offset
  within : bad.offset + bad.length ≤ lineStart before + Text.byteLength line
  bytes : ((Text.bytes bad.source).drop bad.offset).take bad.length = Text.bytes bad.pattern

/-- The lines before a line stand in front of it, each with its line feed. -/
theorem exists_eq_flatMap_append {text : List Char} {before after : List (List Char)}
    (hsplit : text.splitOn '\n' = before ++ line :: after) :
    ∃ back, text = before.flatMap (· ++ ['\n']) ++ (line ++ back) := by
  have htext : ['\n'].intercalate (text.splitOn '\n') = text := List.intercalate_splitOn '\n'
  rw [← htext, hsplit]
  clear hsplit htext
  induction before with
  | nil =>
      cases after with
      | nil => exact ⟨[], by simp⟩
      | cons next more => exact ⟨'\n' :: ['\n'].intercalate (next :: more), by simp⟩
  | cons first rest ih =>
      obtain ⟨back, hback⟩ := ih
      refine ⟨back, ?_⟩
      rw [List.cons_append, List.flatMap_cons, List.append_assoc, ← hback]
      cases rest with
      | nil => simp
      | cons next more => simp

theorem Blames.marks {before after : List (List Char)}
    (hsplit : source.toList.splitOn '\n' = before ++ line :: after)
    (hblames : Blames source name number (lineStart before) line bad) :
    Marks before line bad := by
  obtain ⟨back, hsource⟩ := exists_eq_flatMap_append hsplit
  obtain ⟨tail, hline, -⟩ := Text.exists_eq_trimEnd_append (Text.trimStart line)
  have hparts : line = line.takeWhile Text.isBlank ++ (Text.trim line ++ tail) := by
    rw [Text.trim, ← hline, Text.trimStart, List.takeWhile_append_dropWhile]
  have hlength : bad.length = Text.byteLength (Text.trim line) := by
    rw [BadPattern.length, hblames.pattern, String.toList_ofList]
  refine ⟨?_, ?_, ?_⟩
  · rw [hblames.offset]
    exact Nat.le_add_right _ _
  · conv_rhs => rw [hparts]
    rw [hblames.offset, hlength, Text.byteLength_append, Text.byteLength_append]
    omega
  · have htext : source.toList =
        before.flatMap (· ++ ['\n']) ++ line.takeWhile Text.isBlank ++ bad.pattern.toList ++
          (tail ++ back) := by
      rw [hsource, hblames.pattern, String.toList_ofList]
      conv_lhs => rw [hparts]
      simp only [List.append_assoc]
    rw [hblames.source, hblames.offset, lineStart, ← Text.byteLength_append]
    exact Text.take_drop_bytes htext

/-- The patterns of an ignore file are its lines that are not blank, and its rules are those of
these lines in their order.  Where a line is no pattern, the first such line is blamed with its
number and the reason why it is none, and its text is marked in the file. -/
theorem parse_line_by_line (source name : String) :
    ((∃ set, parse source name = .ok set) ↔
        ∀ line ∈ source.toList.splitOn '\n', IsRead line) ∧
      (∀ set, parse source name = .ok set →
        AreRulesOf (Text.contents source.toList) set ∧
          set.texts = ((Text.contents source.toList).map fullText).map String.ofList) ∧
      ∀ bad, parse source name = .error bad ↔
        ∃ before line after, source.toList.splitOn '\n' = before ++ line :: after ∧
          (∀ earlier ∈ before, IsRead earlier) ∧
          Blames source name (before.length + 1) (lineStart before) line bad ∧
          Marks before line bad := by
  refine ⟨exists_parse_eq_ok_iff, fun set hset => ?_, fun bad => ?_⟩
  · have hrules := parse_eq_ok_iff.mp hset
    exact ⟨hrules, hrules.texts_eq⟩
  · rw [parse_eq_error_iff]
    constructor
    · rintro ⟨before, line, after, hsplit, hbefore, hblames⟩
      exact ⟨before, line, after, hsplit, hbefore, hblames, hblames.marks hsplit⟩
    · rintro ⟨before, line, after, hsplit, hbefore, hblames, -⟩
      exact ⟨before, line, after, hsplit, hbefore, hblames⟩

/-- Blanks of several bytes stand around the pattern, and a line with a carriage return before
it counts once. -/
example : parse "é/\r\n\u3000\r\n \u3000[é \n" "rules" =
    .error ⟨3, "[é", .unclosedClass, "rules", "é/\r\n\u3000\r\n \u3000[é \n", 14⟩ := by
  rfl

end IgnoreRules

end Shipment
