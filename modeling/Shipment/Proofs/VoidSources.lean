import Shipment.Proofs.Loading
import Shipment.Proofs.Text.Contents
import Shipment.Proofs.Text.Lines
import Shipment.Yaml.Cursor

/-!
# Sources without documents

A source has no documents if each of its lines, cut at line feeds, is blank or goes on
with a comment after its blanks.  YAML ends lines at other characters as well and takes
fewer characters for blanks.  So every source that has no content for YAML has no
documents, but some with content have none either: where a comment ends at another
line break and the line goes on, and where other blanks stand in a line.
-/

namespace Shipment

/-- Every line of a text is empty, all gaps, or a comment behind gaps. -/
def LinesIdle (isEnd isGap : Char → Bool) (text : List Char) : Prop :=
  ∀ line ∈ text.splitOnP isEnd, ∀ c, (line.dropWhile isGap).head? = some c → c = '#'

namespace Yaml

/-- A text without content.  A carriage return and its line feed end a line only once;
the empty line between them makes no difference here. -/
def NoContent (text : List Char) : Prop :=
  LinesIdle isBreak isSpaceOrTab text

/-! ## Content, character by character -/

theorem noContent_nil : NoContent [] := by
  simp [NoContent, LinesIdle]

theorem noContent_break {c : Char} (hbreak : isBreak c = true) (rest : List Char) :
    NoContent (c :: rest) ↔ NoContent rest := by
  simp [NoContent, LinesIdle, List.splitOnP_cons_eq_if_modifyHead, hbreak]

/-- The first line of a text, and what comes from its end on. -/
theorem noContent_iff_firstLine (text : List Char) :
    NoContent text ↔
      (∀ c, ((text.takeWhile (!isBreak ·)).dropWhile isSpaceOrTab).head? = some c → c = '#') ∧
        NoContent (text.dropWhile (!isBreak ·)) := by
  have hfirst : ∀ c ∈ text.takeWhile (!isBreak ·), isBreak c = false := by
    intro c hc
    simpa using List.mem_takeWhile_imp hc
  have htext : text.takeWhile (!isBreak ·) ++ text.dropWhile (!isBreak ·) = text :=
    List.takeWhile_append_dropWhile
  generalize text.takeWhile (!isBreak ·) = first at *
  cases hrest : text.dropWhile (!isBreak ·) with
  | nil =>
      rw [hrest, List.append_nil] at htext
      rw [← htext, NoContent, LinesIdle, List.splitOnP_eq_singleton hfirst]
      simp [noContent_nil]
  | cons b rest =>
      have hbreak : isBreak b = true := by
        have hhead := List.head?_dropWhile_not (!isBreak ·) text
        simpa [hrest] using hhead
      rw [hrest] at htext
      rw [noContent_break hbreak, ← htext, NoContent, LinesIdle,
        List.splitOnP_append_cons_of_forall_mem hfirst b hbreak, List.forall_mem_cons]
      rfl

theorem noContent_gap {c : Char} (hgap : isSpaceOrTab c = true) (rest : List Char) :
    NoContent (c :: rest) ↔ NoContent rest := by
  have hbreak : isBreak c = false := by
    rcases (by simpa [isSpaceOrTab] using hgap : c = ' ' ∨ c = '\t') with rfl | rfl
    all_goals rfl
  rw [noContent_iff_firstLine, noContent_iff_firstLine rest]
  simp [hbreak, hgap]

/-- A comment goes on to the end of its line. -/
theorem noContent_comment (rest : List Char) :
    NoContent ('#' :: rest) ↔ NoContent (rest.dropWhile (!isBreak ·)) := by
  rw [noContent_iff_firstLine]
  simp [isBreak, isSpaceOrTab]

theorem not_noContent {c : Char} (hgap : isGap c = false) (hcomment : c ≠ '#')
    (rest : List Char) : ¬NoContent (c :: rest) := by
  obtain ⟨hspace, hbreak⟩ := Bool.or_eq_false_iff.mp hgap
  rw [noContent_iff_firstLine]
  simp [hspace, hbreak, hcomment]

/-! ## Content, line by line -/

theorem isBlank_of_isGap {c : Char} (hgap : isGap c = true) : Text.isBlank c = true := by
  simp only [isGap, isSpaceOrTab, isBreak, Bool.or_eq_true, beq_iff_eq] at hgap
  rcases hgap with (rfl | rfl) | (((rfl | rfl) | rfl) | rfl) | rfl
  all_goals rfl

theorem noContent_of_isGap {c : Char} (hgap : isGap c = true) (rest : List Char) :
    NoContent (c :: rest) ↔ NoContent rest := by
  obtain hspace | hbreak := Bool.or_eq_true_iff.mp hgap
  · exact noContent_gap hspace rest
  · exact noContent_break hbreak rest

/-- A line has no content if it is blank or goes on with a comment after its blanks, its
blanks are gaps, and nothing follows the comment. -/
theorem noContent_iff (line : List Char) :
    NoContent line ↔
      (∀ c, (line.dropWhile Text.isBlank).head? = some c → c = '#') ∧
        (∀ c ∈ line.takeWhile Text.isBlank, isGap c = true) ∧
          NoContent ((line.dropWhile Text.isBlank).dropWhile (!isBreak ·)) := by
  induction line with
  | nil => simp [noContent_nil]
  | cons c rest ih =>
      cases hblank : Text.isBlank c with
      | true =>
          rw [List.dropWhile_cons_of_pos hblank, List.takeWhile_cons_of_pos hblank,
            List.forall_mem_cons]
          cases hgap : isGap c with
          | true => simp [noContent_of_isGap hgap, ih]
          | false =>
              have hcomment : c ≠ '#' := by
                rintro rfl
                cases hblank
              simp [not_noContent hgap hcomment]
      | false =>
          have hgap : isGap c = false := by
            by_contra hgap
            rw [isBlank_of_isGap (by simpa using hgap)] at hblank
            cases hblank
          have hneg : ¬Text.isBlank c = true := by simp [hblank]
          rw [List.dropWhile_cons_of_neg hneg, List.takeWhile_cons_of_neg hneg]
          by_cases hcomment : c = '#'
          · subst hcomment
            simp [noContent_comment, isBreak]
          · simp [not_noContent hgap hcomment, hcomment]

theorem noContent_iff_lines (text : List Char) :
    NoContent text ↔ ∀ line ∈ text.splitOn '\n', NoContent line := by
  have hfeed : isBreak '\n' = true := rfl
  simp only [NoContent, LinesIdle, Text.splitOnP_eq_flatMap_splitOn hfeed text, List.mem_flatMap]
  constructor
  · intro h line hline part hpart
    exact h part ⟨line, hline, hpart⟩
  · rintro h part ⟨line, hline, hpart⟩
    exact h line hline part hpart

/-- In every line, cut at line feeds, the blanks in front are gaps, and there is no
content behind another line break that ends a comment. -/
def NothingHidden (text : List Char) : Prop :=
  ∀ line ∈ text.splitOn '\n',
    (∀ c ∈ line.takeWhile Text.isBlank, isGap c = true) ∧
      NoContent ((line.dropWhile Text.isBlank).dropWhile (!isBreak ·))

theorem noContent_iff_linesIdle (text : List Char) :
    NoContent text ↔ LinesIdle (· == '\n') Text.isBlank text ∧ NothingHidden text := by
  simp only [noContent_iff_lines text, LinesIdle, NothingHidden, ← List.splitOn_eq_splitOnP,
    ← forall₂_and]
  exact forall₂_congr fun line _ => noContent_iff line

end Yaml

namespace SourceDocument

theorem isVoidLine_iff {line : List Char} :
    isVoidLine line = true ↔ ∀ c, (Text.trim line).head? = some c → c = '#' := by
  unfold isVoidLine
  split
  · next hnil => simp [hnil]
  · next c rest hcons => simp [hcons]

/-- Whether lines are cut with their line feeds or without makes no difference. -/
theorem isVoid_iff {source : String} :
    isVoid source = true ↔ LinesIdle (· == '\n') Text.isBlank source.toList := by
  have hcontents : ∀ cut : List (List Char),
      (∀ content ∈ (cut.map Text.trim).filter (· ≠ []), ∀ c, content.head? = some c → c = '#') ↔
        ∀ line ∈ cut, ∀ c, (Text.trim line).head? = some c → c = '#' := by
    intro cut
    simp only [List.mem_filter, List.mem_map]
    constructor
    · intro h line hline c hc
      refine h (Text.trim line) ⟨⟨line, hline, rfl⟩, ?_⟩ c hc
      simp only [decide_eq_true_eq]
      rintro hnil
      simp [hnil] at hc
    · rintro h _ ⟨⟨line, hline, rfl⟩, -⟩ c hc
      exact h line hline c hc
  simp only [isVoid, List.all_eq_true, isVoidLine_iff]
  rw [← hcontents, Text.filter_map_trim_lines, Text.contents, hcontents]
  simp only [Text.head?_trim, Text.trimStart, LinesIdle, ← List.splitOn_eq_splitOnP]

theorem collect_ne_nil (fault : Option Yaml.Fault) (draft : Yaml.Document.Draft)
    (events : List (Yaml.Event × Yaml.Mark)) :
    Yaml.Document.collect fault true draft events ≠ [] := by
  induction events generalizing draft with
  | nil => cases fault <;> simp [Yaml.Document.collect]
  | cons event rest ih =>
      obtain ⟨event, mark⟩ := event
      cases event with
      | aliasTo name =>
          rw [Yaml.Document.collect]
          split
          · exact ih _
          · simp
      | documentEnd => simp [Yaml.Document.collect]
      | _ => exact ih _

/-- A text is read as one document at least, be it cut short or without a value. -/
theorem documents_ne_nil (text : List Char) : Yaml.documents text ≠ [] :=
  collect_ne_nil _ _ _

/-- A source that is not void has a document or a syntax error. -/
theorem ofSource_of_not_void (path : String) {source : String} (hvoid : isVoid source = false) :
    (∃ document rest, ofSource path source = .ok (document :: rest)) ∨
      ∃ number fault, ofSource path source = .error (.malformed path number source fault) := by
  rw [ofSource, if_neg (by simp [hvoid])]
  cases hfound : numbered path source 1 (Yaml.documents source.toList) with
  | error e =>
      obtain ⟨-, -, number, fault, -, rfl⟩ := exists_mem_of_numbered_error hfound
      exact Or.inr ⟨number, fault, rfl⟩
  | ok found =>
      have hlength := (forall₂_numbered hfound).length_eq
      cases found with
      | nil => exact absurd (List.length_eq_zero_iff.mp hlength) (documents_ne_nil _)
      | cons document rest => exact Or.inl ⟨document, rest, rfl⟩

theorem ofSource_eq_nil_iff {path source : String} :
    ofSource path source = .ok [] ↔ isVoid source = true := by
  constructor
  · intro hnone
    by_contra hvoid
    obtain ⟨document, rest, hfound⟩ | ⟨number, fault, hfound⟩ :=
      ofSource_of_not_void path (Bool.eq_false_iff.mpr hvoid)
    all_goals
      rw [hnone] at hfound
      cases hfound
  · intro hvoid
    rw [ofSource, if_pos hvoid]

/-- A source has no documents exactly if every line, cut at line feeds, is blank or a
comment behind blanks; any other has a document or a syntax error.  A source without
content for YAML has no documents, and one without documents has no content unless
something is hidden by its blanks or behind its comments. -/
theorem no_documents_iff_linesIdle (path source : String) :
    (ofSource path source = .ok [] ↔ LinesIdle (· == '\n') Text.isBlank source.toList) ∧
      (Yaml.NoContent source.toList ↔
        ofSource path source = .ok [] ∧ Yaml.NothingHidden source.toList) ∧
      (ofSource path source = .ok [] ∨
        (∃ document rest, ofSource path source = .ok (document :: rest)) ∨
        ∃ number fault, ofSource path source = .error (.malformed path number source fault)) := by
  rw [Yaml.noContent_iff_linesIdle, ← isVoid_iff, ofSource_eq_nil_iff]
  refine ⟨Iff.rfl, Iff.rfl, ?_⟩
  cases hvoid : isVoid source with
  | true => exact Or.inl rfl
  | false => exact Or.inr (ofSource_of_not_void path hvoid)

/-- A comment that ends at a carriage return, and a mapping on the next line. -/
def commentBeforeReturn : String :=
  "# notes\rname: x\r"

set_option maxRecDepth 2000 in
theorem value_commentBeforeReturn :
    (Yaml.documents commentBeforeReturn.toList).map (·.value) =
      [.ok (.mapping [(.string "name", .string "x")])] := by
  with_unfolding_all rfl

/-- The mapping behind the comment is read as a document, but the source has none. -/
theorem commentBeforeReturn_hides_document :
    ofSource "old.yml" commentBeforeReturn = .ok [] ∧
      ¬Yaml.NoContent commentBeforeReturn.toList ∧
      (Yaml.documents commentBeforeReturn.toList).map (·.value) =
        [.ok (.mapping [(.string "name", .string "x")])] := by
  obtain ⟨-, hcontent, -⟩ := no_documents_iff_linesIdle "old.yml" commentBeforeReturn
  have hhidden : ¬Yaml.NothingHidden commentBeforeReturn.toList := by
    intro hnothing
    have hline : commentBeforeReturn.toList ∈ commentBeforeReturn.toList.splitOn '\n' := by
      decide
    have hbehind : Yaml.NoContent "\rname: x\r".toList := (hnothing _ hline).2
    exact Yaml.not_noContent rfl (by decide) _ ((Yaml.noContent_break rfl _).mp hbehind)
  refine ⟨ofSource_eq_nil_iff.mpr (by decide +kernel), fun h => hhidden (hcontent.mp h).2,
    value_commentBeforeReturn⟩

end SourceDocument

end Shipment
