import Mathlib.Tactic.MkIffOfInductiveProp
import Shipment.Diagnostic
import Shipment.Proofs.Journal
import Shipment.Proofs.Text.Lines

/-!
# Diagnostics as lines

A list of failures is rendered as the texts of their diagnostics with line feeds
between them, or not at all if one of them cannot be traced.  The name of a
document is quoted and keeps to its line.  The path, the type, the location and
the reason are printed as they stand, so each failure has one line exactly if
these have no line feed.
-/

namespace Shipment.Diagnostic

/-- The texts that are printed as they stand have no line feed. -/
@[mk_iff]
structure IsOneLine (d : Diagnostic) : Prop where
  path : ¬Text.HasLineFeed d.path
  kind : ∀ kind name, d.resource = .named kind name → ¬Text.HasLineFeed kind
  field : ∀ field, d.field = some field → ¬Text.HasLineFeed field
  reason : ¬Text.HasLineFeed d.reason

theorem hasLineFeed_resource {resource : Resource} :
    Text.HasLineFeed resource.text ↔
      ∃ kind name, resource = .named kind name ∧ Text.HasLineFeed kind := by
  cases resource with
  | document number =>
      have hword : ¬Text.HasLineFeed "document " := by decide
      simp [Resource.text, Text.hasLineFeed_append, Text.not_hasLineFeed_repr, hword]
  | named kind name =>
      have hspace : ¬Text.HasLineFeed " " := by decide
      simp [Resource.text, Text.hasLineFeed_append, Text.not_hasLineFeed_quoted, hspace]

theorem not_hasLineFeed_text_iff {d : Diagnostic} : ¬Text.HasLineFeed d.text ↔ d.IsOneLine := by
  obtain ⟨path, resource, field, reason⟩ := d
  have hinvalid : ¬Text.HasLineFeed ": invalid " := by decide
  have hcolon : ¬Text.HasLineFeed ": " := by decide
  rw [isOneLine_iff]
  cases field <;>
    simp [text, Text.hasLineFeed_append, hasLineFeed_resource, hinvalid, hcolon, and_assoc]

/-- A line starts with the path of the file. -/
theorem path_starts_text (d : Diagnostic) : d.path.toList <+: d.text.toList := by
  simp [text, List.append_assoc]

/-- Rendering is a pass over the failures that traces each of them. -/
theorem render_eq_forEach (m : Manifest) (failures : List ValidationFailure) :
    render m failures =
      (Noted.forEach (fun failure => .plain (ofFailure m failure)) failures).value.map
        fun ds => String.intercalate "\n" (ds.map text) := by
  have hlines : lines (ofFailures m failures) =
      (Noted.forEach (fun failure => .plain (ofFailure m failure)) failures).value.map
        (List.map text) := by
    induction failures with
    | nil => rfl
    | cons failure rest ih =>
        rw [Noted.value_forEach_cons, Noted.value_plain]
        rw [ofFailures] at ih
        simp only [ofFailures, List.map_cons]
        cases ofFailure m failure with
        | error e => rfl
        | ok d =>
            simp only [lines, ih]
            cases (Noted.forEach (fun failure => .plain (ofFailure m failure)) rest).value <;> rfl
  rw [render, hlines]
  cases (Noted.forEach (fun failure => .plain (ofFailure m failure)) failures).value <;> rfl

variable {m : Manifest} {failures : List ValidationFailure}

/-- The first failure that cannot be traced decides the error. -/
theorem render_eq_error_iff {e : DiagnosticError} :
    render m failures = .error e ↔
      ∃ before failure after, failures = before ++ failure :: after ∧
        (∀ earlier ∈ before, ∃ d, ofFailure m earlier = .ok d) ∧
        ofFailure m failure = .error e := by
  rw [render_eq_forEach, map_eq_error, Noted.value_forEach_eq_error]
  rfl

theorem render_eq_ok_iff {text : String} :
    render m failures = .ok text ↔
      ∃ ds, List.Forall₂ (fun failure d => ofFailure m failure = .ok d) failures ds ∧
        String.intercalate "\n" (ds.map Diagnostic.text) = text := by
  rw [render_eq_forEach, map_eq_ok]
  simp only [Noted.value_forEach_eq_ok, Noted.value_plain]

theorem toList_intercalate_text (ds : List Diagnostic) :
    (String.intercalate "\n" (ds.map text)).toList =
      ['\n'].intercalate (ds.map (·.text.toList)) := by
  rw [String.toList_intercalate, List.map_map]
  rfl

theorem forall_isOneLine_iff {ds : List Diagnostic} :
    (∀ line ∈ ds.map (·.text.toList), '\n' ∉ line) ↔ ∀ d ∈ ds, d.IsOneLine := by
  rw [List.forall_mem_map]
  exact forall₂_congr fun d _ => not_hasLineFeed_text_iff

/-- Failures are rendered unless one of them cannot be traced, and then the first
such decides the error.  Each line starts with the path of its file.  The lines
are those of the diagnostics, one for each failure, exactly if no text that is
printed as it stands has a line feed. -/
theorem render_one_line_each_iff (m : Manifest) {failures : List ValidationFailure}
    (hfailures : failures ≠ []) :
    (∀ e, render m failures = .error e ↔
      ∃ before failure after, failures = before ++ failure :: after ∧
        (∀ earlier ∈ before, ∃ d, ofFailure m earlier = .ok d) ∧
        ofFailure m failure = .error e) ∧
    ∀ text, render m failures = .ok text →
      ∃ ds, List.Forall₂ (fun failure d => ofFailure m failure = .ok d) failures ds ∧
        text = String.intercalate "\n" (ds.map Diagnostic.text) ∧
        (∀ d ∈ ds, d.path.toList <+: d.text.toList) ∧
        ((text.toList.splitOn '\n').length = failures.length ↔ ∀ d ∈ ds, d.IsOneLine) ∧
        (text.toList.splitOn '\n' = ds.map (·.text.toList) ↔ ∀ d ∈ ds, d.IsOneLine) := by
  refine ⟨fun e => render_eq_error_iff, ?_⟩
  intro text hrender
  obtain ⟨ds, hds, rfl⟩ := render_eq_ok_iff.mp hrender
  have hlength : failures.length = (ds.map (·.text.toList)).length := by
    rw [List.length_map, hds.length_eq]
  have hlines : ds.map (·.text.toList) ≠ [] := by
    intro hnil
    rw [hnil] at hlength
    exact hfailures (List.length_eq_zero_iff.mp hlength)
  refine ⟨ds, hds, rfl, fun d _ => path_starts_text d, ?_, ?_⟩
  · rw [toList_intercalate_text, hlength, Text.length_splitOn_intercalate_eq_iff hlines,
      forall_isOneLine_iff]
  · rw [toList_intercalate_text, Text.splitOn_intercalate_eq_iff hlines, forall_isOneLine_iff]

/-- A manifest of one document. -/
def oneEntry : Manifest := ⟨[⟨⟨"a.yaml", 1⟩, .object []⟩]⟩

/-- A failure with a reason of two lines. -/
def twoLineFailure : ValidationFailure := ⟨"/specs/0", "first\nsecond"⟩

theorem ofFailure_twoLineFailure :
    ofFailure oneEntry twoLineFailure =
      .ok ⟨"a.yaml", .document 1, none, "first\nsecond"⟩ := by
  rfl

theorem twoLineFailure_has_two_lines :
    [twoLineFailure] ≠ [] ∧
      ∃ text, render oneEntry [twoLineFailure] = .ok text ∧
        (text.toList.splitOn '\n').length ≠ [twoLineFailure].length := by
  have hne : [twoLineFailure] ≠ [] := List.cons_ne_nil _ _
  obtain ⟨-, hlines⟩ := render_one_line_each_iff oneEntry hne
  have htraced : List.Forall₂ (fun failure d => ofFailure oneEntry failure = .ok d)
      [twoLineFailure] [⟨"a.yaml", .document 1, none, "first\nsecond"⟩] :=
    .cons ofFailure_twoLineFailure .nil
  have hrender := render_eq_ok_iff.mpr ⟨_, htraced, rfl⟩
  obtain ⟨ds, hds, -, -, hlength, -⟩ := hlines _ hrender
  refine ⟨hne, _, hrender, fun hone => ?_⟩
  obtain ⟨d, hmem, hd⟩ := exists_mem_right hds List.mem_cons_self
  have hreason := (hlength.mp hone d hmem).reason
  rw [ofFailure_twoLineFailure] at hd
  cases hd
  exact hreason (by decide)

end Shipment.Diagnostic
