import Shipment.Proofs.Loading
import Shipment.Proofs.Yaml.FaultBoundaries

/-!
# Labels of syntax errors

A syntax error is labelled in the text of its file.  The parser counts bytes, and the label
starts at its count: behind the characters that were read before the stop, so never inside a
character and never past the end of the text.
-/

namespace Shipment

/-- One byte is labelled, unless no text is left for it. -/
theorem Text.labelLength_le (back : List Char) :
    (if back = [] then 0 else 1) ≤ Text.byteLength back := by
  cases back with
  | nil => simp
  | cons c rest =>
      have hsize := c.utf8Size_pos
      rw [if_neg (List.cons_ne_nil c rest), Text.byteLength_cons]
      omega

/-- A fault behind a front of the text is labelled there. -/
theorem Yaml.LoadFault.span_of_append {fault : Yaml.LoadFault} {source : String}
    {front back : List Char} {mark : Yaml.Mark} (hsource : source.toList = front ++ back)
    (hmark : fault.mark? = some mark) (hindex : mark.index = Text.byteLength front) :
    fault.span source = (Text.byteLength front, if back = [] then 0 else 1) := by
  have hroom := Text.labelLength_le back
  simp only [Yaml.LoadFault.span, hmark, hindex, hsource, Text.byteLength_append]
  by_cases hback : back = []
  · simp [hback]
  · rw [if_neg hback] at hroom ⊢
    rw [Nat.min_eq_left (by omega), if_pos (by omega)]

namespace SourceDocument

/-- A document without a value has its fault between characters, also if its merge keys are
at fault: then there is no place. -/
theorem within_of_valueOf_error {source : List Char} {document : Yaml.Document}
    {fault : Yaml.LoadFault} (hdocument : document.Within source)
    (herror : valueOf document = .error fault) : fault.Within source := by
  unfold valueOf at herror
  split at herror
  · next hvalue =>
      cases herror
      exact hdocument.fault hvalue
  · split at herror
    · cases herror
      simp [Yaml.LoadFault.Within, Yaml.LoadFault.mark?]
    · cases herror

theorem within_of_ofSource_error {path source name text : String} {number : Nat}
    {fault : Yaml.LoadFault}
    (herror : ofSource path source = .error (.malformed name number text fault)) :
    text = source ∧ fault.Within source.toList := by
  unfold ofSource at herror
  split at herror
  · cases herror
  · obtain ⟨document, hdocument, failing, cause, hvalue, heq⟩ :=
      exists_mem_of_numbered_error herror
    cases heq
    exact ⟨rfl, within_of_valueOf_error (Yaml.within_documents _ document hdocument) hvalue⟩

/-- The label of a syntax error with a place is on the text of the file.  It starts behind the
characters before the stop, whose bytes the position counts, and stays within the text. -/
theorem labelled_behind_read_characters {path source name text : String} {number : Nat}
    {fault : Yaml.LoadFault} {mark : Yaml.Mark}
    (herror : ofSource path source = .error (.malformed name number text fault))
    (hmark : fault.mark? = some mark) :
    text = source ∧ ∃ front back label, source.toList = front ++ back ∧
      mark.index = Text.byteLength front ∧
      (CompileError.malformed name number text fault).label? = some label ∧
      label.offset = Text.byteLength front ∧
      label.length = (if back = [] then 0 else 1) ∧
      label.offset + label.length ≤ Text.byteLength source.toList := by
  obtain ⟨rfl, hwithin⟩ := within_of_ofSource_error herror
  obtain ⟨front, ⟨back, hsource⟩, hindex⟩ := hwithin mark hmark
  have hspan := Yaml.LoadFault.span_of_append hsource.symm hmark hindex
  have hend : Text.byteLength front + (if back = [] then 0 else 1) ≤
      Text.byteLength text.toList := by
    rw [← hsource, Text.byteLength_append]
    exact Nat.add_le_add_left (Text.labelLength_le back) _
  refine ⟨rfl, ?_⟩
  exact ⟨front, back, ⟨fault.message, Text.byteLength front, if back = [] then 0 else 1⟩,
    hsource.symm, hindex, by simp only [CompileError.label?, hspan], rfl, rfl, hend⟩

/-- A value that is a mapping on the line of its key. -/
def nestedOnOneLine : String :=
  "é: é: é"

/-- The second colon is the fifth character but the seventh byte. -/
def secondColon : Yaml.Fault :=
  ⟨.misplacedValue, ⟨6, 0, 4⟩, none⟩

set_option maxRecDepth 2000 in
theorem ofSource_nestedOnOneLine :
    ofSource "a.yaml" nestedOnOneLine =
      .error (.malformed "a.yaml" 1 nestedOnOneLine (.syntaxFault secondColon)) := by
  with_unfolding_all rfl

theorem nestedOnOneLine_labelled :
    ofSource "a.yaml" nestedOnOneLine =
        .error (.malformed "a.yaml" 1 nestedOnOneLine (.syntaxFault secondColon)) ∧
      ∃ front back label, nestedOnOneLine.toList = front ++ back ∧
        secondColon.mark.index = Text.byteLength front ∧
        (CompileError.malformed "a.yaml" 1 nestedOnOneLine (.syntaxFault secondColon)).label? =
          some label ∧
        label.offset = Text.byteLength front ∧
        label.length = (if back = [] then 0 else 1) ∧
        label.offset + label.length ≤ Text.byteLength nestedOnOneLine.toList :=
  ⟨ofSource_nestedOnOneLine, (labelled_behind_read_characters ofSource_nestedOnOneLine rfl).2⟩

/-- The position does not count characters: as many characters from the start of the text have
two bytes more. -/
theorem nestedOnOneLine_counts_bytes :
    ∃ fault mark label,
      ofSource "a.yaml" nestedOnOneLine =
        .error (.malformed "a.yaml" 1 nestedOnOneLine fault) ∧
      fault.mark? = some mark ∧ mark.index = 6 ∧
      (CompileError.malformed "a.yaml" 1 nestedOnOneLine fault).label? = some label ∧
      label.offset = 6 ∧
      Text.byteLength (nestedOnOneLine.toList.take mark.index) = 8 :=
  ⟨_, _, _, ofSource_nestedOnOneLine, rfl, rfl, rfl, by decide +kernel, by decide +kernel⟩

end SourceDocument

end Shipment
