import Shipment.Proofs.Glob.Expression
import Shipment.Proofs.Ignore

/-!
# Patterns that are refused

A pattern is refused for its syntax exactly if the glob grammar does not generate its full
text, and the error is that of the first construct that cannot be completed.  A pattern that
the grammar generates is handed on as a well-formed regular expression, so nothing but the
limits on that expression can be in its way.
-/

namespace Shipment

namespace Glob

/-- Closing brackets, and outside braces commas and closing braces, are characters like any
other. -/
def IsOrdinary (depth : Nat) (c : Char) : Prop :=
  c = ']' ∨ depth = 0 ∧ isSeparator c = true

theorem IsOrdinary.readsPiece {depth : Nat} {c : Char} (hc : IsOrdinary depth c)
    (rest : List Char) : ReadsPiece (depth != 0) (c :: rest) (.literal c) rest := by
  obtain rfl | ⟨rfl, hseparator⟩ := hc
  · exact .plain (by decide) (fun _ => by decide) rest
  · rw [isSeparator, Bool.or_eq_true, beq_iff_eq, beq_iff_eq] at hseparator
    have hspecial : isSpecial c = false := by
      rcases hseparator with rfl | rfl <;> decide
    exact .plain hspecial (by simp) rest

/-- Faults do not depend on what was read before, only on the number of open braces. -/
theorem breaks_iff_of_readsPiece {depth : Nat} {text rest : List Char} {piece : Glob}
    (hpiece : ReadsPiece (depth != 0) text piece rest) {e : GlobError} :
    Breaks depth text e ↔ Breaks depth rest e := by
  let stack : List OpenChoice := List.replicate depth ⟨[], []⟩
  have hdepth : stack.length = depth := List.length_replicate
  have hinside : stack.isEmpty = !(depth != 0) := by
    cases depth <;> rfl
  have hread := readPieces_of_readsPiece hpiece hinside []
  have htext : readPieces stack [] text = .error e ↔ Breaks stack.length text e :=
    readPieces_eq_error_iff
  rw [← hdepth, ← htext, hread, readPieces_eq_error_iff]

theorem Breaks.ne_tooDeep {depth : Nat} {text : List Char} {e : GlobError}
    (hbreaks : Breaks depth text e) : e ≠ .tooDeep := by
  induction hbreaks with
  | here hfault =>
      cases hfault with
      | escape => simp
      | ended => simp
      | inClass _ _ _ hclass => cases hclass <;> simp
  | later _ _ ih => exact ih

theorem exists_breaks_iff {text : List Char} :
    (∃ e, Breaks 0 text e) ↔ ¬∃ pieces, Reads false text pieces [] := by
  simp only [← read_eq_error_iff, ← read_eq_ok_iff]
  cases read text <;> simp

end Glob

namespace IgnoreRule

/-- A pattern has a syntax error, or its braces are nested too deeply. -/
theorem compile_eq_error_iff {raw : List Char} {e : GlobError} :
    compile raw = .error e ↔ Glob.Breaks 0 (fullText raw) e ∨
      e = .tooDeep ∧ ∃ pieces, Glob.Reads false (fullText raw) pieces [] ∧
        Glob.depthLimit < 1 + Glob.maxDepth pieces := by
  rw [← Glob.read_eq_error_iff]
  simp only [← Glob.read_eq_ok_iff, compile]
  cases Glob.read (fullText raw) with
  | error other => simp
  | ok pieces =>
      by_cases hdeep : Glob.depthLimit < 1 + Glob.maxDepth pieces <;> simp [hdeep, eq_comm]

theorem syntax_error_iff_breaks {raw : List Char} {e : GlobError} :
    (compile raw = .error e ∧ e ≠ .tooDeep) ↔ Glob.Breaks 0 (fullText raw) e := by
  rw [compile_eq_error_iff]
  constructor
  · rintro ⟨hbreaks | ⟨htooDeep, -⟩, hne⟩
    · exact hbreaks
    · exact absurd htooDeep hne
  · intro hbreaks
    exact ⟨Or.inl hbreaks, hbreaks.ne_tooDeep⟩

theorem compile_eq_tooDeep_iff {raw : List Char} {pieces : List Glob}
    (hpieces : Glob.Reads false (fullText raw) pieces []) :
    compile raw = .error .tooDeep ↔ Glob.depthLimit < 1 + Glob.maxDepth pieces := by
  rw [compile, Glob.read_eq_ok_iff.mpr hpieces]
  by_cases hdeep : Glob.depthLimit < 1 + Glob.maxDepth pieces <;> simp [hdeep]

/-- The syntax error of a pattern is the fault of the first construct of its full text that
cannot be completed, and there is one exactly if the grammar does not generate this text.  The
expression of a pattern fails in the same way, and else it is well formed, so that a pattern
without a syntax error is refused only if the expression is nested beyond the limit. -/
theorem syntax_errors_exact (raw : List Char) :
    ((∃ e, compile raw = .error e ∧ e ≠ .tooDeep) ↔
        ¬∃ pieces, Glob.Reads false (fullText raw) pieces []) ∧
      (∀ e, (compile raw = .error e ∧ e ≠ .tooDeep) ↔ Glob.Breaks 0 (fullText raw) e) ∧
      (∀ depth c, Glob.IsOrdinary depth c → ∀ rest e,
        Glob.Breaks depth (c :: rest) e ↔ Glob.Breaks depth rest e) ∧
      (∀ e, Glob.expression (fullText raw) = .error e ↔ Glob.Breaks 0 (fullText raw) e) ∧
      (∀ body, Glob.expression (fullText raw) = .ok body →
        ∃ pieces, Glob.Reads false (fullText raw) pieces [] ∧
          Expression.Whole body (Glob.lineLanguage pieces) ∧
          (compile raw = .error .tooDeep ↔ Glob.depthLimit < 1 + Glob.maxDepth pieces)) := by
  refine ⟨?_, fun e => syntax_error_iff_breaks, ?_, fun e => Glob.expression_eq_error_iff, ?_⟩
  · simp only [syntax_error_iff_breaks]
    exact Glob.exists_breaks_iff
  · intro depth c hc rest e
    exact Glob.breaks_iff_of_readsPiece (hc.readsPiece rest)
  · intro body hbody
    have hreads : ∃ pieces, Glob.Reads false (fullText raw) pieces [] := by
      by_contra hnone
      obtain ⟨e, hbreaks⟩ := Glob.exists_breaks_iff.mpr hnone
      cases hbody.symm.trans (Glob.expression_eq_error_iff.mpr hbreaks)
    obtain ⟨pieces, hpieces⟩ := hreads
    obtain ⟨own, hown, hwhole⟩ := hpieces.exists_expression
    obtain rfl : own = body := Except.ok.inj (hown.symm.trans hbody)
    exact ⟨pieces, hpieces, hwhole, compile_eq_tooDeep_iff hpieces⟩

/-- A range that ends below its start comes before the end of the text inside the brace. -/
theorem rangeInBrace_refused :
    compile "\x7ba,[z-a".toList = .error (.invalidRange 'z' 'a') ∧
      GlobError.invalidRange 'z' 'a' ≠ .tooDeep := by
  obtain ⟨-, hfirst, -, -, -⟩ := syntax_errors_exact "\x7ba,[z-a".toList
  apply (hfirst _).mpr
  have hrange : Glob.Breaks 1 ['[', 'z', '-', 'a'] (.invalidRange 'z' 'a') := by
    refine .here (.inClass 1 (.plain fun c hc => ?_) (.none _)
      (.range [] (.plain (by decide) _) (by decide) (by decide)))
    cases hc
    rfl
  have hinside : Glob.Breaks 1 ['a', ',', '[', 'z', '-', 'a'] (.invalidRange 'z' 'a') :=
    .later (.piece (.plain (by decide) (fun _ => by decide) _)) (.later (.comma 0 _) hrange)
  have hslash : Glob.Breaks 0 ('/' :: '\x7b' :: ['a', ',', '[', 'z', '-', 'a'])
      (.invalidRange 'z' 'a') :=
    .later (.piece (.plain (by decide) (by decide) _)) (.later (.brace 0 _) hinside)
  exact .later (.piece (.anyRun _ _)) hslash

end IgnoreRule

end Shipment
