import Shipment.Ignore
import Shipment.Proofs.Glob.Expression

/-!
# What ignore rules match

A rule matches the paths in the language of its full text, read by the rules of
the glob grammar from left to right.  This is also the language of the regular
expression that is written for the text, but for paths with line feeds.
-/

namespace Shipment

/-- The language of a glob text: that of the pieces the grammar reads from it. -/
def Glob.textLanguage (text : List Char) : Language Char :=
  {path | ∃ pieces, Reads false text pieces [] ∧ path ∈ sequenceLanguage pieces}

theorem Glob.mem_textLanguage_iff {text path : List Char} {pieces : List Glob}
    (hread : read text = .ok pieces) :
    path ∈ textLanguage text ↔ path ∈ sequenceLanguage pieces := by
  constructor
  · rintro ⟨others, hothers, hpath⟩
    obtain rfl : pieces = others := by
      rw [← read_eq_ok_iff, hread] at hothers
      exact Except.ok.inj hothers
    exact hpath
  · intro hpath
    exact ⟨pieces, read_eq_ok_iff.mp hread, hpath⟩

namespace IgnoreRule

theorem read_of_compile {raw : List Char} {rule : IgnoreRule} (hcompile : compile raw = .ok rule) :
    Glob.read (fullText raw) = .ok rule.pieces := by
  simp only [compile] at hcompile
  split at hcompile
  · cases hcompile
  · next hread =>
      split at hcompile
      · cases hcompile
      · cases hcompile
        exact hread

theorem matchesPath_iff_mem_lineLanguage {rule : IgnoreRule} {path : List Char} :
    rule.matchesPath path = true ↔ path ∈ Glob.lineLanguage rule.pieces :=
  Glob.matchesAll_iff_mem_lineLanguage

/-- A rule matches exactly the paths in the language of the expression that is written for
its full text, with every escape that stands there. -/
theorem exists_expression_of_compile {raw : List Char} {rule : IgnoreRule}
    (hcompile : compile raw = .ok rule) :
    ∃ body language, Glob.expression (fullText raw) = .ok body ∧
      Expression.Whole body language ∧ ∀ path, rule.matchesPath path = true ↔ path ∈ language := by
  have hreads := Glob.read_eq_ok_iff.mp (read_of_compile hcompile)
  obtain ⟨body, hbody, hwhole⟩ := hreads.exists_expression
  exact ⟨body, _, hbody, hwhole, fun _ => matchesPath_iff_mem_lineLanguage⟩

/-- A rule matches exactly the paths in the language of its full text, as long
as a path has no line feed. -/
theorem matchesPath_iff_mem_textLanguage {raw path : List Char} {rule : IgnoreRule}
    (hcompile : compile raw = .ok rule) (hpath : '\n' ∉ path) :
    rule.matchesPath path = true ↔ path ∈ Glob.textLanguage (fullText raw) := by
  rw [Glob.mem_textLanguage_iff (read_of_compile hcompile)]
  exact Glob.matchesAll_iff hpath

theorem nested_choice_matches :
    "/logs/a.txt".toList ∈ Glob.textLanguage (fullText "logs/[!b-z]*.{t{x,}t,md}".toList) := by
  have hmatches : (compile "logs/[!b-z]*.{t{x,}t,md}".toList).toOption.map
      (·.matchesPath "/logs/a.txt".toList) = some true := by
    decide +kernel
  cases hcompile : compile "logs/[!b-z]*.{t{x,}t,md}".toList with
  | error e =>
      rw [hcompile] at hmatches
      cases hmatches
  | ok rule =>
      rw [hcompile] at hmatches
      exact (matchesPath_iff_mem_textLanguage hcompile (by decide)).mp (Option.some.inj hmatches)

end IgnoreRule

end Shipment
