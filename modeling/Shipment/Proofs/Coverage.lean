import Mathlib.Data.List.TakeWhile
import Shipment.Proofs.Glob.Endings
import Shipment.Proofs.Ignore
import Shipment.Proofs.Text.Lines

/-!
# What lies below a directory

A pattern that is not anchored excludes a path at any depth, and a pattern that ends
in a slash excludes all that lies below the directories it excludes.  Both rest on the
two stars that a full text begins or ends with, and these stand for no line feed: the
paths for which this holds of every pattern are exactly those in which the part that
the stars stand for has none.
-/

namespace Shipment

open Text (HasLineFeed)

namespace IgnoreRule

/-! ## Full texts -/

/-- The pattern ends in a slash that does not follow two stars between slashes. -/
def EndsInSlash (raw : List Char) : Prop :=
  ['/'] <:+ raw ∧ ¬"/**/".toList <:+ raw

theorem exists_fullText_of_not_anchored {raw : List Char} (hraw : raw.head? ≠ some '/') :
    ∃ rest, fullText raw = '*' :: '*' :: '/' :: rest := by
  have hslash : startsWith ['/'] raw = false := by
    rw [startsWith, Bool.eq_false_iff, ne_eq, List.isPrefixOf_iff_prefix]
    rintro ⟨rest, rfl⟩
    exact hraw rfl
  unfold fullText
  rw [hslash, Bool.false_or]
  by_cases hstars : startsWith "**/".toList raw = true
  · obtain ⟨rest, rfl⟩ := List.isPrefixOf_iff_prefix.mp hstars
    exact ⟨_, by rw [if_pos hstars]; rfl⟩
  · exact ⟨_, by rw [if_neg hstars]; rfl⟩

theorem exists_fullText_of_endsInSlash {raw : List Char} (hraw : EndsInSlash raw) :
    ∃ front, fullText raw = front ++ ['/', '*', '*'] := by
  obtain ⟨⟨front, rfl⟩, hstars⟩ := hraw
  have hback : (endsWith ['/'] (front ++ ['/']) && !endsWith "/**/".toList (front ++ ['/'])) =
      true := by
    rw [Bool.and_eq_true, Bool.not_eq_true', endsWith, endsWith, List.isSuffixOf_iff_suffix,
      Bool.eq_false_iff, ne_eq, List.isSuffixOf_iff_suffix]
    exact ⟨List.suffix_append _ _, hstars⟩
  simp only [fullText, hback, if_true, List.append_assoc]
  exact ⟨_, (List.append_assoc _ front _).symm⟩

/-! ## Where the stars stand -/

section

variable {raw : List Char} {rule : IgnoreRule}

/-- What a pattern matches that is not anchored: a slash with something behind it,
wherever the slash stands. -/
theorem exists_matchesPath_iff_of_not_anchored (hcompile : compile raw = .ok rule)
    (hraw : raw.head? ≠ some '/') :
    ∃ L : Language Char, ∀ path, rule.matchesPath path = true ↔
      ∃ front back, path = front ++ '/' :: back ∧ '\n' ∉ front ∧ back ∈ L := by
  obtain ⟨rest, htext⟩ := exists_fullText_of_not_anchored hraw
  have hread := read_of_compile hcompile
  rw [htext, Glob.read, Glob.readPieces, Glob.readPieces_plain rfl (by simp)] at hread
  obtain ⟨more, -, hpieces⟩ := Glob.finishes_of_readPieces hread
  refine ⟨Glob.lineLanguage more, fun path => ?_⟩
  have hlanguage : Glob.lineLanguage rule.pieces =
      Glob.runOf (· ≠ '\n') * (Glob.oneChar (· = '/') * Glob.lineLanguage more) := by
    rw [hpieces]
    rfl
  rw [matchesPath_iff_mem_lineLanguage, hlanguage, Language.mem_mul]
  constructor
  · rintro ⟨front, hfront, tail, htail, rfl⟩
    obtain ⟨back, hback, rfl⟩ := Glob.mem_oneChar_mul.mp htail
    exact ⟨front, back, rfl, fun hfeed => hfront _ hfeed rfl, hback⟩
  · rintro ⟨front, back, rfl, hfront, hback⟩
    refine ⟨front, fun c hc hfeed => hfront (hfeed ▸ hc), '/' :: back, ?_, rfl⟩
    exact Glob.mem_oneChar_mul.mpr ⟨back, hback, rfl⟩

/-- What a pattern matches that ends in a slash: a slash behind something, with all that
follows it. -/
theorem exists_matchesPath_iff_of_endsInSlash (hcompile : compile raw = .ok rule)
    (hraw : EndsInSlash raw) :
    ∃ L : Language Char, ∀ path, rule.matchesPath path = true ↔
      ∃ front back, path = front ++ '/' :: back ∧ front ∈ L ∧ '\n' ∉ back := by
  obtain ⟨start, htext⟩ := exists_fullText_of_endsInSlash hraw
  have hread := read_of_compile hcompile
  rw [htext, Glob.read_eq_ok_iff] at hread
  obtain ⟨more, hpieces⟩ := hread.exists_append_slash_anyRun
  refine ⟨Glob.lineLanguage more, fun path => ?_⟩
  have hlanguage : Glob.lineLanguage rule.pieces =
      Glob.lineLanguage more * (Glob.oneChar (· = '/') * Glob.runOf (· ≠ '\n')) := by
    rw [hpieces, Glob.lineLanguage, Glob.sequenceLanguageOver_append]
    simp only [Glob.sequenceLanguageOver, Glob.languageOver, mul_one, Glob.lineLanguage]
  rw [matchesPath_iff_mem_lineLanguage, hlanguage, Language.mem_mul]
  constructor
  · rintro ⟨front, hfront, tail, htail, rfl⟩
    obtain ⟨back, hback, rfl⟩ := Glob.mem_oneChar_mul.mp htail
    exact ⟨front, back, rfl, hfront, fun hfeed => hback _ hfeed rfl⟩
  · rintro ⟨front, back, rfl, hfront, hback⟩
    refine ⟨front, hfront, '/' :: back, Glob.mem_oneChar_mul.mpr ⟨back, ?_, rfl⟩, rfl⟩
    exact fun c hc hfeed => hback (hfeed ▸ hc)

/-- The stars in front stand for whatever comes before a path that is matched. -/
theorem matchesPath_append_left (hcompile : compile raw = .ok rule) (hraw : raw.head? ≠ some '/')
    {before path : List Char} (hbefore : '\n' ∉ before) (hpath : rule.matchesPath path = true) :
    rule.matchesPath (before ++ path) = true := by
  obtain ⟨L, hmatches⟩ := exists_matchesPath_iff_of_not_anchored hcompile hraw
  obtain ⟨front, back, rfl, hfront, hback⟩ := (hmatches path).mp hpath
  have hfeed : '\n' ∉ before ++ front := by simp [hbefore, hfront]
  exact (hmatches _).mpr ⟨before ++ front, back, by simp, hfeed, hback⟩

/-- The stars at the end stand for whatever follows a path that is matched. -/
theorem matchesPath_append_right (hcompile : compile raw = .ok rule) (hraw : EndsInSlash raw)
    {path more : List Char} (hmore : '\n' ∉ more) (hpath : rule.matchesPath path = true) :
    rule.matchesPath (path ++ more) = true := by
  obtain ⟨L, hmatches⟩ := exists_matchesPath_iff_of_endsInSlash hcompile hraw
  obtain ⟨front, back, rfl, hfront, hback⟩ := (hmatches path).mp hpath
  have hfeed : '\n' ∉ back ++ more := by simp [hback, hmore]
  exact (hmatches _).mpr ⟨front, back ++ more, by simp, hfront, hfeed⟩

end

end IgnoreRule

/-! ## Excluded paths -/

/-- The set that holds one rule. -/
def IgnoreRule.alone (rule : IgnoreRule) : IgnoreRules :=
  ⟨[rule]⟩

/-- A path without the slashes it starts with. -/
def unanchored (path : List Char) : List Char :=
  path.dropWhile (· == '/')

theorem IgnoreRule.excludes_file {rule : IgnoreRule} {path : String} :
    rule.alone.excludes path false = true ↔
      rule.matchesPath ('/' :: unanchored path.toList) = true := by
  simp [alone, IgnoreRules.excludes, IgnoreRules.matchesPath, unanchored]

theorem IgnoreRule.excludes_directory {rule : IgnoreRule} {path : String} :
    rule.alone.excludes path true = true ↔
      rule.matchesPath ('/' :: unanchored path.toList) = true ∨
        rule.matchesPath ('/' :: unanchored path.toList ++ ['/']) = true := by
  simp [alone, IgnoreRules.excludes, IgnoreRules.matchesPath, unanchored]

theorem eq_slash_of_mem_takeWhile {path : List Char} {c : Char}
    (hc : c ∈ path.takeWhile (· == '/')) : c = '/' := by
  simpa using List.mem_takeWhile_imp hc

theorem mem_unanchored {path : List Char} {c : Char} (hc : c ∈ path) (hslash : c ≠ '/') :
    c ∈ unanchored path := by
  rw [← List.takeWhile_append_dropWhile (p := (· == '/')) (l := path), List.mem_append] at hc
  exact hc.resolve_left fun hmem => hslash (eq_slash_of_mem_takeWhile hmem)

theorem unanchored_below {directory : List Char} (hname : ∃ c ∈ directory, c ≠ '/')
    (rest : List Char) : unanchored (directory ++ rest) = unanchored directory ++ rest := by
  have hsome : (directory.dropWhile (· == '/')).isEmpty = false := by
    rw [Bool.eq_false_iff, ne_eq, List.isEmpty_iff, List.dropWhile_eq_nil_iff]
    obtain ⟨c, hc, hslash⟩ := hname
    exact fun hall => hslash (beq_iff_eq.mp (hall c hc))
  rw [unanchored, List.dropWhile_append, if_neg (by simp [hsome])]
  rfl

theorem slash_cons_takeWhile (path : List Char) :
    '/' :: path.takeWhile (· == '/') = path.takeWhile (· == '/') ++ ['/'] := by
  rw [List.eq_replicate_of_mem fun _ => eq_slash_of_mem_takeWhile, ← List.replicate_succ,
    List.replicate_succ']

theorem toList_below (directory rest : String) :
    (directory ++ "/" ++ rest).toList = directory.toList ++ '/' :: rest.toList := by
  simp

/-- A path below a directory is the anchored path behind some other text. -/
theorem exists_anchored_below (directory path : List Char) :
    ∃ front, '/' :: unanchored (directory ++ '/' :: path) = front ++ '/' :: unanchored path ∧
      ∀ c ∈ front, c = '/' ∨ c ∈ directory := by
  by_cases hname : ∃ c ∈ directory, c ≠ '/'
  · refine ⟨'/' :: unanchored directory ++ path.takeWhile (· == '/'), ?_, fun c hc => ?_⟩
    · calc '/' :: unanchored (directory ++ '/' :: path)
          = '/' :: unanchored directory ++
              '/' :: (path.takeWhile (· == '/') ++ unanchored path) := by
            rw [unanchored_below hname, unanchored, unanchored, List.takeWhile_append_dropWhile]
            rfl
        _ = '/' :: unanchored directory ++ path.takeWhile (· == '/') ++ '/' :: unanchored path := by
            rw [← List.cons_append, slash_cons_takeWhile]
            simp
    · simp only [List.mem_append, List.mem_cons] at hc
      obtain (hslash | hmem) | hmem := hc
      · exact Or.inl hslash
      · exact Or.inr ((List.dropWhile_sublist _).subset hmem)
      · exact Or.inl (eq_slash_of_mem_takeWhile hmem)
  · have hslashes : ∀ c ∈ directory, (c == '/') = true := by simpa using hname
    refine ⟨[], ?_, by simp⟩
    rw [unanchored, List.dropWhile_append_of_pos hslashes]
    rfl

namespace IgnoreRule

variable {raw : List Char} {rule : IgnoreRule}

/-- A pattern that is not anchored goes on excluding a path in a deeper directory. -/
theorem excludes_below (hcompile : compile raw = .ok rule) (hraw : raw.head? ≠ some '/')
    {directory : String} (hdirectory : ¬HasLineFeed directory) {path : String}
    (hpath : rule.alone.excludes path false = true) :
    rule.alone.excludes (directory ++ "/" ++ path) false = true := by
  obtain ⟨front, hbelow, hfront⟩ := exists_anchored_below directory.toList path.toList
  rw [excludes_file] at hpath ⊢
  rw [toList_below, hbelow]
  refine matchesPath_append_left hcompile hraw (fun hfeed => ?_) hpath
  obtain hslash | hmem := hfront _ hfeed
  · cases hslash
  · exact hdirectory hmem

/-- A pattern that ends in a slash excludes what lies below an excluded directory. -/
theorem excludes_contents (hcompile : compile raw = .ok rule) (hraw : EndsInSlash raw)
    {directory : String} (hname : ∃ c ∈ directory.toList, c ≠ '/')
    (hdirectory : rule.alone.excludes directory true = true) {rest : String}
    (hrest : ¬HasLineFeed rest) :
    rule.alone.excludes (directory ++ "/" ++ rest) false = true := by
  have hrest : '\n' ∉ rest.toList := hrest
  rw [excludes_directory] at hdirectory
  rw [excludes_file, toList_below, unanchored_below hname, ← List.cons_append]
  obtain hfile | hslash := hdirectory
  · exact matchesPath_append_right hcompile hraw (by simpa using hrest) hfile
  · rw [List.append_cons]
    exact matchesPath_append_right hcompile hraw hrest hslash

/-! ## Exactly where this holds of every pattern -/

/-- Whatever excludes a path at some depth excludes it below this directory too. -/
def KeepsExcluded (directory : String) : Prop :=
  ∀ raw rule path, compile raw = .ok rule → raw.head? ≠ some '/' →
    rule.alone.excludes path false = true →
      rule.alone.excludes (directory ++ "/" ++ path) false = true

/-- Whatever excludes a directory by a slash at its end excludes this below it. -/
def FallsWithDirectory (rest : String) : Prop :=
  ∀ raw rule directory, compile raw = .ok rule → EndsInSlash raw →
    (∃ c ∈ directory.toList, c ≠ '/') → rule.alone.excludes directory true = true →
      rule.alone.excludes (directory ++ "/" ++ rest) false = true

/-- The rule of the pattern `b`. -/
def anyB : IgnoreRule :=
  ⟨"**/b", [.anyRun, .literal '/', .literal 'b']⟩

/-- The rule of the pattern `b/`. -/
def belowB : IgnoreRule :=
  ⟨"**/b/**", [.anyRun, .literal '/', .literal 'b', .literal '/', .anyRun]⟩

theorem compile_anyB : compile "b".toList = .ok anyB := by
  cbv

theorem compile_belowB : compile "b/".toList = .ok belowB := by
  cbv

theorem not_excludes_of_hasLineFeed
    (hpieces : ∀ piece ∈ rule.pieces, piece = .anyRun ∨ ∃ c, c ≠ '\n' ∧ piece = .literal c)
    {path : String} (hpath : HasLineFeed path) : rule.alone.excludes path false ≠ true := by
  rw [ne_eq, excludes_file, matchesPath_iff_mem_lineLanguage]
  intro hmem
  refine Glob.lineFeed_notMem_of_mem_lineLanguage hpieces hmem (List.mem_cons_of_mem _ ?_)
  exact mem_unanchored hpath (by decide)

/-- Patterns that are not anchored hold at any depth, and patterns that end in a slash
hold of all that lies below, exactly where the path that is added has no line feed. -/
theorem keeps_and_falls_iff (directory rest : String) :
    (KeepsExcluded directory ↔ ¬HasLineFeed directory) ∧
      (FallsWithDirectory rest ↔ ¬HasLineFeed rest) := by
  refine ⟨⟨fun hkeeps hfeed => ?_, fun hnone raw rule path hcompile hraw hpath => ?_⟩,
    fun hfalls hfeed => ?_, fun hnone raw rule below hcompile hraw hname hbelow => ?_⟩
  · have hexcluded := hkeeps "b".toList anyB "b" compile_anyB (by decide) (by cbv)
    refine not_excludes_of_hasLineFeed (by simp [anyB]) ?_ hexcluded
    rw [Text.hasLineFeed_append, Text.hasLineFeed_append]
    exact Or.inl (Or.inl hfeed)
  · exact excludes_below hcompile hraw hnone hpath
  · have hexcluded := hfalls "b/".toList belowB "b" compile_belowB ⟨by decide, by decide⟩
      ⟨'b', by decide, by decide⟩ (by cbv)
    refine not_excludes_of_hasLineFeed (by simp [belowB]) ?_ hexcluded
    rw [Text.hasLineFeed_append]
    exact Or.inr hfeed
  · exact excludes_contents hcompile hraw hname hbelow hnone

/-- The directory `b` is excluded, and a file in it with a line feed in its name is not. -/
theorem belowB_lineFeed :
    belowB.alone.excludes "b" true = true ∧ belowB.alone.excludes "b/x\ny" false = false ∧
      ¬FallsWithDirectory "x\ny" ∧ ¬KeepsExcluded "x\ny" := by
  have hfeed : HasLineFeed "x\ny" := by decide
  obtain ⟨hkeeps, hfalls⟩ := keeps_and_falls_iff "x\ny" "x\ny"
  exact ⟨by cbv, by cbv, fun hown => hfalls.mp hown hfeed, fun hown => hkeeps.mp hown hfeed⟩

end IgnoreRule

end Shipment
