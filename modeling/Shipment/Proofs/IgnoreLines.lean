import Shipment.Project
import Shipment.Proofs.Journal
import Shipment.Proofs.Text.Contents
import Shipment.Proofs.Text.Lines

/-!
# Patterns of the ignore file and of the options

The ignore file has a pattern on each line that is not blank, without the blanks
around it.  The options add patterns as they stand.  An added pattern is the same as
one more line of the file if it is not empty and has no blank at its ends; an empty
one or one with such blanks is another pattern than its line would be.
-/

namespace Shipment

namespace IgnoreRule

/-! ## Rules of patterns -/

/-- The rule is the one that the pattern is read as. -/
def IsRuleOf (raw : List Char) (rule : IgnoreRule) : Prop :=
  compile raw = .ok rule

theorem IsRuleOf.text_eq {raw : List Char} {rule : IgnoreRule} (hrule : IsRuleOf raw rule) :
    rule.text = String.ofList (fullText raw) := by
  simp only [IsRuleOf, compile] at hrule
  split at hrule
  · cases hrule
  · split at hrule
    · cases hrule
    · cases hrule
      rfl

/-! ## Patterns with blanks at their ends -/

/-- What is put in front of a pattern and behind it. -/
theorem exists_fullText_eq (raw : List Char) :
    ∃ front back, fullText raw = front ++ raw ++ back ∧
      (front = [] ∧ (raw.head? = some '/' ∨ raw.head? = some '*') ∨ front = "**/".toList) ∧
      (back = [] ∨ back = "**".toList ∧ raw.getLast? = some '/') := by
  refine ⟨_, _, rfl, ?_, ?_⟩
  · split
    · next hfront =>
        refine Or.inl ⟨rfl, ?_⟩
        simp only [startsWith, Bool.or_eq_true, List.isPrefixOf_iff_prefix] at hfront
        obtain ⟨rest, rfl⟩ | ⟨rest, rfl⟩ := hfront
        · exact Or.inl rfl
        · exact Or.inr rfl
    · exact Or.inr rfl
  · split
    · next hback =>
        simp only [endsWith, Bool.and_eq_true, List.isSuffixOf_iff_suffix] at hback
        obtain ⟨⟨rest, rfl⟩, -⟩ := hback
        exact Or.inr ⟨rfl, by simp⟩
    · exact Or.inl rfl

/-- The last character of a full text is blank exactly if that of the pattern is. -/
theorem isBlank_getLast?_fullText {raw : List Char} {c : Char} (hlast : raw.getLast? = some c) :
    ∃ d, (fullText raw).getLast? = some d ∧ Text.isBlank d = Text.isBlank c := by
  obtain ⟨front, back, htext, -, rfl | ⟨rfl, hslash⟩⟩ := exists_fullText_eq raw
  · exact ⟨c, by simp [htext, hlast], rfl⟩
  · obtain rfl : c = '/' := Option.some.inj (hlast.symm.trans hslash)
    exact ⟨'*', by simp [htext], rfl⟩

theorem fullText_ne_of_blank_before {b own : Char} (lead : List Char) {raw : List Char}
    (hb : Text.isBlank b = true) (hown : raw.head? = some own) (hownBlank : Text.isBlank own = false) :
    fullText raw ≠ fullText (b :: lead ++ raw) := by
  intro heq
  obtain ⟨front, back, htext, hfront, -⟩ := exists_fullText_eq (b :: lead ++ raw)
  obtain ⟨front', back', htext', hfront', hback'⟩ := exists_fullText_eq raw
  have hthree : front = "**/".toList := by
    obtain ⟨-, hslash | hstar⟩ | hthree := hfront
    · obtain rfl : b = '/' := Option.some.inj hslash
      cases hb
    · obtain rfl : b = '*' := Option.some.inj hstar
      cases hb
    · exact hthree
  have htwo : back'.length ≤ 2 := by
    obtain rfl | ⟨rfl, -⟩ := hback'
    · exact Nat.zero_le 2
    · exact Nat.le_refl 2
  rw [htext, htext', hthree] at heq
  obtain ⟨rfl, -⟩ | rfl := hfront'
  · have hlength := congrArg List.length heq
    simp at hlength
    omega
  · -- behind the same front, one pattern starts with a blank and the other does not
    simp only [List.append_assoc, List.append_cancel_left_eq] at heq
    have hhead := congrArg List.head? heq
    rw [List.head?_append, hown] at hhead
    obtain rfl : own = b := Option.some.inj hhead
    rw [hb] at hownBlank
    cases hownBlank

/-- A pattern with a blank at one of its ends is another pattern without it. -/
theorem fullText_trim_ne {raw : List Char} (hblank : Text.trim raw ≠ raw)
    (hcontent : Text.trim raw ≠ []) : fullText (Text.trim raw) ≠ fullText raw := by
  obtain ⟨lead, tail, hraw, hlead, htail⟩ := Text.exists_eq_append_trim raw
  cases htailLast : tail.getLast? with
  | some c =>
      intro heq
      have hlast : raw.getLast? = some c := by
        rw [hraw, List.getLast?_append, htailLast]
        rfl
      obtain ⟨own, hown⟩ := Option.ne_none_iff_exists'.mp (mt List.getLast?_eq_none_iff.mp hcontent)
      obtain ⟨d, hd, hdblank⟩ := isBlank_getLast?_fullText hown
      obtain ⟨e, he, heblank⟩ := isBlank_getLast?_fullText hlast
      obtain rfl : d = e := by simpa [heq, he] using hd.symm
      rw [heblank, Text.isBlank_of_getLast?_trim hown,
        htail c (List.mem_of_getLast? htailLast)] at hdblank
      cases hdblank
  | none =>
      obtain rfl : tail = [] := List.getLast?_eq_none_iff.mp htailLast
      rw [List.append_nil] at hraw
      cases lead with
      | nil => exact absurd hraw.symm hblank
      | cons b more =>
          obtain ⟨own, hown⟩ := Option.ne_none_iff_exists'.mp (mt List.head?_eq_none_iff.mp hcontent)
          have hne := fullText_ne_of_blank_before more (hlead b List.mem_cons_self) hown
            (Text.isBlank_of_head?_trim hown)
          rwa [← hraw] at hne

end IgnoreRule

open IgnoreRule (IsRuleOf fullText)

namespace IgnoreRules

/-! ## Patterns that are read -/

/-- The rules are those of the patterns, in the same order. -/
def AreRulesOf (patterns : List (List Char)) (set : IgnoreRules) : Prop :=
  List.Forall₂ IsRuleOf patterns set.rules

theorem readLines_eq_ok_iff {name source : String} {number offset : Nat}
    {lines : List (List Char)} {rules : List IgnoreRule} :
    readLines name source number offset lines = .ok rules ↔
      List.Forall₂ IsRuleOf ((lines.map Text.trim).filter (· ≠ [])) rules := by
  induction lines generalizing number offset rules with
  | nil => simp [readLines, List.forall₂_nil_left_iff, eq_comm]
  | cons line rest ih =>
      rw [readLines]
      cases hpattern : Text.trim line with
      | nil => simp [hpattern, ih]
      | cons c more =>
          simp only [List.isEmpty_cons, Bool.false_eq_true, if_false, List.map_cons, hpattern]
          rw [List.filter_cons_of_pos (by simp), List.forall₂_cons_left_iff]
          cases hcompile : IgnoreRule.compile (c :: more) with
          | error reason => simp [IsRuleOf, hcompile]
          | ok rule =>
              simp only [map_eq_ok, ih, IsRuleOf, hcompile, Except.ok.injEq]
              constructor
              · rintro ⟨others, hothers, rfl⟩
                exact ⟨rule, others, rfl, hothers, rfl⟩
              · rintro ⟨_, others, rfl, hothers, rfl⟩
                exact ⟨others, hothers, rfl⟩

theorem parse_eq_ok_iff {source name : String} {set : IgnoreRules} :
    parse source name = .ok set ↔ AreRulesOf (Text.contents source.toList) set := by
  rw [parse, map_eq_ok, AreRulesOf, ← Text.filter_map_trim_lines]
  simp only [readLines_eq_ok_iff]
  constructor
  · rintro ⟨rules, hrules, rfl⟩
    exact hrules
  · intro hrules
    exact ⟨set.rules, hrules, rfl⟩

/-- Rules are determined by their patterns. -/
theorem AreRulesOf.unique {patterns : List (List Char)} {set other : IgnoreRules}
    (hset : AreRulesOf patterns set) (hother : AreRulesOf patterns other) : set = other := by
  have hright : Relator.RightUnique IsRuleOf := by
    intro raw rule own hrule hown
    exact Except.ok.inj (hrule.symm.trans hown)
  obtain ⟨rules⟩ := set
  obtain ⟨others⟩ := other
  exact congrArg IgnoreRules.mk (List.right_unique_forall₂' hright hset hother)

theorem AreRulesOf.texts_eq {patterns : List (List Char)} {set : IgnoreRules}
    (hset : AreRulesOf patterns set) :
    set.texts = (patterns.map fullText).map String.ofList := by
  rw [texts, List.map_map]
  unfold AreRulesOf at hset
  generalize set.rules = rules at hset
  induction hset with
  | nil => rfl
  | cons hrule _ ih =>
      rw [List.map_cons, List.map_cons, ih, hrule.text_eq]
      rfl

/-- Patterns that are added stand behind those of the rules. -/
theorem addAll_eq_ok_iff {patterns : List (List Char)} {set more : IgnoreRules}
    {raws : List String} (hset : AreRulesOf patterns set) :
    set.addAll raws = .ok more ↔ AreRulesOf (patterns ++ raws.map String.toList) more := by
  induction raws generalizing patterns set with
  | nil =>
      rw [addAll, List.map_nil, List.append_nil, Except.ok.injEq]
      exact ⟨fun heq => heq ▸ hset, hset.unique⟩
  | cons raw rest ih =>
      rw [addAll, add]
      cases hcompile : IgnoreRule.compile raw.toList with
      | error reason =>
          simp only [reduceCtorEq, false_iff, AreRulesOf, forall₂_append_left_iff,
            List.map_cons, List.forall₂_cons_left_iff]
          rintro ⟨_, _, -, ⟨rule, _, hrule, -⟩, -⟩
          rw [IsRuleOf, hcompile] at hrule
          cases hrule
      | ok rule =>
          have hmore : AreRulesOf (patterns ++ [raw.toList]) ⟨set.rules ++ [rule]⟩ :=
            forall₂_append_left_iff.mpr ⟨_, _, hset, .cons hcompile .nil, rfl⟩
          simp only [ih hmore, List.append_assoc, List.map_cons, List.singleton_append]

/-! ## Patterns as lines -/

/-- The text goes on with the patterns, one on a line. -/
def withLines (text : String) (raws : List String) : String :=
  text ++ "\n" ++ String.intercalate "\n" raws

/-- As a line of its own, the pattern is read as it stands. -/
def IsLine (raw : String) : Prop :=
  raw ≠ "" ∧ Text.trim raw.toList = raw.toList

theorem contents_withLines (text : String) {raws : List String}
    (hlines : ∀ raw ∈ raws, ¬Text.HasLineFeed raw) :
    Text.contents (withLines text raws).toList =
      Text.contents text.toList ++
        ((raws.map String.toList).map Text.trim).filter (· ≠ []) := by
  have htext : (withLines text raws).toList =
      text.toList ++ '\n' :: ['\n'].intercalate (raws.map String.toList) := by
    simp [withLines, String.toList_intercalate]
  rw [htext, Text.contents_append_lineFeed]
  cases raws with
  | nil => rfl
  | cons raw rest =>
      have hparts : ∀ part ∈ (raw :: rest).map String.toList, '\n' ∉ part :=
        List.forall_mem_map.mpr hlines
      have hsplit := (Text.splitOn_intercalate_eq_iff (List.cons_ne_nil _ _)).mpr hparts
      exact congrArg (Text.contents text.toList ++ ·)
        (congrArg (fun parts => (parts.map Text.trim).filter (· ≠ [])) hsplit)

theorem filter_map_trim_eq_self {raws : List String} (hraws : ∀ raw ∈ raws, IsLine raw) :
    ((raws.map String.toList).map Text.trim).filter (· ≠ []) = raws.map String.toList := by
  have htrim : (raws.map String.toList).map Text.trim = raws.map String.toList := by
    rw [List.map_map, List.map_inj_left]
    exact fun raw hraw => (hraws raw hraw).2
  rw [htrim, List.filter_eq_self]
  simpa [List.forall_mem_map] using fun raw hraw => (hraws raw hraw).1

/-- Patterns and their lines have the same texts exactly if each of the patterns is
read as it stands. -/
theorem map_fullText_eq_iff {raws : List String} :
    (((raws.map String.toList).map Text.trim).filter (· ≠ [])).map fullText =
        (raws.map String.toList).map fullText ↔ ∀ raw ∈ raws, IsLine raw := by
  constructor
  · intro heq raw hraw
    have hlength := congrArg List.length heq
    simp only [List.length_map] at hlength
    have hfilter : ∀ line ∈ (raws.map String.toList).map Text.trim, line ≠ [] := by
      simpa using List.length_filter_eq_length_iff.mp (hlength.trans (by simp))
    have hcontent : Text.trim raw.toList ≠ [] :=
      hfilter _ (List.mem_map_of_mem (List.mem_map_of_mem hraw))
    rw [List.filter_eq_self.mpr (by simpa using hfilter), List.map_map, List.map_inj_left] at heq
    have htext : fullText (Text.trim raw.toList) = fullText raw.toList :=
      heq _ (List.mem_map_of_mem hraw)
    have htrim : Text.trim raw.toList = raw.toList := by
      by_contra hblank
      exact IgnoreRule.fullText_trim_ne hblank hcontent htext
    refine ⟨?_, htrim⟩
    rintro rfl
    exact hcontent rfl
  · intro hraws
    rw [filter_map_trim_eq_self hraws]

end IgnoreRules

namespace Project

open IgnoreRules (AreRulesOf IsLine withLines)

/-- The text of the project's ignore file; a file that is not there has none. -/
inductive HasIgnoreText (p : Project) : String → Prop
  | file {text : String}
      (hread : p.files.readText (FilePath.join p.root p.options.ignoreFile) = .ok text) :
      HasIgnoreText p text
  | noFile
      (hread : p.files.readText (FilePath.join p.root p.options.ignoreFile) = .error .notFound) :
      HasIgnoreText p ""

variable {p : Project} {text : String}

theorem value_ofFile_eq_ok_iff (htext : p.HasIgnoreText text) {set : IgnoreRules} :
    (IgnoreRules.ofFile p.files (FilePath.join p.root p.options.ignoreFile)).value = .ok set ↔
      AreRulesOf (Text.contents text.toList) set := by
  cases htext with
  | file hread =>
      have hparse : ∀ name, IgnoreRules.parse text name = .ok set ↔
          AreRulesOf (Text.contents text.toList) set := fun _ => IgnoreRules.parse_eq_ok_iff
      rw [IgnoreRules.ofFile, hread]
      simp only [Noted.value_after, Noted.value_plain]
      rw [← hparse (Text.ofBytes (FilePath.join p.root p.options.ignoreFile))]
      cases IgnoreRules.parse text (Text.ofBytes (FilePath.join p.root p.options.ignoreFile)) with
      | ok rules => simp
      | error bad => simp
  | noFile hread =>
      have hempty : AreRulesOf (Text.contents "".toList) .empty := .nil
      rw [IgnoreRules.ofFile, hread]
      simp only [Noted.value_after, Noted.value_plain, Except.ok.injEq]
      exact ⟨fun heq => heq ▸ hempty, hempty.unique⟩

/-- The rules of a project are those of the lines of its ignore file, and then those
of the patterns of its options as they stand. -/
theorem value_ignoreRules_eq_ok_iff (htext : p.HasIgnoreText text) {set : IgnoreRules} :
    p.ignoreRules.value = .ok set ↔
      AreRulesOf (Text.contents text.toList ++ p.options.extraIgnore.map String.toList) set := by
  simp only [ignoreRules, Noted.value_andThen_eq_ok, value_ofFile_eq_ok_iff htext,
    Noted.value_plain]
  constructor
  · rintro ⟨base, hbase, hset⟩
    cases hadd : base.addAll p.options.extraIgnore with
    | error bad =>
        rw [hadd] at hset
        cases hset
    | ok rules =>
        rw [hadd] at hset
        cases hset
        exact (IgnoreRules.addAll_eq_ok_iff hbase).mp hadd
  · intro hset
    obtain ⟨first, -, hfirst, -⟩ := forall₂_append_left_iff.mp hset
    refine ⟨⟨first⟩, hfirst, ?_⟩
    rw [(IgnoreRules.addAll_eq_ok_iff hfirst).mpr hset]

/-- The patterns of the options may be written as further lines of the ignore file if
each of them is read as it stands as a line: the rules are then the same, or there are
none for both.  Where both have rules, those have the same patterns in no other case. -/
theorem ignoreRules_as_lines_iff (htext : p.HasIgnoreText text)
    (hlines : ∀ raw ∈ p.options.extraIgnore, ¬Text.HasLineFeed raw) (name : String) :
    ((∀ raw ∈ p.options.extraIgnore, IsLine raw) →
      ∀ set, p.ignoreRules.value = .ok set ↔
        IgnoreRules.parse (withLines text p.options.extraIgnore) name = .ok set) ∧
    ∀ set lined, p.ignoreRules.value = .ok set →
      IgnoreRules.parse (withLines text p.options.extraIgnore) name = .ok lined →
        (set.texts = lined.texts ↔ ∀ raw ∈ p.options.extraIgnore, IsLine raw) := by
  simp only [value_ignoreRules_eq_ok_iff htext, IgnoreRules.parse_eq_ok_iff,
    IgnoreRules.contents_withLines text hlines]
  constructor
  · intro hraws set
    rw [IgnoreRules.filter_map_trim_eq_self hraws]
  · intro set lined hset hlined
    have hinjective : Function.Injective String.ofList := fun _ _ => String.ofList_injective
    rw [hset.texts_eq, hlined.texts_eq, ← IgnoreRules.map_fullText_eq_iff,
      List.map_inj_right hinjective, List.map_append, List.map_append,
      List.append_cancel_left_eq]
    exact eq_comm

/-- A project without an ignore file, whose options add the empty pattern. -/
def emptyPattern : Project where
  files := ⟨FileTree.empty.put ["p", "a.yml"] (.file (some "note: c\n")), []⟩
  root := "/p"
  options := Options.standard.withExtraIgnore ""

theorem hasIgnoreText_emptyPattern : emptyPattern.HasIgnoreText "" :=
  .noFile rfl

/-- The empty pattern excludes every directory, and an empty line excludes nothing. -/
theorem emptyPattern_is_no_line :
    ∃ set lined, emptyPattern.ignoreRules.value = .ok set ∧
      IgnoreRules.parse (withLines "" [""]) "lines" = .ok lined ∧ set.texts ≠ lined.texts ∧
      set.excludes "src" true = true ∧ lined.excludes "src" true = false := by
  have hlines : ∀ raw ∈ emptyPattern.options.extraIgnore, ¬Text.HasLineFeed raw := by decide
  obtain ⟨-, htexts⟩ := ignoreRules_as_lines_iff hasIgnoreText_emptyPattern hlines "lines"
  have hset : emptyPattern.ignoreRules.value =
      .ok ⟨[⟨"**/", [.anyRun, .literal '/']⟩]⟩ := by rfl
  have hlined : IgnoreRules.parse (withLines "" [""]) "lines" = .ok .empty := by rfl
  refine ⟨_, _, hset, hlined, ?_, by decide, by decide⟩
  intro htext
  exact ((htexts _ _ hset hlined).mp htext "" (List.mem_singleton_self _)).1 rfl

end Project

end Shipment
