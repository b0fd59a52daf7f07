import Mathlib.Data.List.Sort
import Shipment.Proofs.IgnoreLines
import Shipment.Proofs.ListedEntries

/-!
# Searches under combined ignore rules

A rule only takes entries away, be it by itself or together with the directory above them.
So a search under more patterns finds no more files, and one under two lists of patterns
together finds those that it finds under each of them.
-/

namespace Shipment

namespace IgnoreRules

variable {P Q : List (List Char)} {left right both : IgnoreRules}

theorem excludes_iff (set : IgnoreRules) {relative : String} {isDirectory : Bool} :
    set.excludes relative isDirectory = true ↔ ∃ rule ∈ set.rules,
      excludes ⟨[rule]⟩ relative isDirectory = true := by
  simp only [excludes, matchesPath, Bool.or_eq_true, Bool.and_eq_true, List.any_eq_true,
    List.mem_singleton, exists_eq_left]
  constructor
  · rintro (⟨rule, hrule, hpath⟩ | ⟨hkind, rule, hrule, hpath⟩)
    · exact ⟨rule, hrule, Or.inl hpath⟩
    · exact ⟨rule, hrule, Or.inr ⟨hkind, hpath⟩⟩
  · rintro ⟨rule, hrule, hpath | ⟨hkind, hpath⟩⟩
    · exact Or.inl ⟨rule, hrule, hpath⟩
    · exact Or.inr ⟨hkind, rule, hrule, hpath⟩

/-- The rules of two lists of patterns together exclude what those of either one exclude. -/
theorem AreRulesOf.excludes_append (hleft : AreRulesOf P left) (hright : AreRulesOf Q right)
    (hboth : AreRulesOf (P ++ Q) both) (relative : String) (isDirectory : Bool) :
    both.excludes relative isDirectory =
      (left.excludes relative isDirectory || right.excludes relative isDirectory) := by
  have happend : AreRulesOf (P ++ Q) ⟨left.rules ++ right.rules⟩ :=
    forall₂_append_left_iff.mpr ⟨_, _, hleft, hright, rfl⟩
  rw [hboth.unique happend, Bool.eq_iff_iff, Bool.or_eq_true, excludes_iff, excludes_iff left,
    excludes_iff right]
  simp only [List.mem_append, or_and_right, exists_or]

/-- More patterns exclude more. -/
theorem AreRulesOf.excludes_mono (hleft : AreRulesOf P left) (hright : AreRulesOf Q right)
    (hsubset : P ⊆ Q) {relative : String} {isDirectory : Bool}
    (hexcluded : left.excludes relative isDirectory = true) :
    right.excludes relative isDirectory = true := by
  rw [excludes_iff] at hexcluded ⊢
  obtain ⟨rule, hrule, hpath⟩ := hexcluded
  obtain ⟨raw, hraw, hcompile⟩ := exists_mem_left hleft hrule
  obtain ⟨other, hother, hsame⟩ := exists_mem_right hright (hsubset hraw)
  obtain rfl : rule = other := Except.ok.inj (hcompile.symm.trans hsame)
  exact ⟨rule, hother, hpath⟩

end IgnoreRules

namespace Search

open FilePath (textOf)

variable {s : Search} {left right both : IgnoreRules} {base : FileTree}

theorem keeps_under {relative : String} {path : FilePath} {name : FileName} :
    (s.under left).keeps relative path name = true ↔
      s.files.leadsToDirectory path = false ∧ s.options.isCandidate (Text.ofBytes name) = true ∧
        left.excludes relative false = false := by
  simp [keeps, under, and_assoc]

/-! ## Names that are read alike -/

section Alike

variable {names other : List FileName}

/-- Rules go by names as they are read. -/
theorem included_of_alike {rules : IgnoreRules}
    (hincluded : ∀ front, front <+: other → front ≠ [] →
      rules.excludes (textOf front) true = false)
    (halike : names.map Text.ofBytes = other.map Text.ofBytes) :
    ∀ front, front <+: names → front ≠ [] → rules.excludes (textOf front) true = false := by
  intro front hfront hne
  have hread : front.map Text.ofBytes <+: other.map Text.ofBytes := halike ▸ hfront.map Text.ofBytes
  obtain ⟨same, hsame, hmap⟩ := List.prefix_map_iff.mp hread
  have hsame_ne : same ≠ [] := by
    rintro rfl
    exact hne (List.map_eq_nil_iff.mp hmap)
  have htext : textOf front = textOf same := congrArg (String.intercalate "/") hmap
  rw [htext]
  exact hincluded same hsame hsame_ne

/-- An entry that one search lists is listed under other rules too, if these list an entry with
names that are read alike. -/
theorem Lists.of_alike {above front : List FileName} {name last : FileName}
    (hleft : (s.under left).Lists base above name) (hright : (s.under right).Lists base front last)
    (halike : (above ++ [name]).map Text.ofBytes = (front ++ [last]).map Text.ofBytes) :
    (s.under right).Lists base above name where
  entered := by
    have habove : above.map Text.ofBytes = front.map Text.ofBytes := by
      rw [List.map_append, List.map_append] at halike
      exact (List.append_inj' halike rfl).1
    exact ⟨hleft.entered.directory, hleft.entered.visible,
      included_of_alike hright.entered.included habove⟩
  visible := hleft.visible
  entry := hleft.entry
  kept := by
    have htext : textOf (above ++ [name]) = textOf (front ++ [last]) :=
      congrArg (String.intercalate "/") halike
    obtain ⟨hleads, hcandidate, -⟩ := keeps_under.mp hleft.kept
    obtain ⟨-, -, hincluded⟩ := keeps_under.mp hright.kept
    exact keeps_under.mpr ⟨hleads, hcandidate, htext ▸ hincluded⟩

theorem ListsAt.of_alike (hfiles : s.files.tree.WellFormed) {place place' : List FileName}
    {tree tree' : FileTree} (hleft : (s.under left).ListsAt names place tree)
    (hright : (s.under right).ListsAt other place' tree') (htext : textOf names = textOf other) :
    (s.under right).ListsAt names place tree := by
  have halike : names.map Text.ofBytes = other.map Text.ofBytes :=
    FilePath.map_ofBytes_eq_of_textOf_eq (ListsAt.isPart (s := s.under left) hfiles hleft)
      (ListsAt.isPart (s := s.under right) hfiles hright) htext
  cases hleft with
  | below hroot hlists htree =>
      cases hright with
      | below hroot' hlists' htree' =>
          cases hroot.symm.trans hroot'
          exact .below hroot (hlists.of_alike hlists' halike) htree
      | root hroot' hkept => simp at halike
  | root hroot hkept =>
      cases hright with
      | below hroot' hlists' htree' => simp at halike
      | root hroot' hkept' => exact .root hroot hkept'

end Alike

/-! ## More rules -/

section More

variable (hmore : ∀ {relative isDirectory}, left.excludes relative isDirectory = true →
  right.excludes relative isDirectory = true)

include hmore

theorem included_of_more {relative : String} {isDirectory : Bool}
    (hincluded : right.excludes relative isDirectory = false) :
    left.excludes relative isDirectory = false :=
  Bool.eq_false_iff.mpr fun hexcluded => by simp [hmore hexcluded] at hincluded

theorem keeps_of_more {relative : String} {path : FilePath} {name : FileName}
    (hkept : (s.under right).keeps relative path name = true) :
    (s.under left).keeps relative path name = true := by
  obtain ⟨hleads, hcandidate, hincluded⟩ := keeps_under.mp hkept
  exact keeps_under.mpr ⟨hleads, hcandidate, included_of_more hmore hincluded⟩

theorem Enters.of_more {names : List FileName} (h : (s.under right).Enters base names) :
    (s.under left).Enters base names where
  directory := h.directory
  visible := h.visible
  included front hfront hne := included_of_more hmore (h.included front hfront hne)

theorem Lists.of_more {above : List FileName} {name : FileName}
    (h : (s.under right).Lists base above name) : (s.under left).Lists base above name where
  entered := h.entered.of_more hmore
  visible := h.visible
  entry := h.entry
  kept := keeps_of_more hmore h.kept

theorem ListsAt.of_more {names place : List FileName} {tree : FileTree}
    (h : (s.under right).ListsAt names place tree) : (s.under left).ListsAt names place tree := by
  cases h with
  | below hroot hlists htree => exact .below hroot (hlists.of_more hmore) htree
  | root hroot hkept => exact .root hroot (keeps_of_more hmore hkept)

/-- A search that succeeds does so under more rules, since it enters fewer directories. -/
theorem exists_resourceFiles_of_more (hfiles : s.files.tree.WellFormed)
    (hleft : ∃ found, (s.under left).resourceFiles.value = .ok found) :
    ∃ found, (s.under right).resourceFiles.value = .ok found := by
  cases s.rootCase with
  | directory hroot =>
      rw [exists_resourceFiles_iff (s := s.under right) hfiles hroot]
      intro names hne henters
      exact (exists_resourceFiles_iff (s := s.under left) hfiles hroot).mp hleft names hne
        (henters.of_more hmore)
  | entry hroot hleads hwalk => exact ⟨_, value_resourceFiles_eq_ok.mpr ⟨_, hwalk right, rfl⟩⟩
  | unread cause hwalk =>
      obtain ⟨_, hfound⟩ := hleft
      obtain ⟨found, hfound, -⟩ := value_resourceFiles_eq_ok.mp hfound
      cases (hwalk left).symm.trans hfound

theorem subset_of_more (hfiles : s.files.tree.WellFormed) {found fewer : List String}
    (hleft : (s.under left).resourceFiles.value = .ok found)
    (hright : (s.under right).resourceFiles.value = .ok fewer) : fewer ⊆ found := by
  intro path hpath
  obtain ⟨names, rfl, place, tree, hlists⟩ :=
    (mem_resourceFiles_iff (s := s.under right) hfiles hright).mp hpath
  exact (mem_resourceFiles_iff (s := s.under left) hfiles hleft).mpr
    ⟨names, rfl, place, tree, hlists.of_more hmore⟩

/-- Since entries with the same path are listed together, the smaller listing is a part of the
larger one. -/
theorem eq_filter_of_more (hfiles : s.files.tree.WellFormed) {found fewer : List String}
    (hleft : (s.under left).resourceFiles.value = .ok found)
    (hright : (s.under right).resourceFiles.value = .ok fewer) :
    fewer = found.filter (· ∈ fewer) := by
  refine eq_filter_of_listsAt_iff (s := s.under left) (t := s.under right) hfiles hfiles hleft
    hright fun names => ?_
  rw [decide_eq_true_eq, mem_resourceFiles_iff (s := s.under right) hfiles hright]
  constructor
  · rintro ⟨place, tree, hlists⟩
    exact ⟨⟨place, tree, hlists.of_more hmore⟩, names, rfl, place, tree, hlists⟩
  · rintro ⟨⟨place, tree, hlists⟩, other, htext, place', tree', hother⟩
    exact ⟨place, tree, hlists.of_alike hfiles hother htext⟩

end More

/-! ## Two lists of rules -/

section Both

variable (hboth : ∀ relative isDirectory, both.excludes relative isDirectory =
  (left.excludes relative isDirectory || right.excludes relative isDirectory))

include hboth

theorem keeps_both {relative : String} {path : FilePath} {name : FileName}
    (hleft : (s.under left).keeps relative path name = true)
    (hright : (s.under right).keeps relative path name = true) :
    (s.under both).keeps relative path name = true := by
  obtain ⟨hleads, hcandidate, hincluded⟩ := keeps_under.mp hleft
  obtain ⟨-, -, hincluded'⟩ := keeps_under.mp hright
  exact keeps_under.mpr ⟨hleads, hcandidate, by rw [hboth, hincluded, hincluded']; rfl⟩

theorem Enters.of_both {names : List FileName} (hleft : (s.under left).Enters base names)
    (hright : (s.under right).Enters base names) : (s.under both).Enters base names where
  directory := hleft.directory
  visible := hleft.visible
  included front hfront hne := by
    have hincluded : left.excludes _ true = false := hleft.included front hfront hne
    have hincluded' : right.excludes _ true = false := hright.included front hfront hne
    calc
      both.excludes (textOf front) true = (false || false) := by
        rw [hboth, hincluded, hincluded']
      _ = false := rfl

theorem Lists.of_both {above : List FileName} {name : FileName}
    (hleft : (s.under left).Lists base above name)
    (hright : (s.under right).Lists base above name) : (s.under both).Lists base above name where
  entered := hleft.entered.of_both hboth hright.entered
  visible := hleft.visible
  entry := hleft.entry
  kept := keeps_both hboth hleft.kept hright.kept

theorem ListsAt.of_both {names place place' : List FileName} {tree tree' : FileTree}
    (hleft : (s.under left).ListsAt names place tree)
    (hright : (s.under right).ListsAt names place' tree') :
    (s.under both).ListsAt names place tree := by
  cases hleft with
  | below hroot hlists htree =>
      obtain ⟨above, name, hnames, hlists'⟩ :=
        (exists_listsAt_iff_listsNames (s := s.under right) hroot).mp ⟨_, _, hright⟩
      obtain ⟨rfl, hlast⟩ := List.append_inj' hnames rfl
      obtain rfl := List.singleton_inj.mp hlast
      exact .below hroot (hlists.of_both hboth hlists') htree
  | root hroot hkept =>
      have hleads := leadsToDirectory_of_keeps (s := s.under left) hkept
      have hkept' := (exists_listsAt_iff_keeps (s := s.under right) hroot hleads).mp ⟨_, _, hright⟩
      exact .root hroot (keeps_both hboth hkept hkept'.2)

/-- What both searches list, the search under all rules lists. -/
theorem mem_of_both (hfiles : s.files.tree.WellFormed) {found found' common : List String}
    (hfound : (s.under left).resourceFiles.value = .ok found)
    (hfound' : (s.under right).resourceFiles.value = .ok found')
    (hcommon : (s.under both).resourceFiles.value = .ok common) {path : String}
    (hpath : path ∈ found) (hpath' : path ∈ found') : path ∈ common := by
  obtain ⟨names, rfl, place, tree, hown⟩ :=
    (mem_resourceFiles_iff (s := s.under left) hfiles hfound).mp hpath
  obtain ⟨other, htext, place', tree', hother⟩ :=
    (mem_resourceFiles_iff (s := s.under right) hfiles hfound').mp hpath'
  have halike := hown.of_alike hfiles hother htext
  exact (mem_resourceFiles_iff (s := s.under both) hfiles hcommon).mpr
    ⟨names, rfl, place, tree, hown.of_both hboth halike⟩

end Both

/-! ## Lists of patterns -/

section Patterns

variable {P Q : List (List Char)} (hfiles : s.files.tree.WellFormed) {found : List String}

include hfiles

/-- Under the patterns of a list and any others, a search finds a part of what it finds under
the list, and just the same if there are no others. -/
theorem resourceFiles_of_subset (hleft : IgnoreRules.AreRulesOf P left)
    (hright : IgnoreRules.AreRulesOf Q right) (hsubset : P ⊆ Q)
    (hfound : (s.under left).resourceFiles.value = .ok found) :
    ∃ fewer, (s.under right).resourceFiles.value = .ok fewer ∧ fewer.Sublist found ∧
      (Q ⊆ P → fewer = found) := by
  have hmore : ∀ {relative isDirectory}, left.excludes relative isDirectory = true →
      right.excludes relative isDirectory = true :=
    hleft.excludes_mono hright hsubset
  obtain ⟨fewer, hfewer⟩ := exists_resourceFiles_of_more hmore hfiles ⟨found, hfound⟩
  have hpart : fewer = found.filter (· ∈ fewer) := eq_filter_of_more hmore hfiles hfound hfewer
  refine ⟨fewer, hfewer, ?_, fun hback => ?_⟩
  · rw [hpart]
    exact List.filter_sublist
  · have hless : ∀ {relative isDirectory}, right.excludes relative isDirectory = true →
        left.excludes relative isDirectory = true :=
      hright.excludes_mono hleft hback
    have hall := subset_of_more hless hfiles hfewer hfound
    rw [hpart, List.filter_eq_self]
    exact fun path hpath => decide_eq_true (hall hpath)

/-- What is found under two lists of patterns together is what is found under both of them. -/
theorem resourceFiles_of_append (hleft : IgnoreRules.AreRulesOf P left)
    (hright : IgnoreRules.AreRulesOf Q right) (hboth : IgnoreRules.AreRulesOf (P ++ Q) both)
    {found' : List String} (hfound : (s.under left).resourceFiles.value = .ok found)
    (hfound' : (s.under right).resourceFiles.value = .ok found') :
    (s.under both).resourceFiles.value = .ok (found.filter (· ∈ found')) := by
  have hexcludes := hleft.excludes_append hright hboth
  have hmore : ∀ {relative isDirectory}, left.excludes relative isDirectory = true →
      both.excludes relative isDirectory = true :=
    hleft.excludes_mono hboth (List.subset_append_left P Q)
  have hmore' : ∀ {relative isDirectory}, right.excludes relative isDirectory = true →
      both.excludes relative isDirectory = true :=
    hright.excludes_mono hboth (List.subset_append_right P Q)
  obtain ⟨common, hcommon⟩ := exists_resourceFiles_of_more hmore hfiles ⟨found, hfound⟩
  have hmem : ∀ path ∈ found, (path ∈ common ↔ path ∈ found') := by
    intro path hpath
    constructor
    · exact fun hown => subset_of_more hmore' hfiles hfound' hcommon hown
    · exact fun hown => mem_of_both hexcludes hfiles hfound hfound' hcommon hpath hown
  calc
    (s.under both).resourceFiles.value = .ok common := hcommon
    _ = .ok (found.filter (· ∈ common)) := by
      rw [← eq_filter_of_more hmore hfiles hfound hcommon]
    _ = .ok (found.filter (· ∈ found')) := by
      rw [List.filter_congr fun path hpath => decide_eq_decide.mpr (hmem path hpath)]

end Patterns

/-- Under two lists of patterns together, a search finds just what it finds under both of them,
in the same order.  Under the first list and any other patterns it finds no more than under the
first, and the same if all of these stand in the first already. -/
theorem resourceFiles_combined (hfiles : s.files.tree.WellFormed) {P Q : List (List Char)}
    (hleft : IgnoreRules.AreRulesOf P left) (hright : IgnoreRules.AreRulesOf Q right)
    (hboth : IgnoreRules.AreRulesOf (P ++ Q) both) {found found' : List String}
    (hfound : (s.under left).resourceFiles.value = .ok found)
    (hfound' : (s.under right).resourceFiles.value = .ok found') :
    (s.under both).resourceFiles.value = .ok (found.filter (· ∈ found')) ∧
      ∀ others rules, IgnoreRules.AreRulesOf others rules → P ⊆ others →
        ∃ fewer, (s.under rules).resourceFiles.value = .ok fewer ∧ fewer.Sublist found ∧
          (others ⊆ P → fewer = found) := by
  constructor
  · exact resourceFiles_of_append hfiles hleft hright hboth hfound hfound'
  · intro others rules hrules hsubset
    exact resourceFiles_of_subset hfiles hleft hrules hsubset hfound

/-- A search in two directories with the same names of files. -/
def twoDirectories : Search where
  files :=
    let top := FileTree.empty.put ["p", "a", "x.yaml"] (.file (some ""))
    let top := top.put ["p", "a", "y.yaml"] (.file (some ""))
    let top := top.put ["p", "b", "x.yaml"] (.file (some ""))
    ⟨top.put ["p", "b", "y.yaml"] (.file (some "")), []⟩
  root := "/p"
  rules := ⟨[]⟩
  options := .standard

theorem wellFormed_twoDirectories : twoDirectories.files.tree.WellFormed := by
  apply FileTree.WellFormed.put _ (.file _) (by decide)
  apply FileTree.WellFormed.put _ (.file _) (by decide)
  apply FileTree.WellFormed.put _ (.file _) (by decide)
  exact FileTree.wellFormed_empty.put (.file _) (by decide)

/-- The rule of the pattern `a/`. -/
def belowA : IgnoreRule :=
  ⟨"**/a/**", [.anyRun, .literal '/', .literal 'a', .literal '/', .anyRun]⟩

/-- The rule of the pattern `x.yaml`. -/
def namedX : IgnoreRule :=
  ⟨"**/x.yaml", .anyRun :: "/x.yaml".toList.map .literal⟩

/-- One pattern passes over a directory, the other over a file in each directory. -/
theorem twoDirectories_combined :
    (twoDirectories.under ⟨[belowA]⟩).resourceFiles.value = .ok ["b/x.yaml", "b/y.yaml"] ∧
      (twoDirectories.under ⟨[namedX]⟩).resourceFiles.value = .ok ["a/y.yaml", "b/y.yaml"] ∧
      (twoDirectories.under ⟨[belowA, namedX]⟩).resourceFiles.value = .ok ["b/y.yaml"] := by
  have hbelow : IgnoreRules.AreRulesOf ["a/".toList] ⟨[belowA]⟩ := .cons (by cbv) .nil
  have hnamed : IgnoreRules.AreRulesOf ["x.yaml".toList] ⟨[namedX]⟩ := .cons (by cbv) .nil
  have hboth : IgnoreRules.AreRulesOf (["a/".toList] ++ ["x.yaml".toList]) ⟨[belowA, namedX]⟩ :=
    .cons (by cbv) (.cons (by cbv) .nil)
  have hfound : (twoDirectories.under ⟨[belowA]⟩).resourceFiles.value =
      .ok ["b/x.yaml", "b/y.yaml"] :=
    value_resourceFiles_of_walkRoot (by decide +kernel) (by decide)
  have hfound' : (twoDirectories.under ⟨[namedX]⟩).resourceFiles.value =
      .ok ["a/y.yaml", "b/y.yaml"] :=
    value_resourceFiles_of_walkRoot (by decide +kernel) (by decide)
  obtain ⟨hcommon, -⟩ := resourceFiles_combined wellFormed_twoDirectories hbelow hnamed hboth
    hfound hfound'
  exact ⟨hfound, hfound', hcommon⟩

end Search

end Shipment
