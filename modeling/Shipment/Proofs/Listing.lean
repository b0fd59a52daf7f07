import Mathlib.Data.List.Sort
import Shipment.Proofs.Files.PathLookup
import Shipment.Proofs.Files.PathText
import Shipment.Proofs.Journal

/-!
# What a search lists

A search enters directories from the root down and goes through each of them
once.  It succeeds when every directory that it enters can be read, and then it
lists each entry that it keeps once, under the names that lead to the entry as
they are read.  So the listing increases, and strictly so as far as the names of
its entries are read differently.
-/

namespace Shipment.Search

open FilePath (textOf)

variable (s : Search) (base : FileTree)

/-- Whether an entry that is no directory is listed. -/
def keeps (relative : String) (path : FilePath) (name : FileName) : Bool :=
  !s.files.leadsToDirectory path && s.options.isCandidate (Text.ofBytes name) &&
    !s.rules.excludes relative false

theorem value_judge (path : FilePath) (name : FileName) :
    (s.judge path name).value =
      if s.keeps (s.relativePath path) path name then [s.relativePath path] else [] := by
  unfold judge keeps
  dsimp only
  cases s.files.leadsToDirectory path <;> cases s.options.isCandidate (Text.ofBytes name) <;>
    cases s.rules.excludes (s.relativePath path) false <;> rfl

/-- The search below `base` enters the directory at these names: on the way
there are directories only, none of them hidden or excluded. -/
structure Enters (names : List FileName) : Prop where
  directory : ∀ front, front <+: names → ∃ entries, base.descend front = some (.directory entries)
  visible : ∀ name ∈ names, isHidden (Text.ofBytes name) = false
  included : ∀ front, front <+: names → front ≠ [] → s.rules.excludes (textOf front) true = false

/-- The search below `base` lists the entry of a directory that it enters. -/
structure Lists (above : List FileName) (name : FileName) : Prop where
  entered : s.Enters base above
  visible : isHidden (Text.ofBytes name) = false
  entry : ∃ tree, base.descend (above ++ [name]) = some tree ∧ tree.isDirectory = false
  kept : s.keeps (textOf (above ++ [name])) (s.fullPath (above ++ [name])) name = true

/-- The directory at these names can be read. -/
def Reads (names : List FileName) : Prop :=
  ∃ found, s.files.lookup true (s.fullPath names) = .ok found

variable {s base}

theorem Enters.above {front names : List FileName} (h : s.Enters base names)
    (hfront : front <+: names) : s.Enters base front where
  directory other hother := h.directory other (hother.trans hfront)
  visible name hname := h.visible name (hfront.subset hname)
  included other hother := h.included other (hother.trans hfront)

theorem enters_nil {entries : List (FileName × FileTree)} :
    s.Enters (.directory entries) [] where
  directory front hfront := by
    rw [List.prefix_nil.mp hfront]
    exact ⟨entries, rfl⟩
  visible := by simp
  included front hfront hne := absurd (List.prefix_nil.mp hfront) hne

theorem Enters.concat {above : List FileName} {name : FileName}
    {entries : List (FileName × FileTree)} (h : s.Enters base above)
    (hentry : base.descend (above ++ [name]) = some (.directory entries))
    (hvisible : isHidden (Text.ofBytes name) = false)
    (hincluded : s.rules.excludes (textOf (above ++ [name])) true = false) :
    s.Enters base (above ++ [name]) where
  directory front hfront := by
    rcases List.prefix_concat_iff.mp hfront with rfl | hfront
    · exact ⟨entries, hentry⟩
    · exact h.directory front hfront
  visible other hother := by
    rcases List.mem_append.mp hother with hmem | hmem
    · exact h.visible other hmem
    · exact List.mem_singleton.mp hmem ▸ hvisible
  included front hfront hne := by
    rcases List.prefix_concat_iff.mp hfront with rfl | hfront
    · exact hincluded
    · exact h.included front hfront hne

/-- A directory above a listed entry is entered. -/
theorem Lists.enters {above names : List FileName} {name : FileName}
    {entries : List (FileName × FileTree)} (h : s.Lists base above name)
    (hbelow : names <+: above ++ [name]) (hentry : base.descend names = some (.directory entries)) :
    s.Enters base names := by
  rcases List.prefix_concat_iff.mp hbelow with rfl | hbelow
  · obtain ⟨tree, htree, hkind⟩ := h.entry
    obtain rfl : .directory entries = tree := Option.some.inj (hentry.symm.trans htree)
    cases hkind
  · exact h.entered.above hbelow

/-! ## Regions of the tree -/

variable (s base)

/-- The search below `base` lists the entry at these names. -/
def ListsNames (names : List FileName) : Prop :=
  ∃ above name, names = above ++ [name] ∧ s.Lists base above name

/-- The result of a search in a region of the tree, which is a set of lists of
names: it succeeds when every directory of the region that is to be entered can
be read, and gives the path of each entry of the region that is to be listed,
once. -/
structure Covers (region : List FileName → Prop) (value : Except CompileError (List String)) :
    Prop where
  succeeds_iff : (∃ found, value = .ok found) ↔
    ∀ names, region names → s.Enters base names → s.Reads names
  listed : ∀ {found}, value = .ok found → ∃ listed : List (List FileName),
    found = listed.map textOf ∧ listed.Nodup ∧
      ∀ names, names ∈ listed ↔ region names ∧ s.ListsNames base names

variable {s base}

/-- Only names that lead somewhere matter in a region. -/
theorem Covers.congr {region other : List FileName → Prop}
    {value : Except CompileError (List String)} (h : s.Covers base region value)
    (hregion : ∀ names tree, base.descend names = some tree → (region names ↔ other names)) :
    s.Covers base other value where
  succeeds_iff := by
    rw [h.succeeds_iff]
    apply forall_congr'
    intro names
    constructor
    · intro hreads hother henters
      obtain ⟨entries, hentries⟩ := henters.directory names (List.prefix_refl _)
      exact hreads ((hregion names _ hentries).mpr hother) henters
    · intro hreads hown henters
      obtain ⟨entries, hentries⟩ := henters.directory names (List.prefix_refl _)
      exact hreads ((hregion names _ hentries).mp hown) henters
  listed hvalue := by
    obtain ⟨listed, hfound, hnodup, hmem⟩ := h.listed hvalue
    refine ⟨listed, hfound, hnodup, fun names => (hmem names).trans (and_congr_left ?_)⟩
    rintro ⟨above, name, rfl, hlists⟩
    obtain ⟨tree, htree, -⟩ := hlists.entry
    exact hregion _ _ htree

/-- A region without directories to enter has nothing that could fail. -/
theorem covers_of_not_enters {region : List FileName → Prop} (listed : List (List FileName))
    (henters : ∀ names, region names → ¬s.Enters base names) (hnodup : listed.Nodup)
    (hmem : ∀ names, names ∈ listed ↔ region names ∧ s.ListsNames base names) :
    s.Covers base region (.ok (listed.map textOf)) where
  succeeds_iff :=
    ⟨fun _ names hnames hentered => absurd hentered (henters names hnames), fun _ => ⟨_, rfl⟩⟩
  listed hvalue := by
    cases hvalue
    exact ⟨listed, rfl, hnodup, hmem⟩

/-- A search in one region and then in another one covers both. -/
theorem Covers.append {region other : List FileName → Prop}
    {first second : Noted (Except CompileError (List String))}
    (hfirst : s.Covers base region first.value) (hsecond : s.Covers base other second.value)
    (hdisjoint : ∀ names, region names → ¬other names) :
    s.Covers base (fun names => region names ∨ other names)
      (first.andThen fun found => second.map (·.map (found ++ ·))).value := by
  have hok : ∀ {found}, (first.andThen fun found => second.map (·.map (found ++ ·))).value =
      .ok found ↔ ∃ left right, first.value = .ok left ∧ second.value = .ok right ∧
        left ++ right = found := by
    intro found
    simp only [Noted.value_andThen_eq_ok, Noted.value_map, map_eq_ok]
    constructor
    · rintro ⟨left, hleft, right, hright, heq⟩
      exact ⟨left, right, hleft, hright, heq⟩
    · rintro ⟨left, right, hleft, hright, heq⟩
      exact ⟨left, hleft, right, hright, heq⟩
  constructor
  · simp only [hok, or_imp, forall_and]
    rw [← hfirst.succeeds_iff, ← hsecond.succeeds_iff]
    constructor
    · rintro ⟨found, left, right, hleft, hright, -⟩
      exact ⟨⟨left, hleft⟩, right, hright⟩
    · rintro ⟨⟨left, hleft⟩, right, hright⟩
      exact ⟨_, left, right, hleft, hright, rfl⟩
  · intro found hfound
    obtain ⟨left, right, hleft, hright, rfl⟩ := hok.mp hfound
    obtain ⟨listed, rfl, hnodup, hmem⟩ := hfirst.listed hleft
    obtain ⟨listed', rfl, hnodup', hmem'⟩ := hsecond.listed hright
    refine ⟨listed ++ listed', (List.map_append).symm, ?_, fun names => ?_⟩
    · refine List.nodup_append.mpr ⟨hnodup, hnodup', ?_⟩
      rintro names hnames _ hother rfl
      exact hdisjoint names ((hmem names).mp hnames).1 ((hmem' names).mp hother).1
    · rw [List.mem_append, hmem, hmem', or_and_right]

/-! ## The walk -/

section Visit

variable {above : List FileName} {name : FileName}
  (hnames : ∀ other ∈ above ++ [name], ProperName other)

include hnames

theorem value_visit_of_not_directory {tree : FileTree} (hkind : tree.isDirectory = false) :
    (s.visit above name tree).value =
      .ok (if isHidden (Text.ofBytes name) = false ∧
          s.keeps (textOf (above ++ [name])) (s.fullPath (above ++ [name])) name = true then
        [textOf (above ++ [name])]
      else []) := by
  rw [← s.relativePath_fullPath hnames]
  cases tree with
  | directory entries => cases hkind
  | file text =>
      rw [visit]
      · cases isHidden (Text.ofBytes name) <;> simp [value_judge]
      · simp
  | link target =>
      rw [visit]
      · cases isHidden (Text.ofBytes name) <;> simp [value_judge]
      · simp

theorem value_visit_directory (entries : List (FileName × FileTree)) :
    (s.visit above name (.directory entries)).value =
      if isHidden (Text.ofBytes name) || s.rules.excludes (textOf (above ++ [name])) true then
        .ok []
      else
        match s.files.lookup true (s.fullPath (above ++ [name])) with
        | .error cause => .error (.unlisted (s.fullPath (above ++ [name])) cause (above.length + 1))
        | .ok _ => (s.walk (above ++ [name]) entries).value := by
  rw [visit, ← s.relativePath_fullPath hnames]
  cases isHidden (Text.ofBytes name) <;>
    cases s.rules.excludes (s.relativePath (s.fullPath (above ++ [name]))) true <;>
    cases s.files.lookup true (s.fullPath (above ++ [name])) <;> rfl

/-- An entry that is no directory is the only one at or below its names. -/
theorem covers_leaf {tree : FileTree} (hentered : s.Enters base above)
    (htree : base.descend (above ++ [name]) = some tree) (hkind : tree.isDirectory = false) :
    s.Covers base (above ++ [name] <+: ·) (s.visit above name tree).value := by
  have hnot : ∀ names, above ++ [name] <+: names → ¬s.Enters base names := by
    intro names hbelow henters
    obtain ⟨entries, hentries⟩ := henters.directory _ hbelow
    obtain rfl : tree = .directory entries := Option.some.inj (htree.symm.trans hentries)
    cases hkind
  have hown : ∀ names, above ++ [name] <+: names ∧ s.ListsNames base names ↔
      names = above ++ [name] ∧ s.Lists base above name := by
    intro names
    constructor
    · rintro ⟨hbelow, front, last, rfl, hlists⟩
      rcases List.prefix_concat_iff.mp hbelow with heq | hbelow
      · obtain ⟨rfl, rfl⟩ := List.concat_inj.mp (by simpa using heq)
        exact ⟨rfl, hlists⟩
      · exact absurd hlists.entered (hnot _ hbelow)
    · rintro ⟨rfl, hlists⟩
      exact ⟨List.prefix_refl _, above, name, rfl, hlists⟩
  rw [value_visit_of_not_directory hnames hkind]
  by_cases hshown : isHidden (Text.ofBytes name) = false ∧
      s.keeps (textOf (above ++ [name])) (s.fullPath (above ++ [name])) name = true
  · have hlists : s.Lists base above name :=
      ⟨hentered, hshown.1, ⟨tree, htree, hkind⟩, hshown.2⟩
    have hcovers := covers_of_not_enters (s := s) [above ++ [name]] hnot
      (List.nodup_singleton _) fun names => by rw [hown, List.mem_singleton, and_iff_left hlists]
    rw [if_pos hshown]
    exact hcovers
  · have hlists : ¬s.Lists base above name := fun h => hshown ⟨h.visible, h.kept⟩
    have hcovers := covers_of_not_enters (s := s) [] hnot List.nodup_nil
      fun names => by simp [hown, hlists]
    rw [if_neg hshown]
    exact hcovers

end Visit

/-- Nothing at or below a directory that is hidden or excluded is listed. -/
theorem covers_of_pruned {above : List FileName} {name : FileName}
    {entries : List (FileName × FileTree)}
    (htree : base.descend (above ++ [name]) = some (.directory entries))
    (hpruned : (isHidden (Text.ofBytes name) ||
      s.rules.excludes (textOf (above ++ [name])) true) = true) :
    s.Covers base (above ++ [name] <+: ·) (.ok []) := by
  have hnot : ¬s.Enters base (above ++ [name]) := by
    intro h
    have hvisible := h.visible name (by simp)
    have hincluded := h.included _ (List.prefix_refl _) (by simp)
    simp [hvisible, hincluded] at hpruned
  refine covers_of_not_enters [] (fun _ hbelow h => hnot (h.above hbelow))
    List.nodup_nil fun names => ?_
  constructor
  · simp
  · rintro ⟨hbelow, front, last, rfl, hlists⟩
    exact absurd (hlists.enters hbelow htree) hnot

/-- A directory that is entered but cannot be read fails the search. -/
theorem covers_of_not_reads {names : List FileName} {e : CompileError}
    (hentered : s.Enters base names) (hunread : ¬s.Reads names) :
    s.Covers base (names <+: ·) (.error e) where
  succeeds_iff := by
    simp only [reduceCtorEq, exists_false, false_iff, not_forall]
    exact ⟨names, List.prefix_refl _, hentered, hunread⟩
  listed hvalue := by cases hvalue

/-- A directory that can be read is covered with all that is below it. -/
theorem Covers.directory {names : List FileName} {entries : List (FileName × FileTree)}
    {value : Except CompileError (List String)}
    (h : s.Covers base (fun below => names <+: below ∧ names ≠ below) value)
    (hnames : base.descend names = some (.directory entries)) (hread : s.Reads names) :
    s.Covers base (names <+: ·) value where
  succeeds_iff := by
    rw [h.succeeds_iff]
    constructor
    · intro hreads below hbelow
      by_cases heq : names = below
      · exact fun _ => heq ▸ hread
      · exact hreads below ⟨hbelow, heq⟩
    · exact fun hreads below hbelow => hreads below hbelow.1
  listed hvalue := by
    obtain ⟨listed, hfound, hnodup, hmem⟩ := h.listed hvalue
    refine ⟨listed, hfound, hnodup, fun below => (hmem below).trans (and_congr_left ?_)⟩
    rintro ⟨front, last, rfl, hlists⟩
    refine and_iff_left ?_
    -- a directory is not listed
    rintro rfl
    obtain ⟨tree, hentry, hkind⟩ := hlists.entry
    obtain rfl : .directory entries = tree := Option.some.inj (hnames.symm.trans hentry)
    cases hkind

/-- The names below those of a directory start with the name of one of its entries. -/
theorem exists_entry_iff {names below : List FileName} {tree : FileTree}
    {entries : List (FileName × FileTree)}
    (hentries : base.descend names = some (.directory entries))
    (htree : base.descend below = some tree) :
    (∃ entry ∈ entries, names ++ [entry.1] <+: below) ↔ names <+: below ∧ names ≠ below := by
  constructor
  · rintro ⟨entry, -, rest, rfl⟩
    simp
  · rintro ⟨⟨rest, rfl⟩, hne⟩
    cases rest with
    | nil => simp at hne
    | cons child rest =>
        rw [FileTree.descend_append, hentries] at htree
        obtain ⟨next, hnext, -⟩ :=
          Option.bind_eq_some_iff.mp ((Option.bind_some ..).symm.trans htree)
        exact ⟨(child, next), Fields.mem_of_get? hnext, rest, by simp⟩

/-- A walk covers what its visits cover. -/
theorem covers_walk {names : List FileName} {entries : List (FileName × FileTree)}
    (hordered : Fields.Ordered entries)
    (hvisits : ∀ entry ∈ entries,
      s.Covers base (names ++ [entry.1] <+: ·) (s.visit names entry.1 entry.2).value) :
    s.Covers base (fun below => ∃ entry ∈ entries, names ++ [entry.1] <+: below)
      (s.walk names entries).value := by
  induction entries with
  | nil =>
      rw [walk, Noted.value_plain]
      exact covers_of_not_enters [] (by simp) List.nodup_nil (by simp)
  | cons entry rest ih =>
      obtain ⟨name, tree⟩ := entry
      obtain ⟨hfirst, hrest⟩ := List.pairwise_cons.mp hordered
      obtain ⟨hvisit, hvisits⟩ := List.forall_mem_cons.mp hvisits
      rw [walk]
      refine (hvisit.append (ih hrest hvisits) ?_).congr fun below _ _ => by simp
      rintro below hown ⟨other, hother, hbelow⟩
      -- two names behind the same names are the same, and those of a directory are distinct
      have heq : names ++ [name] = names ++ [other.1] :=
        (List.prefix_of_prefix_length_le hown hbelow (by simp)).eq_of_length (by simp)
      obtain rfl : name = other.1 := by simpa using heq
      exact List.lt_irrefl _ (hfirst other hother)

theorem covers_visit (hbase : base.WellFormed) {above : List FileName} {name : FileName}
    {tree : FileTree} (hentered : s.Enters base above)
    (htree : base.descend (above ++ [name]) = some tree) :
    s.Covers base (above ++ [name] <+: ·) (s.visit above name tree).value := by
  have hnames := hbase.properName_of_descend htree
  induction hbase.descend htree generalizing above name with
  | file text => exact covers_leaf hnames hentered htree rfl
  | link target => exact covers_leaf hnames hentered htree rfl
  | @directory entries hordered hproper hbelow ih =>
      rw [value_visit_directory hnames]
      by_cases hpruned : (isHidden (Text.ofBytes name) ||
          s.rules.excludes (textOf (above ++ [name])) true) = true
      · rw [if_pos hpruned]
        exact covers_of_pruned htree hpruned
      obtain ⟨hvisible, hincluded⟩ := Bool.or_eq_false_iff.mp (Bool.not_eq_true _ ▸ hpruned)
      have hown := hentered.concat htree hvisible hincluded
      rw [if_neg hpruned]
      cases hlookup : s.files.lookup true (s.fullPath (above ++ [name])) with
      | error cause => exact covers_of_not_reads hown (by simp [Reads, hlookup])
      | ok found =>
          have hchild : ∀ entry ∈ entries,
              base.descend (above ++ [name] ++ [entry.1]) = some entry.2 := by
            intro entry hentry
            rw [FileTree.descend_concat, htree]
            exact Fields.get?_of_mem hordered hentry
          have hwalk := covers_walk hordered fun entry hentry =>
            ih entry hentry hown (hchild entry hentry)
              (hbase.properName_of_descend (hchild entry hentry))
          exact (hwalk.congr fun _ _ => exists_entry_iff htree).directory htree ⟨found, hlookup⟩

/-- A walk from the root covers all that is below it. -/
theorem covers_walk_root {entries : List (FileName × FileTree)}
    (hentries : (FileTree.directory entries).WellFormed) :
    s.Covers (.directory entries) (· ≠ []) (s.walk [] entries).value := by
  cases hentries with
  | directory hordered hnames hbelow =>
      have hbase := FileTree.WellFormed.directory hordered hnames hbelow
      have hwalk : s.Covers (.directory entries)
          (fun below => ∃ entry ∈ entries, [] ++ [entry.1] <+: below)
          (s.walk [] entries).value := by
        apply covers_walk hordered
        intro entry hentry
        apply covers_visit hbase enters_nil
        rw [FileTree.descend_concat]
        exact Fields.get?_of_mem hordered hentry
      apply hwalk.congr
      intro names tree htree
      rw [exists_entry_iff rfl htree]
      simp [eq_comm]

/-! ## The listing increases -/

theorem pairwise_le_sorted (paths : List String) : (sorted paths).Pairwise (· ≤ ·) := by
  have htrans : ∀ p q r : String, decide (p ≤ q) = true → decide (q ≤ r) = true →
      decide (p ≤ r) = true := by
    intro p q r hpq hqr
    exact decide_eq_true (le_trans (of_decide_eq_true hpq) (of_decide_eq_true hqr))
  have htotal : ∀ p q : String, (decide (p ≤ q) || decide (q ≤ p)) = true := by
    intro p q
    simpa using le_total p q
  have hsorted := List.pairwise_mergeSort htrans htotal paths
  exact hsorted.imp of_decide_eq_true

theorem perm_sorted (paths : List String) : (sorted paths).Perm paths :=
  List.mergeSort_perm _ _

/-- Paths in order are what the same paths are sorted to. -/
theorem sorted_eq_of_perm {paths own : List String} (hperm : paths.Perm own)
    (hordered : own.Pairwise (· ≤ ·)) : sorted paths = own :=
  ((perm_sorted paths).trans hperm).eq_of_pairwise (fun _ _ _ _ => le_antisymm)
    (pairwise_le_sorted paths) hordered

/-- Paths that differ are sorted to a strict order. -/
theorem pairwise_lt_sorted {paths : List String} (hnodup : paths.Nodup) :
    (sorted paths).Pairwise (· < ·) :=
  (pairwise_le_sorted paths).imp₂ (fun _ _ hle hne => lt_of_le_of_ne hle hne)
    ((perm_sorted paths).nodup_iff.mpr hnodup)

theorem filter_sorted (q : String → Bool) (paths : List String) :
    (sorted paths).filter q = sorted (paths.filter q) := by
  have hperm : (paths.filter q).Perm ((sorted paths).filter q) :=
    ((perm_sorted paths).filter q).symm
  exact (sorted_eq_of_perm hperm ((pairwise_le_sorted paths).filter q)).symm

end Shipment.Search
