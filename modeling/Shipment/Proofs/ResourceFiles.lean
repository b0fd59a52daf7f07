import Shipment.Proofs.Listing

/-!
# The resource files of a project

A search below a directory fails only where a directory that it enters cannot be read.
It lists every resource file there: no directory and no link to one, with the name of a
resource, not hidden and not excluded, in directories that are none of these either.  A
link to a directory is listed with them if too many links are on the way, and names that
are not UTF-8 are listed as they are read, so that one path may stand for several files.
-/

namespace Shipment.Search

open FilePath (textOf)

variable (s : Search)

/-- The same search under other rules. -/
def under (s : Search) (rules : IgnoreRules) : Search :=
  { s with rules }

/-- What a search makes of its root, whatever the rules are: a directory to go through, an
entry to judge like any other, or nothing that can be looked at. -/
inductive RootCase (s : Search) : Prop
  | directory {place : List FileName} {entries : List (FileName × FileTree)}
      (hroot : s.files.lookup true s.root = .ok (place, .directory entries))
  | entry {place : List FileName} {tree : FileTree}
      (hroot : s.files.lookup false s.root = .ok (place, tree))
      (hleads : s.files.leadsToDirectory s.root = false)
      (hwalk : ∀ rules, (s.under rules).walkRoot.value =
        .ok ((s.under rules).judge s.root (FilePath.fileName s.root)).value)
  | unread (cause : IoError)
      (hwalk : ∀ rules, (s.under rules).walkRoot.value = .error (.unlisted s.root cause 0))

theorem rootCase (s : Search) : s.RootCase := by
  have hwalk : ∀ rules, (s.under rules).walkRoot = _ := fun rules => by rw [walkRoot]
  simp only [under] at hwalk
  have hleads : ∀ {stop tree}, s.files.lookup true s.root = .ok (stop, tree) →
      tree.isDirectory = false → s.files.leadsToDirectory s.root = false := by
    intro stop tree hend hkind
    rw [FileSystem.leadsToDirectory, hend]
    exact hkind
  cases hroot : s.files.lookup false s.root with
  | error cause => exact .unread cause fun rules => by simp [under, hwalk, hroot]
  | ok found =>
      obtain ⟨place, _ | entries | target⟩ := found
      · exact .entry hroot (hleads (FileSystem.lookup_true (by simp) hroot) rfl) fun rules => by
          simp [under, hwalk, hroot]
      · exact .directory (FileSystem.lookup_true (by simp) hroot)
      · cases hend : s.files.lookup true s.root with
        | error cause => exact .unread cause fun rules => by simp [under, hwalk, hroot, hend]
        | ok found =>
            obtain ⟨stop, _ | entries | last⟩ := found
            · exact .entry hroot (hleads hend rfl) fun rules => by simp [under, hwalk, hroot, hend]
            · exact .directory hend
            · exact .entry hroot (hleads hend rfl) fun rules => by simp [under, hwalk, hroot, hend]

/-- The search lists the entry at a place of the tree.  It is the one at these names below
the root, or the root itself. -/
inductive ListsAt : List FileName → List FileName → FileTree → Prop
  | below {base : List FileName} {entries : List (FileName × FileTree)} {above : List FileName}
      {name : FileName} {tree : FileTree}
      (hroot : s.files.lookup true s.root = .ok (base, .directory entries))
      (hlists : s.Lists (.directory entries) above name)
      (htree : (FileTree.directory entries).descend (above ++ [name]) = some tree) :
      ListsAt (above ++ [name]) (base ++ (above ++ [name])) tree
  | root {place : List FileName} {tree : FileTree}
      (hroot : s.files.lookup false s.root = .ok (place, tree))
      (hkept : s.keeps "" s.root (FilePath.fileName s.root) = true) : ListsAt [] place tree

variable {s} {place names : List FileName} {entries : List (FileName × FileTree)}

theorem leadsToDirectory_of_lookup
    (hroot : s.files.lookup true s.root = .ok (place, .directory entries)) :
    s.files.leadsToDirectory s.root = true :=
  FileSystem.leadsToDirectory_iff.mpr ⟨place, entries, hroot⟩

theorem leadsToDirectory_of_keeps {relative : String} {path : FilePath} {name : FileName}
    (hkept : s.keeps relative path name = true) : s.files.leadsToDirectory path = false := by
  simp only [keeps, Bool.and_eq_true, Bool.not_eq_true'] at hkept
  exact hkept.1.1

/-- Below a directory, entries in it are listed. -/
theorem exists_listsAt_iff_listsNames
    (hroot : s.files.lookup true s.root = .ok (place, .directory entries)) :
    (∃ stop tree, s.ListsAt names stop tree) ↔ s.ListsNames (.directory entries) names := by
  constructor
  · rintro ⟨stop, tree, hentry⟩
    cases hentry with
    | below hroot' hlists htree =>
        cases hroot'.symm.trans hroot
        exact ⟨_, _, rfl, hlists⟩
    | root hroot' hkept =>
        cases (leadsToDirectory_of_keeps hkept).symm.trans (leadsToDirectory_of_lookup hroot)
  · rintro ⟨above, name, rfl, hlists⟩
    obtain ⟨tree, htree, -⟩ := hlists.entry
    exact ⟨_, tree, .below hroot hlists htree⟩

/-- A root that leads to no directory is the only entry that can be listed. -/
theorem exists_listsAt_iff_keeps {tree : FileTree}
    (hroot : s.files.lookup false s.root = .ok (place, tree))
    (hleads : s.files.leadsToDirectory s.root = false) :
    (∃ stop tree, s.ListsAt names stop tree) ↔
      names = [] ∧ s.keeps "" s.root (FilePath.fileName s.root) = true := by
  constructor
  · rintro ⟨stop, tree, hentry⟩
    cases hentry with
    | below hroot' hlists htree => cases hleads.symm.trans (leadsToDirectory_of_lookup hroot')
    | root hroot' hkept => exact ⟨rfl, hkept⟩
  · rintro ⟨rfl, hkept⟩
    exact ⟨place, tree, .root hroot hkept⟩

/-- The names under which an entry is listed can be names of entries. -/
theorem ListsAt.properName (hfiles : s.files.tree.WellFormed) {tree : FileTree}
    (hentry : s.ListsAt names place tree) : ∀ name ∈ names, ProperName name := by
  cases hentry with
  | below hroot hlists htree =>
      exact (FileSystem.wellFormed_of_lookup hfiles hroot).properName_of_descend htree
  | root hroot hkept => simp

theorem ListsAt.isPart (hfiles : s.files.tree.WellFormed) {tree : FileTree}
    (hentry : s.ListsAt names place tree) : ∀ name ∈ names, FilePath.IsPart name :=
  fun name hname => (hentry.properName hfiles name hname).isPart

/-- A root that is a link is entered where it leads to a directory. -/
theorem value_walkRoot (hroot : s.files.lookup true s.root = .ok (place, .directory entries)) :
    s.walkRoot.value = (s.walk [] entries).value := by
  rcases FileSystem.lookup_false hroot with hown | ⟨stop, target, hlink⟩
  · rw [walkRoot, hown]
  · rw [walkRoot, hlink]
    simp only [hroot]

theorem value_resourceFiles_eq_ok {paths : List String} :
    s.resourceFiles.value = .ok paths ↔
      ∃ found, s.walkRoot.value = .ok found ∧ sorted found = paths := by
  rw [resourceFiles, Noted.value_map, map_eq_ok]

/-- A listing that comes in order is not changed. -/
theorem value_resourceFiles_of_walkRoot {found : List String}
    (hfound : s.walkRoot.value.toOption = some found) (hordered : found.Pairwise (· ≤ ·)) :
    s.resourceFiles.value = .ok found := by
  cases hwalk : s.walkRoot.value with
  | error e =>
      rw [hwalk] at hfound
      cases hfound
  | ok own =>
      rw [hwalk] at hfound
      cases hfound
      exact value_resourceFiles_eq_ok.mpr ⟨_, hwalk, sorted_eq_of_perm (List.Perm.refl _) hordered⟩

/-- A search succeeds exactly if each directory that it enters can be read. -/
theorem exists_resourceFiles_iff (hfiles : s.files.tree.WellFormed)
    (hroot : s.files.lookup true s.root = .ok (place, .directory entries)) :
    (∃ paths, s.resourceFiles.value = .ok paths) ↔
      ∀ names, names ≠ [] → s.Enters (.directory entries) names → s.Reads names := by
  have hcovers := covers_walk_root (s := s) (FileSystem.wellFormed_of_lookup hfiles hroot)
  rw [← hcovers.succeeds_iff, ← value_walkRoot hroot]
  simp only [value_resourceFiles_eq_ok]
  constructor
  · rintro ⟨-, found, hfound, -⟩
    exact ⟨found, hfound⟩
  · rintro ⟨found, hfound⟩
    exact ⟨_, found, hfound, rfl⟩

/-- The names of the listed entries, each once. -/
structure IsListing (s : Search) (paths : List String) (listed : List (List FileName)) : Prop where
  paths_eq : paths = sorted (listed.map textOf)
  nodup : listed.Nodup
  mem_iff : ∀ names, names ∈ listed ↔ ∃ place tree, s.ListsAt names place tree

theorem IsListing.mem_paths_iff {paths : List String} {listed : List (List FileName)}
    (hlisting : s.IsListing paths listed) {path : String} :
    path ∈ paths ↔ ∃ names ∈ listed, path = textOf names := by
  rw [hlisting.paths_eq, (perm_sorted _).mem_iff, List.mem_map]
  simp only [eq_comm]

/-- The listed paths are the texts of those of the listed entries, in order. -/
theorem exists_isListing (hfiles : s.files.tree.WellFormed) {paths : List String}
    (hpaths : s.resourceFiles.value = .ok paths) : ∃ listed, s.IsListing paths listed := by
  obtain ⟨found, hfound, rfl⟩ := value_resourceFiles_eq_ok.mp hpaths
  cases s.rootCase with
  | directory hroot =>
      have hcovers := covers_walk_root (s := s) (FileSystem.wellFormed_of_lookup hfiles hroot)
      rw [value_walkRoot hroot] at hfound
      obtain ⟨listed, rfl, hnodup, hmem⟩ := hcovers.listed hfound
      refine ⟨listed, rfl, hnodup, fun names => ?_⟩
      rw [hmem, exists_listsAt_iff_listsNames hroot]
      refine and_iff_right_of_imp ?_
      rintro ⟨above, name, rfl, -⟩
      simp
  | entry hroot hleads hwalk =>
      obtain rfl : _ = found := Except.ok.inj ((hwalk s.rules).symm.trans hfound)
      have hself : s.relativePath s.root = "" :=
        s.relativePath_fullPath (List.forall_mem_nil ProperName)
      have hvalue : ((s.under s.rules).judge s.root (FilePath.fileName s.root)).value =
          if s.keeps "" s.root (FilePath.fileName s.root) then [""] else [] := by
        rw [← hself]
        exact s.value_judge s.root (FilePath.fileName s.root)
      rw [hvalue]
      by_cases hkept : s.keeps "" s.root (FilePath.fileName s.root) = true
      · refine ⟨[[]], by rw [if_pos hkept]; rfl, List.nodup_singleton _, fun names => ?_⟩
        rw [exists_listsAt_iff_keeps hroot hleads, and_iff_left hkept, List.mem_singleton]
      · refine ⟨[], by rw [if_neg hkept]; rfl, List.nodup_nil, fun names => ?_⟩
        simp [exists_listsAt_iff_keeps hroot hleads, hkept]
  | unread cause hwalk => cases (hwalk s.rules).symm.trans hfound

/-- The listed paths are the texts of those of the listed entries. -/
theorem mem_resourceFiles_iff (hfiles : s.files.tree.WellFormed) {paths : List String}
    (hpaths : s.resourceFiles.value = .ok paths) {path : String} :
    path ∈ paths ↔ ∃ names, path = textOf names ∧ ∃ place tree, s.ListsAt names place tree := by
  obtain ⟨listed, hlisting⟩ := exists_isListing hfiles hpaths
  rw [hlisting.mem_paths_iff]
  simp only [hlisting.mem_iff, and_comm]

/-- If a search lists those entries of another that have certain paths, its listing is that part
of the other one. -/
theorem eq_filter_of_listsAt_iff {t : Search} (hfiles : s.files.tree.WellFormed)
    (hfiles' : t.files.tree.WellFormed) {paths paths' : List String}
    (hpaths : s.resourceFiles.value = .ok paths) (hpaths' : t.resourceFiles.value = .ok paths')
    {q : String → Bool}
    (hsame : ∀ names, (∃ place tree, t.ListsAt names place tree) ↔
      (∃ place tree, s.ListsAt names place tree) ∧ q (textOf names) = true) :
    paths' = paths.filter q := by
  obtain ⟨listed, rfl, hnodup, hmem⟩ := exists_isListing hfiles hpaths
  obtain ⟨listed', rfl, hnodup', hmem'⟩ := exists_isListing hfiles' hpaths'
  have hperm : listed'.Perm (listed.filter (q ∘ textOf)) := by
    rw [List.perm_ext_iff_of_nodup hnodup' (hnodup.filter _)]
    intro names
    rw [hmem', hsame, List.mem_filter, hmem, Function.comp_apply]
  have htexts : (listed'.map textOf).Perm ((listed.map textOf).filter q) := by
    rw [List.filter_map]
    exact hperm.map textOf
  rw [filter_sorted]
  exact sorted_eq_of_perm (htexts.trans (perm_sorted _).symm) (pairwise_le_sorted _)

theorem IsListing.isPart (hfiles : s.files.tree.WellFormed) {paths : List String}
    {listed : List (List FileName)} (hlisting : s.IsListing paths listed)
    (hnames : names ∈ listed) : ∀ name ∈ names, FilePath.IsPart name := by
  obtain ⟨place, tree, hentry⟩ := (hlisting.mem_iff names).mp hnames
  exact hentry.isPart hfiles

/-- Where the names of the listed entries are UTF-8, no path is listed twice. -/
theorem IsListing.nodup_map_textOf (hfiles : s.files.tree.WellFormed) {paths : List String}
    {listed : List (List FileName)} (hlisting : s.IsListing paths listed)
    (hutf8 : ∀ names ∈ listed, ∀ name ∈ names, Text.IsUtf8 name) :
    (listed.map textOf).Nodup := by
  refine hlisting.nodup.map_on ?_
  intro left hleft right hright heq
  exact FilePath.eq_of_textOf_eq (hlisting.isPart hfiles hleft) (hlisting.isPart hfiles hright)
    (hutf8 left hleft) (hutf8 right hright) heq

/-! ## What should be listed -/

section

variable (s) (place) (base : FileTree)

/-- The entry with this name is a resource file.  It is in the directory at the names above
it, below the root at its place. -/
structure IsResource (above : List FileName) (name : FileName) : Prop where
  entered : s.Enters base above
  visible : isHidden (Text.ofBytes name) = false
  entry : ∃ tree, base.descend (above ++ [name]) = some tree ∧ tree.isDirectory = false
  resolves : ¬s.files.tree.ResolvesToDirectory (place ++ above) name
  candidate : s.options.isCandidate (Text.ofBytes name) = true
  included : s.rules.excludes (textOf (above ++ [name])) false = false

/-- The paths are those of the resource files, in strictly increasing order of their bytes. -/
structure AreResources (paths : List String) : Prop where
  increasing : paths.Pairwise fun path later => Text.bytes path < Text.bytes later
  mem_iff : ∀ above name, (∀ part ∈ above ++ [name], '/' ∉ part.toList) →
    (String.intercalate "/" (above ++ [name]) ∈ paths ↔
      s.IsResource place base (above.map Text.bytes) (Text.bytes name))

end

variable {above : List FileName} {name : FileName} {paths : List String}

section

variable (hfiles : s.files.tree.WellFormed)
  (hroot : s.files.lookup true s.root = .ok (place, .directory entries))

include hfiles hroot

/-- An entry is listed if it is a resource file, and a listed entry that is none is a link
to a directory. -/
theorem isResource_iff : s.IsResource place (.directory entries) above name ↔
    s.Lists (.directory entries) above name ∧
      ¬s.files.tree.ResolvesToDirectory (place ++ above) name := by
  have hkeeps : s.keeps (textOf (above ++ [name])) (s.fullPath (above ++ [name])) name = true ↔
      s.files.leadsToDirectory (s.fullPath (above ++ [name])) = false ∧
        s.options.isCandidate (Text.ofBytes name) = true ∧
        s.rules.excludes (textOf (above ++ [name])) false = false := by
    simp [keeps, and_assoc]
  constructor
  · intro h
    obtain ⟨tree, htree, hkind⟩ := h.entry
    have hnames := (FileSystem.wellFormed_of_lookup hfiles hroot).properName_of_descend htree
    have hleads : s.files.leadsToDirectory (s.fullPath (above ++ [name])) = false := by
      rw [s.fullPath_eq (by simp) hnames, Bool.eq_false_iff]
      exact fun hleads => h.resolves
        (FileSystem.resolvesToDirectory_of_leadsToDirectory hroot hnames htree hleads)
    exact ⟨⟨h.entered, h.visible, h.entry, hkeeps.mpr ⟨hleads, h.candidate, h.included⟩⟩,
      h.resolves⟩
  · rintro ⟨h, hresolves⟩
    obtain ⟨-, hcandidate, hincluded⟩ := hkeeps.mp h.kept
    exact ⟨h.entered, h.visible, h.entry, hresolves, hcandidate, hincluded⟩

section

variable {listed : List (List FileName)} (hlisting : s.IsListing paths listed)

include hlisting

omit hfiles in
theorem mem_listed_iff (names : List FileName) :
    names ∈ listed ↔ s.ListsNames (.directory entries) names :=
  (hlisting.mem_iff names).trans (exists_listsAt_iff_listsNames hroot)

/-- The names of listed entries that are UTF-8 are the parts of their paths. -/
theorem areResources_of_isUtf8
    (hlists : ∀ above name, s.Lists (.directory entries) above name →
      (∀ part ∈ above ++ [name], Text.IsUtf8 part) ∧
        ¬s.files.tree.ResolvesToDirectory (place ++ above) name) :
    s.AreResources place (.directory entries) paths where
  increasing := by
    rw [hlisting.paths_eq]
    refine (pairwise_lt_sorted (hlisting.nodup_map_textOf hfiles ?_)).imp Text.lt_iff_bytes_lt.mp
    intro names hnames
    obtain ⟨above, name, rfl, hown⟩ := (mem_listed_iff hroot hlisting names).mp hnames
    exact (hlists above name hown).1
  mem_iff above name hparts := by
    rw [hlisting.mem_paths_iff, isResource_iff hfiles hroot]
    constructor
    · rintro ⟨names, hnames, heq⟩
      obtain ⟨front, last, rfl, hown⟩ := (mem_listed_iff hroot hlisting names).mp hnames
      obtain ⟨hutf8, hresolves⟩ := hlists front last hown
      have hread : above ++ [name] = (front ++ [last]).map Text.ofBytes :=
        FilePath.eq_of_intercalate_eq (by simp) (by simp) hparts
          (FilePath.slash_not_mem_map_ofBytes (hlisting.isPart hfiles hnames)) heq
      have hnames_eq : (above ++ [name]).map Text.bytes = front ++ [last] := by
        rw [hread, List.map_map]
        exact FilePath.map_asRead_of_isUtf8 hutf8
      obtain ⟨rfl, rfl⟩ := List.concat_inj.mp (by simpa using hnames_eq)
      exact ⟨hown, hresolves⟩
    · rintro ⟨hown, -⟩
      refine ⟨_, (mem_listed_iff hroot hlisting _).mpr ⟨_, _, rfl, hown⟩, ?_⟩
      rw [← FilePath.textOf_map_bytes, List.map_append, List.map_singleton]

/-- The names of a listed entry, as they are read, are those of a resource file. -/
theorem isResource_asRead (hresources : s.AreResources place (.directory entries) paths)
    (hown : s.Lists (.directory entries) above name) :
    s.IsResource place (.directory entries) (above.map FilePath.asRead) (FilePath.asRead name) := by
  have hnames : above ++ [name] ∈ listed :=
    (mem_listed_iff hroot hlisting _).mpr ⟨above, name, rfl, hown⟩
  have hread : (above.map Text.ofBytes).map Text.bytes = above.map FilePath.asRead := List.map_map
  have hmap : above.map Text.ofBytes ++ [Text.ofBytes name] =
      (above ++ [name]).map Text.ofBytes := by
    rw [List.map_append, List.map_singleton]
  have hiff := hresources.mem_iff (above.map Text.ofBytes) (Text.ofBytes name)
  rw [hmap, hread] at hiff
  exact (hiff (FilePath.slash_not_mem_map_ofBytes (hlisting.isPart hfiles hnames))).mp
    (hlisting.mem_paths_iff.mpr ⟨_, hnames, rfl⟩)

/-- Where the listed paths are those of the resource files, the names of a listed entry are
those that its path is read back to. -/
theorem isUtf8_of_areResources (hresources : s.AreResources place (.directory entries) paths)
    (hown : s.Lists (.directory entries) above name) :
    (∀ part ∈ above ++ [name], Text.IsUtf8 part) ∧
      ¬s.files.tree.ResolvesToDirectory (place ++ above) name := by
  have hresource := isResource_asRead hfiles hroot hlisting hresources hown
  have hnames : above ++ [name] ∈ listed :=
    (mem_listed_iff hroot hlisting _).mpr ⟨above, name, rfl, hown⟩
  have hread : (above ++ [name]).map FilePath.asRead ∈ listed :=
    (mem_listed_iff hroot hlisting _).mpr
      ⟨_, _, List.map_append, ((isResource_iff hfiles hroot).mp hresource).1⟩
  have hnodup : (listed.map textOf).Nodup := by
    rw [← (perm_sorted _).nodup_iff, ← hlisting.paths_eq]
    refine hresources.increasing.imp ?_
    rintro path _ hlt rfl
    exact List.lt_irrefl _ hlt
  have hsame : (above ++ [name]).map FilePath.asRead = above ++ [name] :=
    List.inj_on_of_nodup_map hnodup hread hnames (FilePath.textOf_map_asRead _)
  constructor
  · intro part hpart
    rw [← hsame] at hpart
    obtain ⟨own, -, rfl⟩ := List.mem_map.mp hpart
    exact Text.isUtf8_bytes _
  · obtain ⟨habove, hname⟩ := List.concat_inj.mp (by simpa using hsame)
    rw [habove, hname] at hresource
    exact hresource.resolves

end

/-- A search below a directory, which the root may lead to by links, succeeds exactly when
each directory that it enters can be read.  It then lists every resource file: each listed
entry once, under its names as they are read.  These are the paths of the resource files in
strictly increasing order if and only if the names of all listed entries are UTF-8 and none
of them is a link that resolves to a directory. -/
theorem areResources_iff :
    ((∃ paths, s.resourceFiles.value = .ok paths) ↔
        ∀ names, names ≠ [] → s.Enters (.directory entries) names → s.Reads names) ∧
      ∀ paths, s.resourceFiles.value = .ok paths →
        (∃ listed, s.IsListing paths listed ∧
          ∀ names, names ∈ listed ↔ s.ListsNames (.directory entries) names) ∧
        (∀ above name, s.IsResource place (.directory entries) above name →
          s.Lists (.directory entries) above name) ∧
        (s.AreResources place (.directory entries) paths ↔
          ∀ above name, s.Lists (.directory entries) above name →
            (∀ part ∈ above ++ [name], Text.IsUtf8 part) ∧
              ¬s.files.tree.ResolvesToDirectory (place ++ above) name) := by
  refine ⟨exists_resourceFiles_iff hfiles hroot, fun paths hpaths => ?_⟩
  obtain ⟨listed, hlisting⟩ := exists_isListing hfiles hpaths
  refine ⟨⟨listed, hlisting, mem_listed_iff hroot hlisting⟩,
    fun above name h => ((isResource_iff hfiles hroot).mp h).1, ?_, ?_⟩
  · intro hresources above name hown
    exact isUtf8_of_areResources hfiles hroot hlisting hresources hown
  · exact areResources_of_isUtf8 hfiles hroot hlisting

end

/-- Two files with names that are not UTF-8, which are read as one text. -/
example :
    let files := FileTree.empty.put [0x61 :: 0xFE :: Text.bytes ".yaml"] (.file (some "b: 1\n"))
    let files := files.put [0x61 :: 0xFF :: Text.bytes ".yaml"] (.file (some "b: 2\n"))
    let search : Search := ⟨⟨files, []⟩, "/", ⟨[]⟩, .standard⟩
    search.walkRoot.value.toOption = some ["a\ufffd.yaml", "a\ufffd.yaml"] := by
  decide +kernel

/-- A search that goes from its root to a directory by more links than may be followed, and
by few from the directory that the root leads to. -/
def manyLinks : Search where
  files :=
    let top := FileTree.empty.put ["d"] .empty
    let top := top.put ["l"] (.link ".")
    ⟨top.put ["x.yaml"] (.link (FilePath.ofNames (List.replicate 36 "l" ++ ["d"]))), []⟩
  root := FilePath.ofNames (List.replicate 5 "l")
  rules := ⟨[]⟩
  options := .standard

/-- What is below the root of this search. -/
def belowManyLinks : List (FileName × FileTree) :=
  [("d", .empty), ("l", .link "."),
    ("x.yaml", .link (FilePath.ofNames (List.replicate 36 "l" ++ ["d"])))]

theorem wellFormed_manyLinks : manyLinks.files.tree.WellFormed := by
  apply FileTree.WellFormed.put _ (.link _) (by decide)
  apply FileTree.WellFormed.put _ (.link _) (by decide)
  exact FileTree.wellFormed_empty.put FileTree.wellFormed_empty (by decide)

theorem lookup_manyLinks :
    manyLinks.files.lookup true manyLinks.root = .ok ([], .directory belowManyLinks) := by
  rfl

theorem value_resourceFiles_manyLinks : manyLinks.resourceFiles.value = .ok ["x.yaml"] :=
  value_resourceFiles_of_walkRoot (by decide +kernel) (by decide)

/-- The link to the directory is listed, though it resolves. -/
theorem manyLinks_lists_directory :
    manyLinks.resourceFiles.value = .ok ["x.yaml"] ∧
      manyLinks.files.leadsToDirectory "x.yaml" = true ∧
      ¬manyLinks.AreResources [] (.directory belowManyLinks) ["x.yaml"] := by
  have hleads : manyLinks.files.leadsToDirectory "x.yaml" = true := by decide +kernel
  refine ⟨value_resourceFiles_manyLinks, hleads, ?_⟩
  obtain ⟨-, hlisted⟩ := areResources_iff wellFormed_manyLinks lookup_manyLinks
  obtain ⟨-, -, hiff⟩ := hlisted _ value_resourceFiles_manyLinks
  intro hresources
  have hown : manyLinks.Lists (.directory belowManyLinks) [] "x.yaml" :=
    ⟨enters_nil, by decide, ⟨_, rfl, rfl⟩, by decide +kernel⟩
  obtain ⟨stop, entries, hlookup⟩ := FileSystem.leadsToDirectory_iff.mp hleads
  obtain ⟨-, -, -, hparts⟩ := FileSystem.lookup_eq_ok hlookup
  exact (hiff.mp hresources [] "x.yaml" hown).2 ⟨stop, entries, hparts⟩

end Shipment.Search
