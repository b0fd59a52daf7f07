import Shipment.Proofs.Files.Lookup

/-!
# Where a path leads

A path leads to an entry of the tree.  A path to a directory with names behind it leads
to the entry at these names below that directory, as long as no link stands on the way
and the path is not too long.
-/

namespace Shipment

/-- A name in the directory at a place resolves to a directory, if it is looked up from there. -/
def FileTree.ResolvesToDirectory (top : FileTree) (place : List FileName) (name : FileName) : Prop :=
  ∃ stop entries, top.lookupParts true FileTree.linkLimit place [name] = .ok (stop, .directory entries)

namespace FileSystem

open FileTree (Found pathLimit linkLimit lookupParts)

variable {files : FileSystem} {follow : Bool} {path root child : FilePath} {found : Found}
  {place names : List FileName} {entries : List (FileName × FileTree)} {tree : FileTree}

/-- A path without a null that is neither too long nor empty is looked up part by part. -/
theorem lookup_eq_lookupParts (hnull : 0 ∉ path) (hshort : path.length < pathLimit)
    (hpath : path ≠ []) :
    files.lookup follow path =
      lookupParts files.tree follow linkLimit (files.start path) (FilePath.parts path) := by
  rw [lookup, if_neg (by simpa using hnull), if_neg (Nat.not_le.mpr hshort),
    if_neg (by simpa using hpath)]

theorem lookup_eq_ok (hfound : files.lookup follow path = .ok found) :
    0 ∉ path ∧ path.length < pathLimit ∧ path ≠ [] ∧
      lookupParts files.tree follow linkLimit (files.start path) (FilePath.parts path) =
        .ok found := by
  rw [lookup] at hfound
  split_ifs at hfound with hnull hlong hempty
  exact ⟨by simpa using hnull, Nat.not_le.mp hlong, by simpa using hempty, hfound⟩

/-- A lookup gives the entry at the place it gives. -/
theorem descend_of_lookup (hfound : files.lookup follow path = .ok found) :
    files.tree.descend found.1 = some found.2 :=
  FileTree.descend_of_lookupParts (lookup_eq_ok hfound).2.2.2

/-- What a lookup finds is a part of the tree. -/
theorem wellFormed_of_lookup (hfiles : files.tree.WellFormed)
    (hfound : files.lookup follow path = .ok found) : found.2.WellFormed :=
  hfiles.descend (descend_of_lookup hfound)

/-- A lookup that does not follow a link at the end of the path differs from one
that does in stopping at that link. -/
theorem lookup_false (hfound : files.lookup true path = .ok found) :
    files.lookup false path = .ok found ∨
      ∃ stop target, files.lookup false path = .ok (stop, .link target) := by
  rw [lookup] at hfound ⊢
  split_ifs at hfound ⊢
  exact FileTree.lookupParts_false hfound

/-- Where a lookup does not end at a link, it does not matter whether it would follow one. -/
theorem lookup_true (hkind : ∀ target, found.2 ≠ .link target)
    (hfound : files.lookup false path = .ok found) : files.lookup true path = .ok found := by
  rw [lookup] at hfound ⊢
  split_ifs at hfound ⊢
  exact FileTree.lookupParts_true hkind hfound

/-! ## Behind a path to a directory -/

/-- A joined path is looked up from where its root is. -/
theorem start_join (hroot : root ≠ []) (hchild : FilePath.isAbsolute child = false) :
    files.start (FilePath.join root child) = files.start root := by
  rw [start, start, FilePath.isAbsolute_join hroot hchild]

/-- Behind a path to a directory, a lookup goes on from the place of the directory. -/
theorem lookupParts_join (hroot : files.lookup true root = .ok (place, .directory entries))
    (hchild : FilePath.isAbsolute child = false) :
    ∃ left ≤ linkLimit, ∀ extra follow,
      lookupParts files.tree follow (extra + linkLimit) (files.start (FilePath.join root child))
          (FilePath.parts (FilePath.join root child)) =
        lookupParts files.tree follow (extra + left) place (FilePath.parts child) := by
  obtain ⟨-, -, hbase, hgoal⟩ := lookup_eq_ok hroot
  obtain ⟨front, tail, -, htail, hparts, hjoin⟩ := FilePath.parts_join hbase hchild
  rw [hparts] at hgoal
  obtain ⟨left, hle, hleft⟩ := FileTree.lookupParts_resume htail hgoal
  refine ⟨left, hle, fun extra follow => ?_⟩
  rw [start_join hbase hchild, hjoin, hleft extra follow _ (FilePath.parts_ne_nil child)]

theorem zero_not_mem_join (hroot : 0 ∉ root) (hchild : 0 ∉ child) :
    0 ∉ FilePath.join root child := by
  intro hmem
  rcases FilePath.mem_join hmem with hown | heq | hown
  · exact hroot hown
  · cases heq
  · exact hchild hown

/-- The path of an entry below a directory, made from a path to that directory,
leads to the entry, to a link if links at the end of a path are not followed. -/
theorem lookup_join (hroot : files.lookup true root = .ok (place, .directory entries))
    (hne : names ≠ []) (hnames : ∀ name ∈ names, ProperName name)
    (hdescend : (FileTree.directory entries).descend names = some tree)
    (hlink : follow = true → ∀ target, tree ≠ .link target)
    (hshort : (FilePath.join root (FilePath.ofNames names)).length < pathLimit) :
    files.lookup follow (FilePath.join root (FilePath.ofNames names)) =
      .ok (place ++ names, tree) := by
  have hchild := FilePath.isAbsolute_ofNames fun name hname => (hnames name hname).isPart
  have hplace : files.tree.descend (place ++ names) = some tree := by
    rw [FileTree.descend_append, descend_of_lookup hroot]
    exact hdescend
  obtain ⟨hnull, -, hbase, -⟩ := lookup_eq_ok hroot
  have hclean : 0 ∉ FilePath.ofNames names := by
    intro hmem
    rcases FilePath.mem_ofNames hmem with heq | ⟨name, hname, hmem⟩
    · cases heq
    · exact (hnames name hname).no_null hmem
  obtain ⟨left, -, hleft⟩ := lookupParts_join hroot hchild
  rw [lookup_eq_lookupParts (zero_not_mem_join hnull hclean) hshort
      (FilePath.join_ne_nil hbase hchild),
    ← Nat.zero_add linkLimit, hleft, FileTree.lookupParts_eq,
    FilePath.parts_ofNames hne fun name hname => (hnames name hname).no_slash]
  exact FileTree.lookupFrom_names _ hnames hplace hlink

/-- A name that is found behind a path is found in the directory to which the path leads. -/
theorem lookup_of_lookup_join {name : FileName} (hroot : root ≠ [])
    (hpart : FilePath.IsPart name) (hself : name ≠ FilePath.selfName)
    (hparent : name ≠ FilePath.parentName)
    (hfound : files.lookup false (FilePath.join root name) = .ok found) :
    ∃ stop entries, files.lookup true root = .ok (stop, .directory entries) ∧
      found.1 = stop ++ [name] := by
  have hlead : root <+: FilePath.join root name := FilePath.prefix_join hpart.isAbsolute
  obtain ⟨hnull, hshort, -, hparts⟩ := lookup_eq_ok hfound
  obtain ⟨front, tail, -, htail, hbase, hjoin⟩ := FilePath.parts_join hroot hpart.isAbsolute
  rw [start_join hroot hpart.isAbsolute, hjoin, FilePath.parts_of_not_mem hpart.no_slash] at hparts
  obtain ⟨stop, entries, hgoal, hplace⟩ :=
    FileTree.exists_directory_of_lookupParts ⟨hpart.ne_empty, hself, hparent⟩ hparts
  refine ⟨stop, entries, ?_, hplace⟩
  rw [lookup_eq_lookupParts (fun hmem => hnull (hlead.subset hmem))
    (hlead.length_le.trans_lt hshort) hroot, hbase]
  rcases htail with rfl | rfl
  · rwa [List.append_nil]
  · exact FileTree.lookupParts_concat_nil hgoal

theorem leadsToDirectory_iff : files.leadsToDirectory path = true ↔
    ∃ place entries, files.lookup true path = .ok (place, .directory entries) := by
  rw [leadsToDirectory]
  constructor
  · intro hleads
    cases hlookup : files.lookup true path with
    | error cause => simp [hlookup] at hleads
    | ok found =>
        obtain ⟨place, _ | entries | target⟩ := found
        · simp [hlookup, FileTree.isDirectory] at hleads
        · exact ⟨place, entries, rfl⟩
        · simp [hlookup, FileTree.isDirectory] at hleads
  · rintro ⟨place, entries, hlookup⟩
    rw [hlookup]
    rfl

/-- Only a path that is short enough leads anywhere. -/
theorem leadsToDirectory_of_long (hlong : pathLimit ≤ path.length) :
    files.leadsToDirectory path = false := by
  rw [leadsToDirectory]
  cases hlookup : files.lookup true path with
  | error cause => rfl
  | ok found => exact absurd (lookup_eq_ok hlookup).2.1 (Nat.not_lt.mpr hlong)

/-- The path of a file, made from a path to a directory above it, leads to no directory. -/
theorem leadsToDirectory_join_of_file
    (hroot : files.lookup true root = .ok (place, .directory entries))
    (hne : names ≠ []) (hnames : ∀ name ∈ names, ProperName name) {text : Option String}
    (hdescend : (FileTree.directory entries).descend names = some (.file text)) :
    files.leadsToDirectory (FilePath.join root (FilePath.ofNames names)) = false := by
  by_cases hshort : (FilePath.join root (FilePath.ofNames names)).length < pathLimit
  · rw [leadsToDirectory, lookup_join hroot hne hnames hdescend (by simp) hshort]
    rfl
  · exact leadsToDirectory_of_long (Nat.not_lt.mp hshort)

/-- A name that leads to a directory by its full path does so from the directory that
it is in. -/
theorem resolvesToDirectory_of_leadsToDirectory {above : List FileName} {name : FileName}
    (hroot : files.lookup true root = .ok (place, .directory entries))
    (hnames : ∀ other ∈ above ++ [name], ProperName other)
    (hdescend : (FileTree.directory entries).descend (above ++ [name]) = some tree)
    (hleads : files.leadsToDirectory
      (FilePath.join root (FilePath.ofNames (above ++ [name]))) = true) :
    files.tree.ResolvesToDirectory (place ++ above) name := by
  have hchild := FilePath.isAbsolute_ofNames fun name hname => (hnames name hname).isPart
  obtain ⟨left, hle, hleft⟩ := lookupParts_join hroot hchild
  have hplace : files.tree.descend ((place ++ above) ++ [name]) = some tree := by
    rw [List.append_assoc, FileTree.descend_append, descend_of_lookup hroot]
    exact hdescend
  obtain ⟨own, hown⟩ := FileTree.exists_directory_of_descend hplace (List.cons_ne_nil _ _)
  obtain ⟨stop, below, hfound⟩ := leadsToDirectory_iff.mp hleads
  obtain ⟨-, -, -, hparts⟩ := lookup_eq_ok hfound
  rw [← Nat.zero_add linkLimit, hleft,
    FilePath.parts_ofNames (by simp) fun other hother => (hnames other hother).no_slash,
    FileTree.lookupParts_eq, FileTree.lookupFrom_names_append _
      (fun other hother => hnames other (List.mem_append_left _ hother)) hown,
    ← FileTree.lookupParts_eq, Nat.zero_add] at hparts
  -- the links that the full path leaves are not more than a lookup of the name may follow
  obtain ⟨extra, hextra⟩ := Nat.exists_eq_add_of_le' hle
  refine ⟨stop, below, ?_⟩
  rw [hextra, FileTree.lookupParts_mono (by simp [hparts]), hparts]

end FileSystem

end Shipment
