import Shipment.Loading
import Shipment.Proofs.ResourceFiles

/-!
# Opening what a search lists

A listed path stands for an entry of the tree, and is joined to the root to open it.  The
joined path goes by the names of the entry as they are read.  It leads back to the entry if
the root leads to a directory, the path is not too long and the names as they are read lead
to where the names do, as those that are UTF-8 always do; then the entry can be loaded
unless it is a link or a file without text.  Another root is the only entry of its search,
under the empty path, which does not lead back to it.
-/

namespace Shipment.Search

open FilePath (textOf asRead)

variable (s : Search)

/-- The names of an entry at a place, as they are read, lead back to it: the last one is
UTF-8, and those above it lead to the directory that the entry is in. -/
def ReadsBack (names place : List FileName) : Prop :=
  ∃ above name entries, names = above ++ [name] ∧ Text.IsUtf8 name ∧
    s.files.lookup true (s.fullPath (above.map asRead)) = .ok (place.dropLast, .directory entries)

variable {s} {path : String} {names place : List FileName} {tree : FileTree}

section Below

variable {base above : List FileName} {name : FileName} {entries : List (FileName × FileTree)}
  (hroot : s.files.lookup true s.root = .ok (base, .directory entries))
  (hnames : ∀ other ∈ above ++ [name], ProperName other)

include hroot hnames

/-- What is found under the text of the names is in the directory that the names above lead to
as they are read. -/
theorem readsBack_of_lookup
    (hfound : s.files.lookup false (FilePath.join s.root (textOf (above ++ [name]))) =
      .ok (base ++ (above ++ [name]), tree)) :
    s.ReadsBack (above ++ [name]) (base ++ (above ++ [name])) := by
  have habove : ∀ other ∈ above.map asRead, FilePath.IsPart other :=
    List.forall_mem_map.mpr fun other hother =>
      (hnames other (List.mem_append_left _ hother)).isPart.asRead
  have hname := hnames name (by simp)
  rw [s.join_textOf (by simp) hnames, List.map_append, List.map_singleton, fullPath_concat]
    at hfound
  obtain ⟨stop, below, hlookup, hplace⟩ := FileSystem.lookup_of_lookup_join
    (s.fullPath_ne_nil (FileSystem.lookup_eq_ok hroot).2.2.1 habove)
    hname.isPart.asRead (FilePath.asRead_ne_selfName hname.ne_self)
    (FilePath.asRead_ne_parentName hname.ne_parent) hfound
  have hsplit : (base ++ above) ++ [name] = stop ++ [asRead name] :=
    (List.append_assoc ..).trans hplace
  obtain ⟨rfl, hread⟩ := List.append_inj' hsplit rfl
  refine ⟨above, name, below, rfl, ⟨_, (List.singleton_inj.mp hread).symm⟩, ?_⟩
  rw [hlookup, ← List.append_assoc, List.dropLast_concat]

/-- Names that lead back to an entry as they are read lead to it by their text. -/
theorem lookup_of_readsBack
    (htree : (FileTree.directory entries).descend (above ++ [name]) = some tree)
    (hshort : (FilePath.join s.root (textOf (above ++ [name]))).length < FileTree.pathLimit)
    (hback : s.ReadsBack (above ++ [name]) (base ++ (above ++ [name]))) :
    s.files.lookup false (FilePath.join s.root (textOf (above ++ [name]))) =
      .ok (base ++ (above ++ [name]), tree) := by
  obtain ⟨front, last, below, heq, hutf8, hlookup⟩ := hback
  obtain ⟨rfl, hlast⟩ := List.append_inj' heq rfl
  obtain rfl := List.singleton_inj.mp hlast
  rw [← List.append_assoc, List.dropLast_concat] at hlookup
  have hown : (FileTree.directory below).descend [name] = some tree := by
    have hplace : s.files.tree.descend (base ++ above ++ [name]) = some tree := by
      rw [List.append_assoc, FileTree.descend_append, FileSystem.descend_of_lookup hroot]
      exact htree
    rw [FileTree.descend_append, FileSystem.descend_of_lookup hlookup] at hplace
    exact hplace
  have hpath : FilePath.join s.root (textOf (above ++ [name])) =
      FilePath.join (s.fullPath (above.map asRead)) (FilePath.ofNames [name]) := by
    rw [s.join_textOf (by simp) hnames, List.map_append, List.map_singleton, fullPath_concat,
      FilePath.asRead_of_isUtf8 hutf8, FilePath.ofNames, List.intercalate_singleton]
  rw [hpath] at hshort ⊢
  have hname := List.forall_mem_singleton.mpr (hnames name (by simp))
  rw [FileSystem.lookup_join hlookup (List.cons_ne_nil _ _) hname hown (by simp) hshort,
    List.append_assoc]

/-- Names that are UTF-8 are read as themselves, and lead back. -/
theorem readsBack_of_isUtf8
    (htree : (FileTree.directory entries).descend (above ++ [name]) = some tree)
    (hshort : (FilePath.join s.root (textOf (above ++ [name]))).length < FileTree.pathLimit)
    (hutf8 : ∀ other ∈ above ++ [name], Text.IsUtf8 other) :
    s.ReadsBack (above ++ [name]) (base ++ (above ++ [name])) := by
  obtain ⟨habove, hname⟩ := List.forall_mem_append.mp hutf8
  obtain ⟨hproper, -⟩ := List.forall_mem_append.mp hnames
  have hread : above.map asRead = above := FilePath.map_asRead_of_isUtf8 habove
  obtain ⟨below, hbelow⟩ := FileTree.exists_directory_of_descend htree (List.cons_ne_nil _ _)
  refine ⟨above, name, below, rfl, List.forall_mem_singleton.mp hname, ?_⟩
  rw [hread, ← List.append_assoc, List.dropLast_concat]
  rcases eq_or_ne above [] with rfl | hne
  · obtain rfl : entries = below := by simpa [FileTree.descend] using hbelow
    rw [List.append_nil]
    exact hroot
  · rw [s.join_textOf (by simp) hnames, FilePath.map_asRead_of_isUtf8 hutf8, fullPath_concat]
      at hshort
    have hpart := (hnames name (by simp)).isPart
    rw [s.fullPath_eq hne hproper] at hshort ⊢
    exact FileSystem.lookup_join hroot hne hproper hbelow (by simp)
      ((FilePath.prefix_join hpart.isAbsolute).length_le.trans_lt hshort)

end Below

/-- Joined to the root, the path of a listed entry leads back to the entry, unless the entry
is the root itself, a path of this length is refused or its names as they are read do not. -/
theorem ListsAt.lookup_iff (hfiles : s.files.tree.WellFormed) (hentry : s.ListsAt names place tree) :
    (textOf names ≠ "" ∧
        s.files.lookup false (FilePath.join s.root (textOf names)) = .ok (place, tree)) ↔
      s.files.leadsToDirectory s.root = true ∧
        (FilePath.join s.root (textOf names)).length < FileTree.pathLimit ∧
        s.ReadsBack names place := by
  have hnames := hentry.properName hfiles
  have hparts := hentry.isPart hfiles
  cases hentry with
  | root hroot hkept =>
      rw [leadsToDirectory_of_keeps hkept]
      exact iff_of_false (fun h => h.1 rfl) (by simp)
  | below hroot hlists htree =>
      constructor
      · rintro ⟨-, hfound⟩
        exact ⟨leadsToDirectory_of_lookup hroot, (FileSystem.lookup_eq_ok hfound).2.1,
          readsBack_of_lookup hroot hnames hfound⟩
      · rintro ⟨-, hshort, hback⟩
        exact ⟨FilePath.textOf_ne_empty (by simp) hparts,
          lookup_of_readsBack hroot hnames htree hshort hback⟩

/-- Names that are UTF-8 lead back, if the path is not too long. -/
theorem ListsAt.readsBack (hfiles : s.files.tree.WellFormed) (hentry : s.ListsAt names place tree)
    (hutf8 : ∀ name ∈ names, Text.IsUtf8 name) (hleads : s.files.leadsToDirectory s.root = true)
    (hshort : (FilePath.join s.root (textOf names)).length < FileTree.pathLimit) :
    s.ReadsBack names place := by
  have hnames := hentry.properName hfiles
  cases hentry with
  | root hroot hkept => cases (leadsToDirectory_of_keeps hkept).symm.trans hleads
  | below hroot hlists htree => exact readsBack_of_isUtf8 hroot hnames htree hshort hutf8

/-- No directory is listed. -/
theorem ListsAt.isDirectory (hentry : s.ListsAt names place tree) : tree.isDirectory = false := by
  cases hentry with
  | below hroot hlists htree =>
      obtain ⟨own, hown, hkind⟩ := hlists.entry
      obtain rfl : own = tree := Option.some.inj (hown.symm.trans htree)
      exact hkind
  | root hroot hkept =>
      cases tree with
      | directory entries =>
          have hleads := leadsToDirectory_of_lookup (FileSystem.lookup_true (by simp) hroot)
          cases (leadsToDirectory_of_keeps hkept).symm.trans hleads
      | file text => rfl
      | link target => rfl

/-- Where the joined path leads to the listed entry, a file is loaded by its own text. -/
theorem ListsAt.load (hentry : s.ListsAt names place tree)
    (hfound : s.files.lookup false (FilePath.join s.root path) = .ok (place, tree)) :
    (∃ target, tree = .link target) ∨
      (tree = .file none ∧ (SourceDocument.ofFile s.files s.root path).value =
        .error (.fileUnreadable (FilePath.join s.root path) .invalidData)) ∨
      ∃ text, tree = .file (some text) ∧ (SourceDocument.ofFile s.files s.root path).value =
        SourceDocument.ofSource path text := by
  have hread : ∀ text, tree = .file text → s.files.readText (FilePath.join s.root path) =
      text.elim (.error .invalidData) .ok := by
    rintro text rfl
    rw [FileSystem.readText, FileSystem.lookup_true (by simp) hfound]
    cases text <;> rfl
  cases tree with
  | directory entries => cases hentry.isDirectory
  | link target => exact Or.inl ⟨target, rfl⟩
  | file text =>
      rw [SourceDocument.ofFile, Noted.value_after, Noted.value_plain, hread text rfl]
      cases text with
      | none => exact Or.inr (Or.inl ⟨rfl, rfl⟩)
      | some text => exact Or.inr (Or.inr ⟨text, rfl, rfl⟩)

/-- Each listed path is that of an entry.  It is not empty and leads from the root back to this
entry exactly if the root leads to a directory, the joined path is not too long and the names
of the entry lead back to it as they are read, as they always do where they are UTF-8.  Loading
it then fails only for a link, for a file without text or for the text of the file. -/
theorem listed_opens_iff (hfiles : s.files.tree.WellFormed) {paths : List String}
    (hpaths : s.resourceFiles.value = .ok paths) (hpath : path ∈ paths) :
    (∃ names, path = textOf names ∧ ∃ place tree, s.ListsAt names place tree) ∧
      ∀ names place tree, path = textOf names → s.ListsAt names place tree →
        ((path ≠ "" ∧ s.files.lookup false (FilePath.join s.root path) = .ok (place, tree)) ↔
          s.files.leadsToDirectory s.root = true ∧
            (FilePath.join s.root path).length < FileTree.pathLimit ∧ s.ReadsBack names place) ∧
        ((∀ name ∈ names, Text.IsUtf8 name) → s.files.leadsToDirectory s.root = true →
          (FilePath.join s.root path).length < FileTree.pathLimit → s.ReadsBack names place) ∧
        (s.files.lookup false (FilePath.join s.root path) = .ok (place, tree) →
          (∃ target, tree = .link target) ∨
            (tree = .file none ∧ (SourceDocument.ofFile s.files s.root path).value =
              .error (.fileUnreadable (FilePath.join s.root path) .invalidData)) ∨
            ∃ text, tree = .file (some text) ∧
              (SourceDocument.ofFile s.files s.root path).value =
                SourceDocument.ofSource path text) := by
  constructor
  · exact (mem_resourceFiles_iff hfiles hpaths).mp hpath
  · rintro names place tree rfl hentry
    exact ⟨hentry.lookup_iff hfiles, hentry.readsBack hfiles, hentry.load⟩

/-- A search whose root is a file. -/
def fileRoot : Search where
  files := ⟨FileTree.empty.put ["p", "a.yaml"] (.file (some "x: 1")), ["p"]⟩
  root := "a.yaml"
  rules := ⟨[]⟩
  options := .standard

theorem wellFormed_fileRoot : fileRoot.files.tree.WellFormed :=
  FileTree.wellFormed_empty.put (.file _) (by decide)

/-- A root that is a file is listed under the empty path, which leads from it to nothing. -/
theorem fileRoot_lists_empty :
    fileRoot.resourceFiles.value = .ok [""] ∧
      fileRoot.ListsAt [] ["p", "a.yaml"] (.file (some "x: 1")) ∧
      (SourceDocument.ofFile fileRoot.files fileRoot.root "").value =
        .error (.fileUnreadable "a.yaml/" .notADirectory) ∧
      ¬("" ≠ "" ∧ fileRoot.files.lookup false (FilePath.join fileRoot.root "") =
        .ok (["p", "a.yaml"], .file (some "x: 1"))) := by
  have hroot : fileRoot.files.lookup false fileRoot.root =
      .ok (["p", "a.yaml"], .file (some "x: 1")) := by
    rfl
  have hkept : fileRoot.keeps "" fileRoot.root (FilePath.fileName fileRoot.root) = true := by
    decide +kernel
  have hpaths : fileRoot.resourceFiles.value = .ok [""] :=
    value_resourceFiles_of_walkRoot (by decide +kernel) (by decide)
  have hentry : fileRoot.ListsAt [] ["p", "a.yaml"] (.file (some "x: 1")) := .root hroot hkept
  obtain ⟨-, hopens⟩ := listed_opens_iff wellFormed_fileRoot hpaths List.mem_cons_self
  obtain ⟨hiff, -⟩ := hopens _ _ _ rfl hentry
  refine ⟨hpaths, hentry, by rfl, hiff.not.mpr ?_⟩
  rw [leadsToDirectory_of_keeps hkept]
  simp

end Shipment.Search
