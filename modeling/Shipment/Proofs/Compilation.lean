import Shipment.Project
import Shipment.Proofs.Loading
import Shipment.Proofs.ResourceFiles

/-!
# Order and errors of a compilation

A compilation takes the listed files in order and the documents of each file in
order.  It gives the entries of all of them, or the error of the first file that
has one; a file is loaded as a whole before any of its documents is compiled, so
an error of loading comes first.  The listing is in order, and so are the origins of
the manifest, which increase strictly unless one path stands for several files.
-/

namespace Shipment

/-- Origins come in the order of the bytes of their paths and, within one file,
of the numbers of their documents. -/
def Origin.Before (left right : Origin) : Prop :=
  Text.bytes left.path < Text.bytes right.path ∨
    left.path = right.path ∧ left.document < right.document

theorem Origin.Before.ne {left right : Origin} (hbefore : left.Before right) : left ≠ right := by
  rintro rfl
  rcases hbefore with hpath | ⟨-, hdocument⟩
  · exact List.lt_irrefl _ hpath
  · exact Nat.lt_irrefl _ hdocument

namespace Project

variable (p : Project)

/-- The file at a path below the root loads as these documents. -/
def Loads (path : String) (documents : List SourceDocument) : Prop :=
  (SourceDocument.ofFile p.files p.root path).value = .ok documents

/-- How the steps of a document are handled. -/
def context (document : SourceDocument) : TaskContext :=
  ⟨p.files, p.root, p.options.taskType, ⟨document.path, document.number⟩⟩

/-- The documents of a file load, and each of them compiles to the entry at its place. -/
def FileCompiles (path : String) (entries : List Entry) : Prop :=
  ∃ documents, p.Loads path documents ∧
    List.Forall₂ (fun document entry => (p.compileDocument document).value = .ok entry)
      documents entries

/-- The documents of a file load, and none of them fails to compile. -/
def FileSucceeds (path : String) : Prop :=
  ∃ documents, p.Loads path documents ∧
    ∀ document ∈ documents, ∃ entry, (p.compileDocument document).value = .ok entry

/-- A file cannot be loaded, or the first of its documents that does not compile
fails with this error. -/
inductive FileFails (path : String) (e : CompileError) : Prop
  | loading (hload : (SourceDocument.ofFile p.files p.root path).value = .error e)
  | compiling {documents : List SourceDocument} (hload : p.Loads path documents)
      (hfails : Noted.FailsFirst p.compileDocument documents e)

theorem value_compileFile_eq_ok {path : String} {entries : List Entry} :
    (p.compileFile path).value = .ok entries ↔ p.FileCompiles path entries := by
  rw [compileFile, Noted.value_andThen_eq_ok]
  simp only [FileCompiles, Loads, Noted.value_forEach_eq_ok]

theorem fileSucceeds_iff {path : String} :
    p.FileSucceeds path ↔ ∃ entries, p.FileCompiles path entries := by
  constructor
  · rintro ⟨documents, hload, hsucceeds⟩
    obtain ⟨entries, hentries⟩ := Noted.exists_value_forEach_eq_ok.mpr hsucceeds
    exact ⟨entries, documents, hload, Noted.value_forEach_eq_ok.mp hentries⟩
  · rintro ⟨entries, documents, hload, hentries⟩
    refine ⟨documents, hload, fun document hdocument => ?_⟩
    obtain ⟨entry, -, hentry⟩ := exists_mem_right hentries hdocument
    exact ⟨entry, hentry⟩

instance (path : String) : Decidable (p.FileSucceeds path) :=
  decidable_of_iff ((p.compileFile path).value.toOption.isSome = true) <| by
    rw [fileSucceeds_iff]
    simp only [← value_compileFile_eq_ok]
    cases (p.compileFile path).value <;> simp [Except.toOption]

theorem succeeds_compileFile {paths : List String} :
    Noted.Succeeds p.compileFile paths ↔ ∀ path ∈ paths, p.FileSucceeds path := by
  simp only [Noted.Succeeds, value_compileFile_eq_ok, fileSucceeds_iff]

theorem value_compileFile_eq_error {path : String} {e : CompileError} :
    (p.compileFile path).value = .error e ↔ p.FileFails path e := by
  rw [compileFile, Noted.value_andThen_eq_error]
  constructor
  · rintro (hload | ⟨documents, hload, hfails⟩)
    · exact .loading hload
    · exact .compiling hload (Noted.value_forEach_eq_error.mp hfails)
  · rintro (hload | ⟨hload, hfails⟩)
    · exact Or.inl hload
    · exact Or.inr ⟨_, hload, Noted.value_forEach_eq_error.mpr hfails⟩

/-- A manifest holds the entries of the listed files, one file after another. -/
theorem value_compile_eq_ok {m : Manifest} :
    p.compile.value = .ok m ↔
      ∃ paths parts, p.findFiles.value = .ok paths ∧
        List.Forall₂ p.FileCompiles paths parts ∧ m.entries = parts.flatten := by
  simp only [compile, Noted.value_andThen_eq_ok, Noted.value_after, Noted.value_plain,
    Noted.value_forEach_eq_ok, value_compileFile_eq_ok]
  constructor
  · rintro ⟨parts, ⟨paths, hpaths, hparts⟩, hmanifest⟩
    cases hmanifest
    exact ⟨paths, parts, hpaths, hparts, rfl⟩
  · rintro ⟨paths, parts, hpaths, hparts, hentries⟩
    exact ⟨parts, ⟨paths, hpaths, hparts⟩, by rw [← hentries]⟩

theorem value_compile_eq_error {e : CompileError} :
    p.compile.value = .error e ↔
      p.findFiles.value = .error e ∨
        ∃ paths, p.findFiles.value = .ok paths ∧ Noted.FailsFirst p.compileFile paths e := by
  simp only [compile, Noted.value_andThen_eq_error, Noted.value_after, Noted.value_plain,
    Noted.value_forEach_eq_error]
  simp

variable {p}

/-! ## Origins of entries -/

theorem origin_of_compileDocument {document : SourceDocument} {entry : Entry}
    (hentry : (p.compileDocument document).value = .ok entry) :
    entry.origin = ⟨document.path, document.number⟩ := by
  unfold compileDocument at hentry
  split at hentry
  · cases hentry
  · simp only [Noted.value_map] at hentry
    split at hentry
    · cases hentry
    · cases hentry
      rfl

/-- The entries of a file carry its path and are numbered from one without a gap. -/
theorem FileCompiles.map_origin {path : String} {entries : List Entry}
    (hcompiles : p.FileCompiles path entries) :
    entries.map (·.origin) = (List.range' 1 entries.length).map (Origin.mk path) := by
  obtain ⟨documents, hload, hentries⟩ := hcompiles
  have hnumbered := SourceDocument.numberedFromOne_ofFile hload
  have horigins : entries.map (·.origin) = documents.map fun document =>
      (⟨path, document.number⟩ : Origin) := by
    have hpath := hnumbered.path_eq
    clear hload hnumbered
    induction hentries with
    | nil => rfl
    | cons hentry _ ih =>
        rw [List.map_cons, List.map_cons, origin_of_compileDocument hentry,
          hpath _ List.mem_cons_self,
          ih fun other hother => hpath other (List.mem_cons_of_mem _ hother)]
  calc
    entries.map (·.origin) = (documents.map (·.number)).map (Origin.mk path) := by
      rw [horigins, List.map_map]
      rfl
    _ = (List.range' 1 entries.length).map (Origin.mk path) := by
      rw [hnumbered.numbers_eq, hentries.length_eq]

theorem FileCompiles.path_of_mem {path : String} {entries : List Entry}
    (hcompiles : p.FileCompiles path entries) {entry : Entry} (hentry : entry ∈ entries) :
    entry.origin.path = path := by
  have hmem : entry.origin ∈ entries.map (·.origin) := List.mem_map_of_mem hentry
  rw [hcompiles.map_origin] at hmem
  obtain ⟨number, -, horigin⟩ := List.mem_map.mp hmem
  rw [← horigin]

theorem FileCompiles.pairwise_before {path : String} {entries : List Entry}
    (hcompiles : p.FileCompiles path entries) :
    (entries.map (·.origin)).Pairwise Origin.Before := by
  rw [hcompiles.map_origin, List.pairwise_map]
  exact List.Pairwise.imp (fun hlt => Or.inr ⟨rfl, hlt⟩) List.pairwise_lt_range'

/-- The first document of a file that has any is its origin number one. -/
theorem FileCompiles.first_mem {path : String} {entries : List Entry}
    (hcompiles : p.FileCompiles path entries) {entry : Entry} (hentry : entry ∈ entries) :
    (⟨path, 1⟩ : Origin) ∈ entries.map (·.origin) := by
  rw [hcompiles.map_origin]
  have hlength : 0 < entries.length := List.length_pos_of_mem hentry
  exact List.mem_map_of_mem (List.mem_range'_1.mpr ⟨Nat.le_refl 1, by omega⟩)

section

variable {paths : List String} {parts : List (List Entry)}
  (hparts : List.Forall₂ p.FileCompiles paths parts)

include hparts

/-- The path of an entry behind others is listed. -/
theorem exists_fileCompiles_of_mem_flatten {entry : Entry} (hentry : entry ∈ parts.flatten) :
    entry.origin.path ∈ paths ∧ ∃ part ∈ parts, entry ∈ part ∧
      p.FileCompiles entry.origin.path part := by
  obtain ⟨part, hpart, hmem⟩ := List.mem_flatten.mp hentry
  obtain ⟨path, hpath, hcompiles⟩ := exists_mem_left hparts hpart
  obtain rfl := hcompiles.path_of_mem hmem
  exact ⟨hpath, part, hpart, hmem, hcompiles⟩

/-- Origins in files that differ differ. -/
theorem nodup_origins_flatten (hpaths : paths.Nodup) :
    (parts.flatten.map (·.origin)).Nodup := by
  induction hparts with
  | nil => simp
  | @cons path entries paths parts hentries hparts ih =>
      obtain ⟨hfirst, hrest⟩ := List.nodup_cons.mp hpaths
      rw [List.flatten_cons, List.map_append, List.nodup_append]
      refine ⟨hentries.pairwise_before.imp Origin.Before.ne, ih hrest, ?_⟩
      rintro origin hleft _ hright rfl
      obtain ⟨entry, hentry, rfl⟩ := List.mem_map.mp hleft
      obtain ⟨other, hother, heq⟩ := List.mem_map.mp hright
      refine hfirst ?_
      rw [← hentries.path_of_mem hentry, ← heq]
      exact (exists_fileCompiles_of_mem_flatten hparts hother).1

/-- In the order of the listing, origins that differ increase strictly. -/
theorem pairwise_before_flatten (hpaths : paths.Pairwise (· ≤ ·))
    (hnodup : (parts.flatten.map (·.origin)).Nodup) :
    (parts.flatten.map (·.origin)).Pairwise Origin.Before := by
  induction hparts with
  | nil => simp
  | @cons path entries paths parts hentries hparts ih =>
      obtain ⟨hfirst, hrest⟩ := List.pairwise_cons.mp hpaths
      rw [List.flatten_cons, List.map_append] at hnodup ⊢
      obtain ⟨-, hnodup_rest, hdisjoint⟩ := List.nodup_append.mp hnodup
      refine List.pairwise_append.mpr ⟨hentries.pairwise_before, ih hrest hnodup_rest, ?_⟩
      intro left hleft right hright
      obtain ⟨entry, hentry, rfl⟩ := List.mem_map.mp hleft
      obtain ⟨other, hother, rfl⟩ := List.mem_map.mp hright
      obtain ⟨hpath, part, hpart, hmem, hcompiles⟩ :=
        exists_fileCompiles_of_mem_flatten hparts hother
      refine Or.inl (Text.lt_iff_bytes_lt.mp ?_)
      rw [hentries.path_of_mem hentry]
      refine lt_of_le_of_ne (hfirst _ hpath) ?_
      -- two files with the same path have first documents with the same origin
      rintro rfl
      obtain ⟨one, hone, horigin⟩ := List.mem_map.mp (hcompiles.first_mem hmem)
      have hflatten : one.origin ∈ parts.flatten.map (·.origin) :=
        List.mem_map_of_mem (List.mem_flatten.mpr ⟨part, hpart, hone⟩)
      exact hdisjoint _ (hentries.first_mem hentry) _ hflatten horigin.symm

end

/-! ## The listing -/

variable (p) in
/-- The names of the entries that the search of the project lists are UTF-8. -/
def ListsUtf8 : Prop :=
  ∀ rules, p.ignoreRules.value = .ok rules → ∀ names place tree,
    Search.ListsAt ⟨p.files, p.root, rules, p.options⟩ names place tree →
      ∀ name ∈ names, Text.IsUtf8 name

section

variable {paths : List String} (hpaths : p.findFiles.value = .ok paths)

include hpaths

theorem pairwise_le_findFiles : paths.Pairwise (· ≤ ·) := by
  obtain ⟨rules, -, hsearch⟩ := Noted.value_andThen_eq_ok.mp hpaths
  obtain ⟨found, -, rfl⟩ := Search.value_resourceFiles_eq_ok.mp hsearch
  exact Search.pairwise_le_sorted found

theorem nodup_findFiles (hfiles : p.files.tree.WellFormed) (hutf8 : p.ListsUtf8) :
    paths.Nodup := by
  obtain ⟨rules, hrules, hsearch⟩ := Noted.value_andThen_eq_ok.mp hpaths
  obtain ⟨listed, hlisting⟩ :=
    Search.exists_isListing (s := ⟨p.files, p.root, rules, p.options⟩) hfiles hsearch
  rw [hlisting.paths_eq, (Search.perm_sorted _).nodup_iff]
  refine hlisting.nodup_map_textOf hfiles fun names hnames => ?_
  obtain ⟨place, tree, hentry⟩ := (hlisting.mem_iff names).mp hnames
  exact hutf8 rules hrules names place tree hentry

/-- It can be seen from the listing that names are UTF-8. -/
theorem listsUtf8_of_findFiles (hfiles : p.files.tree.WellFormed)
    (hread : ∀ path ∈ paths, Text.replacement ∉ path.toList) : p.ListsUtf8 := by
  intro rules hrules names place tree hentry
  obtain ⟨own, hown, hsearch⟩ := Noted.value_andThen_eq_ok.mp hpaths
  obtain rfl : rules = own := Except.ok.inj (hrules.symm.trans hown)
  have hpath : FilePath.textOf names ∈ paths :=
    (Search.mem_resourceFiles_iff hfiles hsearch).mpr ⟨names, rfl, place, tree, hentry⟩
  exact FilePath.isUtf8_of_not_mem_textOf (hread _ hpath)

end

/-! ## The whole compilation -/

/-- A project with two files, the first of which holds two documents. -/
def twoFiles : Project where
  files :=
    let top := FileTree.empty.put ["p", "b.yml"] (.file (some "note: c\n"))
    ⟨top.put ["p", "a.yml"] (.file (some "note: d\n---\ntype: crew\nname: e\n")), []⟩
  root := "/p"
  options := Options.standard

theorem wellFormed_twoFiles : twoFiles.files.tree.WellFormed := by
  apply FileTree.WellFormed.put _ (.file _) (by decide)
  exact FileTree.wellFormed_empty.put (.file _) (by decide)

theorem value_findFiles_twoFiles : twoFiles.findFiles.value = .ok ["a.yml", "b.yml"] := by
  have hrules : twoFiles.ignoreRules.value = .ok .empty := by rfl
  rw [findFiles, Noted.value_andThen_of_ok hrules]
  exact Search.value_resourceFiles_of_walkRoot (by decide +kernel) (by decide)

theorem value_compile_twoFiles :
    twoFiles.compile.value =
      .ok ⟨[⟨⟨"a.yml", 1⟩, .object [("note", .string "d")]⟩,
        ⟨⟨"a.yml", 2⟩, .object [("name", .string "e"), ("type", .string "crew")]⟩,
        ⟨⟨"b.yml", 1⟩, .object [("note", .string "c")]⟩]⟩ := by
  refine (value_compile_eq_ok _).mpr ⟨_, [[_, _], [_]], value_findFiles_twoFiles, ?_, rfl⟩
  refine .cons ?_ (.cons ?_ .nil)
  all_goals
    rw [← value_compileFile_eq_ok]
    with_unfolding_all rfl

end Project

end Shipment
