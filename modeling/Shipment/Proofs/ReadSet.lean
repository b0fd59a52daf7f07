import Shipment.Project
import Shipment.Proofs.Compilation
import Shipment.Proofs.Files.Skeleton

/-!
# The files that a compilation reads

A compilation reads the ignore file, the listed files, and the sources of the steps of
the tasks in these.  Whatever all other files hold, it gives the same result and makes
the same notes, whether it succeeds or fails.
-/

namespace Shipment

/-! ## Other contents for a file -/

namespace FileTree

/-- Another value for a key that is there keeps the skeletons if it has the same skeleton. -/
theorem skeletons_insert {name : FileName} {tree own : FileTree}
    {entries : List (FileName × FileTree)} (hordered : Fields.Ordered entries)
    (hown : Fields.get? name entries = some own) (hsame : tree.skeleton = own.skeleton) :
    skeletons (Fields.insert name tree entries) = skeletons entries := by
  induction entries with
  | nil => cases hown
  | cons entry rest ih =>
      obtain ⟨first, below⟩ := entry
      obtain ⟨hfirst, hrest⟩ := List.pairwise_cons.mp hordered
      rw [Fields.get?] at hown
      rw [Fields.insert]
      by_cases heq : name = first
      · subst heq
        obtain rfl : below = own := by simpa using hown
        rw [if_neg (List.lt_irrefl name), if_pos rfl, skeletons, skeletons, hsame]
      · rw [if_neg heq] at hown
        -- the key stands behind the first one
        have hlt : first < name := hfirst _ (Fields.mem_of_get? hown)
        rw [if_neg (List.lt_asymm hlt), if_neg heq, skeletons, skeletons, ih hrest hown]

theorem skeleton_put {tree : FileTree} (htree : tree.WellFormed) {place : List FileName}
    {old : Option String} (hplace : tree.descend place = some (file old)) (text : Option String) :
    (tree.put place (file text)).skeleton = tree.skeleton := by
  induction place generalizing tree with
  | nil =>
      obtain rfl : tree = file old := Option.some.inj hplace
      rfl
  | cons name rest ih =>
      obtain ⟨below, hbelow, hrest⟩ := Option.bind_eq_some_iff.mp hplace
      cases htree with
      | file text => cases hbelow
      | link target => cases hbelow
      | @directory entries hordered hnames hwell =>
          have hget : Fields.get? name entries = some below := hbelow
          have hsame := ih (hwell _ (Fields.mem_of_get? hget)) hrest
          rw [put]
          simp only [hget, Option.getD_some]
          rw [skeleton, skeleton, skeletons_insert hordered hget hsame]

/-- Putting a file where a file was changes no other file. -/
theorem descend_put_of_ne {tree : FileTree} {place names : List FileName}
    {old text : Option String}
    (hplace : tree.descend place = some (file old)) (hnames : tree.descend names = some (file text))
    (hne : names ≠ place) (content : Option String) :
    (tree.put place (file content)).descend names = some (file text) := by
  induction place generalizing tree names with
  | nil =>
      obtain rfl : tree = file old := Option.some.inj hplace
      obtain ⟨name, more, rfl⟩ := List.exists_cons_of_ne_nil hne
      cases hnames
  | cons name rest ih =>
      obtain ⟨below, hbelow, hrest⟩ := Option.bind_eq_some_iff.mp hplace
      cases tree with
      | file text => cases hbelow
      | link target => cases hbelow
      | directory entries =>
          have hget : Fields.get? name entries = some below := hbelow
          cases names with
          | nil => cases hnames
          | cons own more =>
              obtain ⟨next, hnext, hmore⟩ := Option.bind_eq_some_iff.mp hnames
              have hchild : Fields.get? own entries = some next := hnext
              rw [put]
              simp only [hget, Option.getD_some, descend, child?, Fields.get?_insert]
              by_cases heq : own = name
              · subst heq
                obtain rfl : below = next := Option.some.inj (hget.symm.trans hchild)
                rw [if_pos rfl, Option.bind_some]
                exact ih hrest hmore fun hsame => hne (by rw [hsame])
              · rw [if_neg heq, hchild, Option.bind_some, hmore]

end FileTree

/-! ## Sources of steps -/

namespace TaskContext

variable (ctx : TaskContext)

/-- The document is a task, and one of its steps names this source. -/
def Names (spec : Json) (source : String) : Prop :=
  typeOf spec = some ctx.taskType ∧
    ∃ steps fields, spec.get? stepsPointer = some (.array steps) ∧ .object fields ∈ steps ∧
      Fields.get? "source" fields = some (.string source)

/-- The same task with other files. -/
def withFiles (files : FileSystem) : TaskContext :=
  { ctx with files }

variable {ctx} {files : FileSystem}

theorem inlineStep_withFiles {index : Nat} {step : Json}
    (hsame : ∀ fields source, step = .object fields →
      Fields.get? "source" fields = some (.string source) →
        files.readText (ctx.sourcePath source) = ctx.files.readText (ctx.sourcePath source)) :
    (ctx.withFiles files).inlineStep index step = ctx.inlineStep index step := by
  have hpath : ∀ source, (ctx.withFiles files).sourcePath source = ctx.sourcePath source :=
    fun _ => rfl
  have horigin : (ctx.withFiles files).origin = ctx.origin := rfl
  cases step with
  | object fields =>
      rw [inlineStep, inlineStep]
      cases hsource : Fields.get? "source" fields with
      | none => rfl
      | some value =>
          cases value with
          | string source =>
              have hread : (ctx.withFiles files).files.readText (ctx.sourcePath source) = _ :=
                hsame fields source rfl hsource
              simp only [hpath, horigin, hread]
          | _ => rfl
  | _ => rfl

theorem inlineSteps_withFiles {index : Nat} {steps : List Json}
    (hsame : ∀ fields source, Json.object fields ∈ steps →
      Fields.get? "source" fields = some (.string source) →
        files.readText (ctx.sourcePath source) = ctx.files.readText (ctx.sourcePath source)) :
    (ctx.withFiles files).inlineSteps index steps = ctx.inlineSteps index steps := by
  induction steps generalizing index with
  | nil => rfl
  | cons step rest ih =>
      have hstep : (ctx.withFiles files).inlineStep index step = ctx.inlineStep index step := by
        apply inlineStep_withFiles
        rintro fields source rfl
        exact hsame fields source List.mem_cons_self
      have hrest : (ctx.withFiles files).inlineSteps (index + 1) rest =
          ctx.inlineSteps (index + 1) rest :=
        ih fun fields source hmem => hsame fields source (List.mem_cons_of_mem step hmem)
      rw [inlineSteps, inlineSteps, hstep, hrest]

/-- The code of a task depends on the sources that its steps name. -/
theorem inlineSources_withFiles {spec : Json}
    (hsame : ∀ source, ctx.Names spec source →
      files.readText (ctx.sourcePath source) = ctx.files.readText (ctx.sourcePath source)) :
    (ctx.withFiles files).inlineSources spec = ctx.inlineSources spec := by
  unfold inlineSources
  by_cases htype : typeOf spec = some ctx.taskType
  · have htask : (ctx.withFiles files).taskType = ctx.taskType := rfl
    rw [htask, if_neg (not_not.mpr htype), if_neg (not_not.mpr htype)]
    split
    · next steps hsteps =>
        have hinline : (ctx.withFiles files).inlineSteps 0 steps = ctx.inlineSteps 0 steps :=
          inlineSteps_withFiles fun fields source hfields hsource =>
            hsame source ⟨htype, steps, fields, hsteps, hfields, hsource⟩
        rw [hinline]
    · rfl
  · rw [if_pos htype]
    exact if_pos htype

end TaskContext

/-! ## Whole compilations -/

namespace Project

variable (p : Project)

/-- The paths that a compilation reads: that of the ignore file, those of the listed
files, and those of the sources that the tasks in these files name. -/
inductive Reads : FilePath → Prop
  | ignoreFile : Reads (FilePath.join p.root p.options.ignoreFile)
  | listed {paths : List String} {path : String} (hpaths : p.findFiles.value = .ok paths)
      (hpath : path ∈ paths) : Reads (FilePath.join p.root path)
  | source {paths : List String} {path : String} {documents : List SourceDocument}
      {document : SourceDocument} {spec : Json} {source : String}
      (hpaths : p.findFiles.value = .ok paths) (hpath : path ∈ paths)
      (hload : p.Loads path documents) (hdocument : document ∈ documents)
      (hspec : document.value.normalize = .ok spec)
      (hsource : (p.context document).Names spec source) :
      Reads ((p.context document).sourcePath source)

/-- The same project with other files. -/
def withFiles (files : FileSystem) : Project :=
  { p with files }

variable {p} {files : FileSystem}

theorem compileDocument_withFiles {document : SourceDocument}
    (hsame : ∀ spec source, document.value.normalize = .ok spec →
      (p.context document).Names spec source →
        files.readText ((p.context document).sourcePath source) =
          p.files.readText ((p.context document).sourcePath source)) :
    (p.withFiles files).compileDocument document = p.compileDocument document := by
  rw [compileDocument, compileDocument]
  cases hspec : document.value.normalize with
  | error cause => rfl
  | ok spec =>
      have hinline : ((p.context document).withFiles files).inlineSources spec =
          (p.context document).inlineSources spec :=
        TaskContext.inlineSources_withFiles fun source hsource => hsame spec source hspec hsource
      exact congrArg (Noted.map _) hinline

section

variable (hsame : ∀ path, p.Reads path → files.readText path = p.files.readText path)

include hsame

theorem compileFile_withFiles {paths : List String} (hpaths : p.findFiles.value = .ok paths)
    {path : String} (hpath : path ∈ paths) :
    (p.withFiles files).compileFile path = p.compileFile path := by
  have hload : SourceDocument.ofFile (p.withFiles files).files (p.withFiles files).root path =
      SourceDocument.ofFile p.files p.root path := by
    simp only [SourceDocument.ofFile, withFiles, hsame _ (.listed hpaths hpath)]
  rw [compileFile, compileFile, hload]
  apply Noted.andThen_congr
  intro documents hdocuments
  apply Noted.forEach_congr
  intro document hdocument
  apply compileDocument_withFiles
  intro spec source hspec hsource
  exact hsame _ (.source hpaths hpath hdocuments hdocument hspec hsource)

variable (hskeleton : files.skeleton = p.files.skeleton)

include hskeleton

theorem findFiles_withFiles : (p.withFiles files).findFiles = p.findFiles := by
  have hrules : (p.withFiles files).ignoreRules = p.ignoreRules := by
    have hread := hsame _ .ignoreFile
    simp only [ignoreRules, IgnoreRules.ofFile, withFiles, hread]
  rw [findFiles, findFiles, hrules]
  apply Noted.andThen_congr
  intro rules _
  have hsearch : Search.onSkeleton ⟨files, p.root, rules, p.options⟩ =
      Search.onSkeleton ⟨p.files, p.root, rules, p.options⟩ := by
    simp only [Search.onSkeleton, hskeleton]
  calc
    Search.resourceFiles ⟨files, p.root, rules, p.options⟩ =
        (Search.onSkeleton ⟨files, p.root, rules, p.options⟩).resourceFiles :=
      (Search.resourceFiles_onSkeleton _).symm
    _ = Search.resourceFiles ⟨p.files, p.root, rules, p.options⟩ := by
      rw [hsearch, Search.resourceFiles_onSkeleton]

theorem compile_withFiles : (p.withFiles files).compile = p.compile := by
  have hfind := findFiles_withFiles hsame hskeleton
  have hentries : (p.withFiles files).findFiles.andThen
      (Noted.forEach (p.withFiles files).compileFile) =
        p.findFiles.andThen (Noted.forEach p.compileFile) := by
    rw [hfind]
    apply Noted.andThen_congr
    intro paths hpaths
    apply Noted.forEach_congr
    intro path hpath
    exact compileFile_withFiles hsame hpaths hpath
  have hroot : (p.withFiles files).root = p.root := rfl
  simp only [compile, hentries, hroot]

end

/-- A compilation depends on the names, the kinds and the link targets in its files,
and on what the files hold to which the paths that it reads lead: other files with the
same of these give the same result and the same notes.  So putting anything else into a
file to which none of these paths leads changes nothing. -/
theorem compile_eq_of_same_reads (p : Project) :
    (∀ other : FileTree, other.skeleton = p.files.tree.skeleton →
      (∀ path, p.Reads path → ∀ place text, p.files.lookup true path = .ok (place, .file text) →
        other.descend place = some (.file text)) →
      (p.withFiles (p.files.withTree other)).compile = p.compile) ∧
    ∀ place old, p.files.tree.WellFormed → p.files.tree.descend place = some (.file old) →
      (∀ path, p.Reads path → ∀ found, p.files.lookup true path = .ok found → found.1 ≠ place) →
      ∀ text, (p.withFiles (p.files.withTree (p.files.tree.put place (.file text)))).compile =
        p.compile := by
  have hsame : ∀ other : FileTree, other.skeleton = p.files.tree.skeleton →
      (∀ path, p.Reads path → ∀ place text, p.files.lookup true path = .ok (place, .file text) →
        other.descend place = some (.file text)) →
      (p.withFiles (p.files.withTree other)).compile = p.compile := by
    intro other hskeleton hagree
    apply compile_withFiles
    · intro path hpath
      exact FileSystem.readText_eq_of_skeleton_eq hskeleton (hagree path hpath)
    · exact congrArg p.files.withTree hskeleton
  refine ⟨hsame, ?_⟩
  intro place old hfiles hplace hunread text
  apply hsame _ (FileTree.skeleton_put hfiles hplace text)
  intro path hpath own content hlookup
  exact FileTree.descend_put_of_ne hplace (FileSystem.descend_of_lookup hlookup)
    (hunread path hpath _ hlookup) text

/-- A project with a task that has a source, and with a hidden file. -/
def oneTask : Project where
  files :=
    let top := FileTree.empty.put ["p", ".notes.yml"] (.file (some "a: 1\n"))
    let top := top.put ["p", "go.sh"] (.file (some "ls"))
    ⟨top.put ["p", "run.yml"] (.file (some "type: task\ndata: {steps: [{source: go.sh}]}\n")), []⟩
  root := "/p"
  options := .standard

theorem wellFormed_oneTask : oneTask.files.tree.WellFormed := by
  apply FileTree.WellFormed.put _ (.file _) (by decide)
  apply FileTree.WellFormed.put _ (.file _) (by decide)
  exact FileTree.wellFormed_empty.put (.file _) (by decide)

theorem value_findFiles_oneTask : oneTask.findFiles.value = .ok ["run.yml"] := by
  have hrules : oneTask.ignoreRules.value = .ok .empty := by rfl
  rw [findFiles, Noted.value_andThen_of_ok hrules]
  exact Search.value_resourceFiles_of_walkRoot (by decide +kernel) (by decide)

set_option maxRecDepth 2000 in
theorem loads_oneTask :
    oneTask.Loads "run.yml" [⟨"run.yml", 1, .mapping [(.string "type", .string "task"),
      (.string "data", .mapping [(.string "steps",
        .sequence [.mapping [(.string "source", .string "go.sh")]])])]⟩] := by
  with_unfolding_all rfl

/-- The task reads three paths: one is not there, and two are those of other files. -/
theorem unread_oneTask {path : FilePath} (hpath : oneTask.Reads path) :
    oneTask.files.lookup true path = .error .notFound ∨
      ∃ name text, name ≠ Text.bytes ".notes.yml" ∧
        oneTask.files.lookup true path = .ok (["p", name], .file text) := by
  cases hpath with
  | ignoreFile => exact Or.inl (by rfl)
  | listed hpaths hmem =>
      obtain rfl := Except.ok.inj (value_findFiles_oneTask.symm.trans hpaths)
      obtain rfl := List.mem_singleton.mp hmem
      exact Or.inr ⟨"run.yml", _, by decide, by rfl⟩
  | source hpaths hmem hload hdocument hspec hsource =>
      obtain rfl := Except.ok.inj (value_findFiles_oneTask.symm.trans hpaths)
      obtain rfl := List.mem_singleton.mp hmem
      obtain rfl := Except.ok.inj (loads_oneTask.symm.trans hload)
      obtain rfl := List.mem_singleton.mp hdocument
      obtain rfl := Except.ok.inj (Eq.trans (by rfl) hspec)
      obtain ⟨-, steps, fields, hsteps, hfields, hsource⟩ := hsource
      obtain rfl := Json.array.inj (Option.some.inj (Eq.trans (by rfl) hsteps))
      obtain rfl := Json.object.inj (List.mem_singleton.mp hfields)
      obtain rfl := Json.string.inj (Option.some.inj (Eq.trans (by rfl) hsource))
      exact Or.inr ⟨"go.sh", _, by decide, by rfl⟩

/-- Bytes that are no text in the hidden file change nothing: the step has its code. -/
theorem oneTask_with_other_notes :
    (oneTask.withFiles (oneTask.files.withTree
          (oneTask.files.tree.put ["p", ".notes.yml"] (.file none)))).compile =
        oneTask.compile ∧
      ((oneTask.compile.value.toOption.bind (·.get? 0)).bind fun entry =>
        (entry.spec.get? ⟨["data", "steps", "0", "code"]⟩).bind Json.string?) = some "ls" := by
  obtain ⟨-, hunread⟩ := compile_eq_of_same_reads oneTask
  refine ⟨?_, by decide +kernel⟩
  apply hunread _ (some "a: 1\n") wellFormed_oneTask (by rfl)
  intro path hpath found hfound
  rcases unread_oneTask hpath with hnone | ⟨name, text, hname, hother⟩
  · cases hnone.symm.trans hfound
  · obtain rfl := Except.ok.inj (hother.symm.trans hfound)
    simpa using hname

end Project

end Shipment
