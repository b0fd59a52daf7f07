import Mathlib.Data.List.Sort
import Shipment.Proofs.Compilation
import Shipment.Proofs.Files.Spelling
import Shipment.Proofs.IgnoreLines
import Shipment.Proofs.ResourceFiles
import Shipment.Proofs.StepSources

/-!
# How the root of a project is spelled

Every path that a compilation uses is made from the path of the root.  Another path to
the same directory gives the same list of files and the same manifest, if both are
there and no link is passed over because of the limits of a lookup.
-/

namespace Shipment

/-- Without the slashes in front, no path is absolute. -/
theorem FilePath.isAbsolute_dropWhile (path : String) :
    isAbsolute (String.ofList (path.toList.dropWhile (· == '/'))) = false := by
  have hhead := List.head?_dropWhile_not (· == '/') path.toList
  rw [isAbsolute, Text.bytes_eq_flatMap, String.toList_ofList]
  cases htext : path.toList.dropWhile (· == '/') with
  | nil => rfl
  | cons c rest =>
      rw [htext] at hhead
      obtain ⟨b, more, hbytes⟩ := List.exists_cons_of_ne_nil (String.utf8EncodeChar_ne_nil (c := c))
      rw [List.flatMap_cons, hbytes, List.cons_append, List.head?_cons, beq_eq_false_iff_ne]
      intro hslash
      obtain rfl : b = slash := Option.some.inj hslash
      -- a slash is all of its character
      have hchar := Text.utf8EncodeChar_of_mem (hbytes ▸ List.mem_cons_self) (by decide)
      obtain rfl := Text.utf8EncodeChar_injective (hchar.trans utf8EncodeChar_slash.symm)
      simp at hhead

/-! ## Searches -/

namespace Search

variable (s : Search)

/-- The links that the search comes upon are looked up within the limits. -/
def LinksWithinLimits : Prop :=
  ∀ place base above name target, s.files.lookup true s.root = .ok (place, base) →
    s.Enters base above → isHidden (Text.ofBytes name) = false →
      base.descend (above ++ [name]) = some (.link target) →
        s.files.WithinLimits (s.fullPath (above ++ [name]))

/-- The same search from another root. -/
def withRoot (root : FilePath) : Search :=
  { s with root }

variable {s} {root : FilePath} {place : List FileName} {entries : List (FileName × FileTree)}

theorem Enters.withRoot {base : FileTree} {names : List FileName} (h : s.Enters base names)
    (root : FilePath) : (s.withRoot root).Enters base names :=
  ⟨h.directory, h.visible, h.included⟩

section

variable (hfiles : s.files.tree.WellFormed) (hlimits : s.LinksWithinLimits)
  (hlimits' : (s.withRoot root).LinksWithinLimits)

include hfiles hlimits hlimits'

/-- A listed entry leads to no directory from the other root either. -/
theorem leadsToDirectory_withRoot
    (hroot : s.files.lookup true s.root = .ok (place, .directory entries))
    (hother : s.files.lookup true root = .ok (place, .directory entries)) {above : List FileName}
    {name : FileName} (h : s.Lists (.directory entries) above name) :
    s.files.leadsToDirectory ((s.withRoot root).fullPath (above ++ [name])) = false := by
  obtain ⟨tree, htree, hkind⟩ := h.entry
  have hnames := (FileSystem.wellFormed_of_lookup hfiles hroot).properName_of_descend htree
  have hleads := leadsToDirectory_of_keeps h.kept
  cases tree with
  | directory below => cases hkind
  | file text =>
      rw [(s.withRoot root).fullPath_eq (by simp) hnames]
      exact FileSystem.leadsToDirectory_join_of_file hother (by simp) hnames htree
  | link target =>
      have hown := hlimits _ _ _ _ _ hroot h.entered h.visible htree
      have hown' := hlimits' _ _ _ _ _ hother (h.entered.withRoot root) h.visible htree
      have hchild := FilePath.isAbsolute_ofNames fun other hmem => (hnames other hmem).isPart
      rw [s.fullPath_eq (by simp) hnames] at hown hleads
      rw [(s.withRoot root).fullPath_eq (by simp) hnames] at hown' ⊢
      exact (FileSystem.leadsToDirectory_join_eq ⟨place, entries, hroot, hother⟩ hchild hown
        hown').trans hleads

theorem Lists.withRoot (hroot : s.files.lookup true s.root = .ok (place, .directory entries))
    (hother : s.files.lookup true root = .ok (place, .directory entries)) {above : List FileName}
    {name : FileName} (h : s.Lists (.directory entries) above name) :
    (s.withRoot root).Lists (.directory entries) above name where
  entered := h.entered.withRoot root
  visible := h.visible
  entry := h.entry
  kept := by
    have hleads := leadsToDirectory_withRoot hfiles hlimits hlimits' hroot hother h
    have hkept := h.kept
    simp only [keeps, Bool.and_eq_true, Bool.not_eq_true'] at hkept ⊢
    exact ⟨⟨hleads, hkept.1.2⟩, hkept.2⟩

/-- Searches from two paths to the same directory list the same files, if both succeed. -/
theorem resourceFiles_withRoot (hsame : s.files.SameDirectory s.root root)
    {paths paths' : List String} (hpaths : s.resourceFiles.value = .ok paths)
    (hpaths' : (s.withRoot root).resourceFiles.value = .ok paths') : paths' = paths := by
  obtain ⟨place, entries, hroot, hother⟩ := hsame
  have hroot' : (s.withRoot root).files.lookup true (s.withRoot root).root = _ := hother
  have hlisted : ∀ names, (∃ place tree, (s.withRoot root).ListsAt names place tree) ↔
      (∃ place tree, s.ListsAt names place tree) ∧ true = true := by
    intro names
    rw [exists_listsAt_iff_listsNames hroot, exists_listsAt_iff_listsNames hroot',
      and_iff_left rfl]
    constructor
    · rintro ⟨above, name, rfl, hlists⟩
      exact ⟨above, name, rfl,
        hlists.withRoot (s := s.withRoot root) hfiles hlimits' hlimits hroot' hroot⟩
    · rintro ⟨above, name, rfl, hlists⟩
      exact ⟨above, name, rfl, hlists.withRoot hfiles hlimits hlimits' hroot hother⟩
  have hfilter := eq_filter_of_listsAt_iff (t := s.withRoot root) hfiles hfiles hpaths hpaths'
    (q := fun _ => true) hlisted
  rwa [List.filter_true] at hfilter

end

end Search

/-! ## Sources of steps -/

namespace TaskContext

variable {ctx : TaskContext} {root : FilePath}

/-- The same task in a project with another root. -/
def withRoot (ctx : TaskContext) (root : FilePath) : TaskContext :=
  { ctx with root }

/-- Where a task is taken, none of its steps has failed. -/
theorem steps_of_inlineSources {spec : Json} {steps : List Json} {isTask : Bool}
    (htype : typeOf spec = some ctx.taskType)
    (hsteps : spec.get? stepsPointer = some (.array steps))
    (hspec : (ctx.inlineSources spec).value.2 = .ok isTask) :
    (ctx.inlineSteps 0 steps).value.2 = none := by
  unfold inlineSources at hspec
  rw [if_neg (not_not.mpr htype)] at hspec
  simp only [hsteps] at hspec
  cases hfailed : (ctx.inlineSteps 0 steps).value.2 with
  | none => rfl
  | some e =>
      rw [hfailed] at hspec
      cases hspec

section

variable (hsame : ctx.files.SameDirectory ctx.root root)

include hsame

theorem Inlined.withRoot_eq {step result result' : Json} (h : ctx.Inlined step result)
    (h' : (ctx.withRoot root).Inlined step result') : result' = result := by
  cases h with
  | asItIs hsource =>
      cases h' with
      | asItIs _ => rfl
      | withCode hsource' _ => cases (hsource _ rfl).symm.trans hsource'
  | withCode hsource hread =>
      cases h' with
      | asItIs hsource' => cases (hsource' _ rfl).symm.trans hsource
      | withCode hsource' hread' =>
          obtain rfl := Json.string.inj (Option.some.inj (hsource.symm.trans hsource'))
          rw [FileSystem.text_join_eq hsame (FilePath.isAbsolute_dropWhile _) hread hread']

/-- Sources that are all read from both roots give the same document. -/
theorem inlineSources_withRoot {spec : Json} {isTask isTask' : Bool}
    (hspec : (ctx.inlineSources spec).value.2 = .ok isTask)
    (hspec' : ((ctx.withRoot root).inlineSources spec).value.2 = .ok isTask') :
    ((ctx.withRoot root).inlineSources spec).value.1 = (ctx.inlineSources spec).value.1 := by
  have htask : (ctx.withRoot root).taskType = ctx.taskType := rfl
  unfold inlineSources
  rw [htask]
  split
  · rfl
  · next htype =>
      have htype := not_not.mp htype
      have htype' : typeOf spec = some (ctx.withRoot root).taskType := htype
      split
      · next steps hsteps =>
          have hown := forall₂_inlined (steps_of_inlineSources htype hsteps hspec)
          have hown' := forall₂_inlined (steps_of_inlineSources htype' hsteps hspec')
          have hresults := eq_of_forall₂_right hown' hown fun _ _ _ _ h' h => h.withRoot_eq hsame h'
          dsimp only
          rw [hresults]
      · rfl

end

end TaskContext

/-! ## Projects -/

namespace Project

variable {p : Project} {root : FilePath}

/-- The same project with its root spelled in another way. -/
def withRoot (p : Project) (root : FilePath) : Project :=
  { p with root }

/-- The links that the search for resource files comes upon are looked up within the limits. -/
def LinksWithinLimits (p : Project) : Prop :=
  ∀ rules, p.ignoreRules.value = .ok rules →
    Search.LinksWithinLimits ⟨p.files, p.root, rules, p.options⟩

theorem exists_hasIgnoreText {rules : IgnoreRules} (hrules : p.ignoreRules.value = .ok rules) :
    ∃ text, p.HasIgnoreText text := by
  obtain ⟨own, hown, -⟩ := Noted.value_andThen_eq_ok.mp hrules
  unfold IgnoreRules.ofFile at hown
  split at hown
  · next text hread => exact ⟨text, .file hread⟩
  · next hread => exact ⟨"", .noFile hread⟩
  · cases hown

theorem HasIgnoreText.eq_notFound {text : String} (htext : p.HasIgnoreText text) {cause : IoError}
    (hread : p.files.readText (FilePath.join p.root p.options.ignoreFile) = .error cause) :
    cause = .notFound := by
  cases htext with
  | file hown => cases hown.symm.trans hread
  | noFile hown => exact Except.error.inj (hread.symm.trans hown)

section

variable (hsame : p.files.SameDirectory p.root root)

include hsame

theorem ignoreRules_withRoot (hignore : FilePath.isAbsolute p.options.ignoreFile = false)
    {rules rules' : IgnoreRules} (hrules : p.ignoreRules.value = .ok rules)
    (hrules' : (p.withRoot root).ignoreRules.value = .ok rules') : rules' = rules := by
  obtain ⟨text, htext⟩ := exists_hasIgnoreText hrules
  obtain ⟨text', htext'⟩ := exists_hasIgnoreText hrules'
  have hread := FileSystem.readText_join_eq hsame hignore (fun _ => htext.eq_notFound)
    (fun _ => htext'.eq_notFound)
  have hown : (p.withRoot root).HasIgnoreText text := by
    cases htext with
    | file hfile => exact .file (hread.trans hfile)
    | noFile hnone => exact .noFile (hread.trans hnone)
  exact ((value_ignoreRules_eq_ok_iff hown).mp hrules').unique
    ((value_ignoreRules_eq_ok_iff htext).mp hrules)

theorem findFiles_withRoot (hfiles : p.files.tree.WellFormed)
    (hignore : FilePath.isAbsolute p.options.ignoreFile = false) (hlimits : p.LinksWithinLimits)
    (hlimits' : (p.withRoot root).LinksWithinLimits) {paths paths' : List String}
    (hpaths : p.findFiles.value = .ok paths)
    (hpaths' : (p.withRoot root).findFiles.value = .ok paths') : paths' = paths := by
  obtain ⟨rules, hrules, hfound⟩ := Noted.value_andThen_eq_ok.mp hpaths
  obtain ⟨rules', hrules', hfound'⟩ := Noted.value_andThen_eq_ok.mp hpaths'
  obtain rfl := ignoreRules_withRoot hsame hignore hrules hrules'
  exact Search.resourceFiles_withRoot hfiles (hlimits _ hrules) (hlimits' _ hrules') hsame
    hfound hfound'

theorem loads_withRoot {path : String} (hpath : FilePath.isAbsolute path = false)
    {documents documents' : List SourceDocument} (hload : p.Loads path documents)
    (hload' : (p.withRoot root).Loads path documents') : documents' = documents := by
  simp only [Loads, SourceDocument.ofFile, Noted.value_after, Noted.value_plain] at hload hload'
  split at hload
  · cases hload
  · next text htext =>
      split at hload'
      · cases hload'
      · next text' htext' =>
          obtain rfl := FileSystem.text_join_eq hsame hpath htext htext'
          exact Except.ok.inj (hload'.symm.trans hload)

theorem compileDocument_withRoot {document : SourceDocument} {entry entry' : Entry}
    (hentry : (p.compileDocument document).value = .ok entry)
    (hentry' : ((p.withRoot root).compileDocument document).value = .ok entry') :
    entry' = entry := by
  unfold compileDocument at hentry hentry'
  split at hentry
  · cases hentry
  · next spec hspec =>
      simp only [hspec, Noted.value_map] at hentry hentry'
      split at hentry
      · cases hentry
      · next isTask hfound =>
          split at hentry'
          · cases hentry'
          · next isTask' hfound' =>
              have hcontext : (p.context document).files.SameDirectory
                  (p.context document).root root := hsame
              have hinline := TaskContext.inlineSources_withRoot hcontext hfound hfound'
              cases hentry
              cases hentry'
              exact congrArg (Entry.mk _) hinline

/-- The entries of a file that compiles from both roots are the same. -/
theorem fileCompiles_withRoot {path : String} (hpath : FilePath.isAbsolute path = false)
    {found found' : List Entry} (hfound : p.FileCompiles path found)
    (hfound' : (p.withRoot root).FileCompiles path found') : found' = found := by
  obtain ⟨documents, hload, hentries⟩ := hfound
  obtain ⟨documents', hload', hentries'⟩ := hfound'
  obtain rfl := loads_withRoot hsame hpath hload hload'
  exact eq_of_forall₂_right hentries' hentries fun document _ _ _ h' h =>
    compileDocument_withRoot hsame h h'

end

theorem isAbsolute_of_mem_findFiles (hfiles : p.files.tree.WellFormed) {paths : List String}
    (hpaths : p.findFiles.value = .ok paths) {path : String} (hpath : path ∈ paths) :
    FilePath.isAbsolute path = false := by
  obtain ⟨rules, -, hfound⟩ := Noted.value_andThen_eq_ok.mp hpaths
  obtain ⟨names, rfl, place, tree, hentry⟩ :=
    (Search.mem_resourceFiles_iff (s := ⟨p.files, p.root, rules, p.options⟩) hfiles hfound).mp hpath
  exact FilePath.isAbsolute_textOf (Search.ListsAt.isPart hfiles hentry)

/-- Two paths to the same directory, as roots, give the same list of files if the search
succeeds for both, and the same manifest if the compilation does.  Limits of a lookup
matter for links only, since a link that is not followed to a directory is listed: any
other lookup that a limit stops is a failure. -/
theorem compile_withRoot (p : Project) (root : FilePath) (hfiles : p.files.tree.WellFormed)
    (hignore : FilePath.isAbsolute p.options.ignoreFile = false)
    (hsame : p.files.SameDirectory p.root root) (hlimits : p.LinksWithinLimits)
    (hlimits' : (p.withRoot root).LinksWithinLimits) :
    (∀ paths paths', p.findFiles.value = .ok paths →
      (p.withRoot root).findFiles.value = .ok paths' → paths' = paths) ∧
    ∀ m m', p.compile.value = .ok m → (p.withRoot root).compile.value = .ok m' → m' = m := by
  have hlisted : ∀ paths paths', p.findFiles.value = .ok paths →
      (p.withRoot root).findFiles.value = .ok paths' → paths' = paths :=
    fun _ _ hpaths hpaths' =>
      findFiles_withRoot hsame hfiles hignore hlimits hlimits' hpaths hpaths'
  refine ⟨hlisted, ?_⟩
  intro m m' hm hm'
  obtain ⟨paths, parts, hpaths, hparts, hentries⟩ := (value_compile_eq_ok p).mp hm
  obtain ⟨paths', parts', hpaths', hparts', hentries'⟩ := (value_compile_eq_ok _).mp hm'
  obtain rfl := hlisted _ _ hpaths hpaths'
  have hsameParts : parts' = parts := by
    refine eq_of_forall₂_right hparts' hparts fun path hpath _ _ h' h => ?_
    exact fileCompiles_withRoot hsame (isAbsolute_of_mem_findFiles hfiles hpaths hpath) h h'
  have hall : m'.entries = m.entries := by rw [hentries', hentries, hsameParts]
  exact congrArg Manifest.mk hall

/-- A project in the working directory, with a link to that directory in it and another one
beside it. -/
def linkedRoot : Project where
  files :=
    let top := FileTree.empty.put ["p", "a.yml"] (.file (some "note: c\n"))
    let top := top.put ["p", "l.yml"] (.link ".")
    ⟨top.put ["r"] (.link "p"), ["p"]⟩
  root := "."
  options := .standard

theorem wellFormed_linkedRoot : linkedRoot.files.tree.WellFormed := by
  apply FileTree.WellFormed.put _ (.link _) (by decide)
  apply FileTree.WellFormed.put _ (.link _) (by decide)
  exact FileTree.wellFormed_empty.put (.file _) (by decide)

/-- What is in the directory that the root leads to. -/
def linkedEntries : List (FileName × FileTree) :=
  [("a.yml", .file (some "note: c\n")), ("l.yml", .link ".")]

theorem names_of_link {names : List FileName} {target : FilePath}
    (hlink : (FileTree.directory linkedEntries).descend names = some (.link target)) :
    names = [Text.bytes "l.yml"] := by
  cases names with
  | nil => cases hlink
  | cons name rest =>
      simp only [linkedEntries, FileTree.descend, FileTree.child?, Fields.get?] at hlink
      split at hlink
      · cases rest <;> simp [FileTree.descend, FileTree.child?] at hlink
      · split at hlink
        · next hname => cases rest <;> simp_all [FileTree.descend, FileTree.child?]
        · cases hlink

theorem linksWithinLimits_linkedRoot {root : FilePath} (hbase : root ≠ [])
    (hroot : linkedRoot.files.lookup true root = .ok (["p"], .directory linkedEntries))
    (hlink : (linkedRoot.files.lookup true (FilePath.join root "l.yml")).toOption.isSome = true) :
    (linkedRoot.withRoot root).LinksWithinLimits := by
  have hwithin : linkedRoot.files.WithinLimits (FilePath.join root "l.yml") := by
    apply FileSystem.withinLimits_of_lookup (FilePath.join_ne_nil hbase (by rfl))
    intro cause hcause
    rw [hcause] at hlink
    cases hlink
  intro rules _ place base above name target hfound _ _ hentry
  obtain ⟨-, rfl⟩ := Prod.mk.inj (Except.ok.inj (hroot.symm.trans hfound))
  rw [names_of_link hentry]
  exact hwithin

/-- One path to the root is that of the working directory itself, and the other one has a step
back, a link and a slash at its end. -/
theorem linkedRoot_other_path :
    ∃ m, linkedRoot.compile.value = .ok m ∧
      (linkedRoot.withRoot "../r/").compile.value = .ok m := by
  have hroot : linkedRoot.files.lookup true "." = .ok (["p"], .directory linkedEntries) := by rfl
  have hother : linkedRoot.files.lookup true "../r/" =
      .ok (["p"], .directory linkedEntries) := by rfl
  have hlimits := linksWithinLimits_linkedRoot (by decide) hroot (by decide +kernel)
  have hlimits' := linksWithinLimits_linkedRoot (by decide) hother (by decide +kernel)
  have hself : linkedRoot.withRoot "." = linkedRoot := rfl
  rw [hself] at hlimits
  obtain ⟨-, hmanifest⟩ := compile_withRoot linkedRoot "../r/" wellFormed_linkedRoot (by rfl)
    ⟨_, _, hroot, hother⟩ hlimits hlimits'
  have hcompiles : linkedRoot.compile.value.toOption.isSome = true ∧
      (linkedRoot.withRoot "../r/").compile.value.toOption.isSome = true := by
    decide +kernel
  cases hm : linkedRoot.compile.value with
  | error e => simp [hm, Except.toOption] at hcompiles
  | ok m =>
      cases hm' : (linkedRoot.withRoot "../r/").compile.value with
      | error e => simp [hm', Except.toOption] at hcompiles
      | ok m' => exact ⟨m, rfl, by rw [hmanifest m m' hm hm']⟩

end Project

end Shipment
