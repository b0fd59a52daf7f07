import Shipment.Proofs.Files.Path

/-!
# Where a lookup ends

A lookup of the parts of a path ends at an entry of the tree that its place leads to.
Behind the parts that lead to a directory it goes on from that directory, along the
names that follow as long as no link stands on the way.  More links to follow change
nothing but a failure for want of links.
-/

namespace Shipment.FileTree

theorem descend_append (front rest : List FileName) (tree : FileTree) :
    descend (front ++ rest) tree = (descend front tree).bind (descend rest) := by
  induction front generalizing tree with
  | nil => rfl
  | cons name front ih =>
      simp only [List.cons_append, descend]
      cases tree.child? name with
      | none => rfl
      | some below => exact ih below

theorem descend_concat (front : List FileName) (name : FileName) (tree : FileTree) :
    descend (front ++ [name]) tree = (descend front tree).bind (child? name) := by
  rw [descend_append]
  congr 1
  funext below
  exact Option.bind_fun_some _

/-- Only a directory has an entry below it. -/
theorem exists_directory_of_descend {front rest : List FileName} {tree below : FileTree}
    (hdescend : descend (front ++ rest) tree = some below) (hrest : rest ≠ []) :
    ∃ entries, descend front tree = some (directory entries) := by
  rw [descend_append] at hdescend
  obtain ⟨next, hnext, hbelow⟩ := Option.bind_eq_some_iff.mp hdescend
  obtain ⟨name, more, rfl⟩ := List.exists_cons_of_ne_nil hrest
  cases next with
  | directory entries => exact ⟨entries, hnext⟩
  | file text => simp [descend, child?] at hbelow
  | link target => simp [descend, child?] at hbelow

/-- The names that lead to an entry can be names of entries. -/
theorem WellFormed.properName_of_descend {tree below : FileTree} (htree : tree.WellFormed)
    {names : List FileName} (hdescend : FileTree.descend names tree = some below) :
    ∀ name ∈ names, ProperName name := by
  induction names generalizing tree with
  | nil => simp
  | cons name rest ih =>
      obtain ⟨next, hnext, hrest⟩ := Option.bind_eq_some_iff.mp hdescend
      refine List.forall_mem_cons.mpr ⟨?_, ih (htree.child? hnext) hrest⟩
      cases htree with
      | directory _ hnames _ => exact hnames _ (Fields.mem_of_get? hnext)
      | file text => simp [FileTree.child?] at hnext
      | link target => simp [FileTree.child?] at hnext

variable {top : FileTree} {follow : Bool}

/-! ## One part of a path -/

/-- How a lookup goes on after a link. -/
abbrev OnLink := List FileName → List FileName → Except IoError Found

/-- What one part of a path does to a lookup at a place, whatever comes behind it. -/
inductive Step (top : FileTree) (place : List FileName) (part : FileName) : Prop
  | move (next : List FileName)
      (hstep : ∀ follow onLink rest, lookupFrom top follow onLink place (part :: rest) =
        lookupFrom top follow onLink next rest)
  | fail (cause : IoError)
      (hstep : ∀ follow onLink rest, lookupFrom top follow onLink place (part :: rest) =
        .error cause)
  | file (text : Option String) (hentry : top.descend (place ++ [part]) = some (file text))
      (hstep : ∀ follow onLink rest, lookupFrom top follow onLink place (part :: rest) =
        if rest.isEmpty then .ok (place ++ [part], file text) else .error .notADirectory)
  | link (target : FilePath) (start : List FileName)
      (hentry : top.descend (place ++ [part]) = some (link target))
      (hstep : ∀ follow onLink rest, lookupFrom top follow onLink place (part :: rest) =
        if rest.isEmpty && !follow then .ok (place ++ [part], link target)
        else onLink start (FilePath.parts target ++ rest))

theorem step (top : FileTree) (place : List FileName) (part : FileName) : Step top place part := by
  by_cases hself : part = [] ∨ part = FilePath.selfName
  · exact .move place fun _ _ _ => by rw [lookupFrom, if_pos hself]
  by_cases hparent : part = FilePath.parentName
  · exact .move place.dropLast fun _ _ _ => by rw [lookupFrom, if_neg hself, if_pos hparent]
  by_cases hlong : nameLimit < part.length
  · exact .fail .invalidFilename fun _ _ _ => by
      rw [lookupFrom, if_neg hself, if_neg hparent, if_pos hlong]
  have hname : ∀ follow onLink rest, lookupFrom top follow onLink place (part :: rest) = _ :=
    fun _ _ _ => by
      rw [lookupFrom, if_neg hself, if_neg hparent, if_neg hlong, ← descend_concat]
  cases hentry : top.descend (place ++ [part]) with
  | none => exact .fail .notFound fun _ _ _ => by rw [hname, hentry]
  | some tree =>
      cases tree with
      | file text => exact .file text hentry fun _ _ _ => by rw [hname, hentry]
      | directory entries => exact .move (place ++ [part]) fun _ _ _ => by rw [hname, hentry]
      | link target => exact .link target _ hentry fun _ _ _ => by rw [hname, hentry]

theorem lookupFrom_nil_eq_ok {onLink : OnLink} {place : List FileName} {found : Found} :
    lookupFrom top follow onLink place [] = .ok found ↔
      place = found.1 ∧ top.descend place = some found.2 := by
  obtain ⟨stop, tree⟩ := found
  rw [lookupFrom]
  cases top.descend place with
  | none => simp
  | some own => simp

/-! ## Places and what is there -/

theorem descend_of_lookupFrom {onLink : OnLink}
    (honLink : ∀ place parts found, onLink place parts = .ok found →
      top.descend found.1 = some found.2)
    {place parts : List FileName} {found : Found}
    (hfound : lookupFrom top follow onLink place parts = .ok found) :
    top.descend found.1 = some found.2 := by
  induction parts generalizing place with
  | nil =>
      obtain ⟨rfl, hentry⟩ := lookupFrom_nil_eq_ok.mp hfound
      exact hentry
  | cons part rest ih =>
      cases step top place part with
      | move next hstep => exact ih (hstep .. ▸ hfound)
      | fail cause hstep => cases hstep follow onLink rest ▸ hfound
      | file text hentry hstep =>
          rw [hstep] at hfound
          split at hfound
          · cases hfound
            exact hentry
          · cases hfound
      | link target start hentry hstep =>
          rw [hstep] at hfound
          split at hfound
          · cases hfound
            exact hentry
          · exact honLink _ _ _ hfound

theorem descend_of_lookupParts {links : Nat} {place parts : List FileName} {found : Found}
    (hfound : lookupParts top follow links place parts = .ok found) :
    top.descend found.1 = some found.2 := by
  induction links generalizing place parts found with
  | zero =>
      apply descend_of_lookupFrom _ hfound
      intro place parts found hlink
      cases hlink
  | succ links ih =>
      apply descend_of_lookupFrom _ hfound
      intro place parts found hlink
      exact ih hlink

/-! ## Links at the end of a path -/

theorem lookupFrom_false {onLink onLastLink : OnLink}
    (honLink : ∀ place parts found, onLink place parts = .ok found →
      onLastLink place parts = .ok found ∨
        ∃ stop target, onLastLink place parts = .ok (stop, link target))
    {place parts : List FileName} {found : Found}
    (hfound : lookupFrom top true onLink place parts = .ok found) :
    lookupFrom top false onLastLink place parts = .ok found ∨
      ∃ stop target, lookupFrom top false onLastLink place parts = .ok (stop, link target) := by
  induction parts generalizing place with
  | nil => exact Or.inl hfound
  | cons part rest ih =>
      cases step top place part with
      | move next hstep =>
          rw [hstep] at hfound ⊢
          exact ih hfound
      | fail cause hstep => cases hstep true onLink rest ▸ hfound
      | file text hentry hstep =>
          rw [hstep] at hfound ⊢
          exact Or.inl hfound
      | link target start hentry hstep =>
          rw [hstep] at hfound ⊢
          cases rest with
          | nil => exact Or.inr ⟨place ++ [part], target, rfl⟩
          | cons next more => exact honLink _ _ _ (by simpa using hfound)

theorem lookupParts_false {links : Nat} {place parts : List FileName} {found : Found}
    (hfound : lookupParts top true links place parts = .ok found) :
    lookupParts top false links place parts = .ok found ∨
      ∃ stop target, lookupParts top false links place parts = .ok (stop, link target) := by
  induction links generalizing place parts found with
  | zero =>
      apply lookupFrom_false _ hfound
      intro place parts found hlink
      cases hlink
  | succ links ih =>
      apply lookupFrom_false _ hfound
      intro place parts found hlink
      exact ih hlink

theorem lookupFrom_true {onLink onLastLink : OnLink} {found : Found}
    (hkind : ∀ target, found.2 ≠ link target)
    (honLink : ∀ place parts, onLastLink place parts = .ok found → onLink place parts = .ok found)
    {place parts : List FileName}
    (hfound : lookupFrom top false onLastLink place parts = .ok found) :
    lookupFrom top true onLink place parts = .ok found := by
  induction parts generalizing place with
  | nil => exact hfound
  | cons part rest ih =>
      cases step top place part with
      | move next hstep =>
          rw [hstep] at hfound ⊢
          exact ih hfound
      | fail cause hstep => cases hstep false onLastLink rest ▸ hfound
      | file text hentry hstep =>
          rw [hstep] at hfound ⊢
          exact hfound
      | link target start hentry hstep =>
          rw [hstep] at hfound ⊢
          split at hfound
          · cases hfound
            exact absurd rfl (hkind target)
          · simpa using honLink _ _ hfound

theorem lookupParts_true {links : Nat} {place parts : List FileName} {found : Found}
    (hkind : ∀ target, found.2 ≠ link target)
    (hfound : lookupParts top false links place parts = .ok found) :
    lookupParts top true links place parts = .ok found := by
  induction links generalizing place parts with
  | zero =>
      apply lookupFrom_true hkind _ hfound
      intro place parts hlink
      cases hlink
  | succ links ih =>
      apply lookupFrom_true hkind _ hfound
      intro place parts hlink
      exact ih hlink

/-! ## Names behind a path to a directory -/

/-- A name that an entry has leads to that entry, unless it is a link that is followed. -/
theorem lookupFrom_name (onLink : OnLink) {place : List FileName} {name : FileName}
    {tree : FileTree} (hname : ProperName name)
    (hentry : top.descend (place ++ [name]) = some tree)
    (hlink : follow = true → ∀ target, tree ≠ link target) :
    lookupFrom top follow onLink place [name] = .ok (place ++ [name], tree) := by
  have hself : ¬(name = [] ∨ name = FilePath.selfName) := fun h =>
    h.elim hname.ne_empty hname.ne_self
  rw [lookupFrom, if_neg hself, if_neg hname.ne_parent, if_neg (Nat.not_lt.mpr hname.short),
    ← descend_concat, hentry]
  cases tree with
  | file text => rfl
  | directory entries => exact lookupFrom_nil_eq_ok.mpr ⟨rfl, hentry⟩
  | link target =>
      have hstay : follow = false :=
        Bool.eq_false_iff.mpr fun hfollow => hlink hfollow target rfl
      simp [hstay]

/-- Names that lead to a directory are followed one by one. -/
theorem lookupFrom_names_append (onLink : OnLink) {place names : List FileName}
    {entries : List (FileName × FileTree)} (hnames : ∀ name ∈ names, ProperName name)
    (hdescend : top.descend (place ++ names) = some (directory entries)) (rest : List FileName) :
    lookupFrom top follow onLink place (names ++ rest) =
      lookupFrom top follow onLink (place ++ names) rest := by
  induction names generalizing place with
  | nil => rw [List.append_nil, List.nil_append]
  | cons name more ih =>
      obtain ⟨hname, hmore⟩ := List.forall_mem_cons.mp hnames
      have hbelow : top.descend ((place ++ [name]) ++ more) = some (directory entries) := by
        simpa using hdescend
      have hself : ¬(name = [] ∨ name = FilePath.selfName) := fun h =>
        h.elim hname.ne_empty hname.ne_self
      obtain ⟨own, hown⟩ : ∃ own, top.descend (place ++ [name]) = some (directory own) := by
        cases more with
        | nil => exact ⟨entries, by simpa using hbelow⟩
        | cons next _ => exact exists_directory_of_descend hbelow (List.cons_ne_nil _ _)
      rw [List.cons_append, lookupFrom, if_neg hself, if_neg hname.ne_parent,
        if_neg (Nat.not_lt.mpr hname.short), ← descend_concat, hown]
      simpa using ih hmore hbelow

/-- Names that lead to an entry are followed one by one, to a link if links at the end of
a path are not followed. -/
theorem lookupFrom_names (onLink : OnLink) {place names : List FileName} {tree : FileTree}
    (hnames : ∀ name ∈ names, ProperName name) (hdescend : top.descend (place ++ names) = some tree)
    (hlink : follow = true → ∀ target, tree ≠ link target) :
    lookupFrom top follow onLink place names = .ok (place ++ names, tree) := by
  rcases List.eq_nil_or_concat' names with rfl | ⟨above, name, rfl⟩
  · rw [List.append_nil] at hdescend ⊢
    exact lookupFrom_nil_eq_ok.mpr ⟨rfl, hdescend⟩
  · obtain ⟨habove, hname⟩ := List.forall_mem_append.mp hnames
    rw [← List.append_assoc] at hdescend ⊢
    obtain ⟨entries, hentries⟩ := exists_directory_of_descend hdescend (List.cons_ne_nil _ _)
    rw [lookupFrom_names_append onLink habove hentries]
    exact lookupFrom_name onLink (List.forall_mem_singleton.mp hname) hdescend hlink

/-! ## Links to follow -/

/-- How a lookup goes on after a link with so many links to follow. -/
def afterLink (top : FileTree) (follow : Bool) : Nat → OnLink
  | 0 => fun _ _ => .error .linkLoop
  | links + 1 => lookupParts top follow links

theorem lookupParts_eq (links : Nat) :
    lookupParts top follow links = lookupFrom top follow (afterLink top follow links) := by
  cases links <;> rfl

theorem lookupFrom_mono {onLink onLink' : OnLink}
    (hmore : ∀ place parts, onLink place parts ≠ .error .linkLoop →
      onLink' place parts = onLink place parts) {place parts : List FileName}
    (hloop : lookupFrom top follow onLink place parts ≠ .error .linkLoop) :
    lookupFrom top follow onLink' place parts = lookupFrom top follow onLink place parts := by
  induction parts generalizing place with
  | nil => rfl
  | cons part rest ih =>
      cases step top place part with
      | move next hstep =>
          rw [hstep] at hloop
          rw [hstep, hstep, ih hloop]
      | fail cause hstep => rw [hstep, hstep]
      | file text hentry hstep => rw [hstep, hstep]
      | link target start hentry hstep =>
          rw [hstep] at hloop
          rw [hstep, hstep]
          by_cases hlast : (rest.isEmpty && !follow) = true
          · rw [if_pos hlast, if_pos hlast]
          · rw [if_neg hlast] at hloop
            rw [if_neg hlast, if_neg hlast, hmore _ _ hloop]

/-- More links to follow change nothing but a failure for want of links. -/
theorem lookupParts_mono {links : Nat} {place parts : List FileName}
    (hloop : lookupParts top follow links place parts ≠ .error .linkLoop) (extra : Nat) :
    lookupParts top follow (extra + links) place parts =
      lookupParts top follow links place parts := by
  induction links generalizing place parts with
  | zero =>
      rw [lookupParts_eq]
      apply lookupFrom_mono _ hloop
      exact fun place parts hlink => absurd rfl hlink
  | succ links ih =>
      apply lookupFrom_mono _ hloop
      exact fun place parts hlink => ih hlink

/-! ## Parts behind those of a directory -/

section Resume

-- a slash at the end of a path leaves one empty part behind the others
variable {tail goal : List FileName} {entries : List (FileName × FileTree)}
  (htail : tail = [] ∨ tail = [[]])

include htail

/-- If a lookup goes on from the directory once a link is followed, it does from the start. -/
theorem resume_of_afterLink {links : Nat}
    (hafter : ∀ start parts,
      afterLink top true links start (parts ++ tail) = .ok (goal, directory entries) →
        ∃ left ≤ links, ∀ extra follow more, more ≠ [] →
          afterLink top follow (extra + links) start (parts ++ more) =
            lookupParts top follow (extra + left) goal more)
    {place parts : List FileName}
    (hgoal : lookupParts top true links place (parts ++ tail) = .ok (goal, directory entries)) :
    ∃ left ≤ links, ∀ extra follow more, more ≠ [] →
      lookupParts top follow (extra + links) place (parts ++ more) =
        lookupParts top follow (extra + left) goal more := by
  rw [lookupParts_eq] at hgoal
  induction parts generalizing place with
  | nil =>
      have hhere : lookupFrom top true (afterLink top true links) place [] =
          .ok (goal, directory entries) := by
        rcases htail with rfl | rfl <;> simpa [lookupFrom] using hgoal
      obtain ⟨rfl, -⟩ := lookupFrom_nil_eq_ok.mp hhere
      exact ⟨links, Nat.le_refl _, fun _ _ _ _ => rfl⟩
  | cons part rest ih =>
      rw [List.cons_append] at hgoal
      cases step top place part with
      | move next hstep =>
          rw [hstep] at hgoal
          obtain ⟨left, hle, hleft⟩ := ih hgoal
          refine ⟨left, hle, fun extra follow more hmore => ?_⟩
          rw [← hleft extra follow more hmore, lookupParts_eq, List.cons_append, hstep]
      | fail cause hstep => cases hstep true (afterLink top true links) (rest ++ tail) ▸ hgoal
      | file text hentry hstep =>
          rw [hstep] at hgoal
          split at hgoal <;> cases hgoal
      | link target start hentry hstep =>
          rw [hstep, if_neg (by simp), ← List.append_assoc] at hgoal
          obtain ⟨left, hle, hleft⟩ := hafter _ _ hgoal
          refine ⟨left, hle, fun extra follow more hmore => ?_⟩
          rw [← hleft extra follow more hmore, lookupParts_eq, List.cons_append, hstep,
            if_neg (by simp [hmore]), List.append_assoc]

/-- A lookup of more parts behind those of a directory goes on from the place of the
directory, with the links that are left. -/
theorem lookupParts_resume {links : Nat} {place parts : List FileName}
    (hgoal : lookupParts top true links place (parts ++ tail) = .ok (goal, directory entries)) :
    ∃ left ≤ links, ∀ extra follow more, more ≠ [] →
      lookupParts top follow (extra + links) place (parts ++ more) =
        lookupParts top follow (extra + left) goal more := by
  -- on the links, since the parts grow where a link is followed
  induction links generalizing place parts with
  | zero =>
      refine resume_of_afterLink htail ?_ hgoal
      intro start parts hlink
      cases hlink
  | succ links ih =>
      refine resume_of_afterLink htail ?_ hgoal
      intro start parts hlink
      obtain ⟨left, hle, hleft⟩ := ih hlink
      exact ⟨left, Nat.le_succ_of_le hle, hleft⟩

end Resume

/-- A slash behind a path to a directory changes nothing. -/
theorem lookupParts_concat_nil {links : Nat} {place parts goal : List FileName}
    {entries : List (FileName × FileTree)}
    (hgoal : lookupParts top true links place parts = .ok (goal, directory entries)) :
    lookupParts top true links place (parts ++ [[]]) = .ok (goal, directory entries) := by
  have hempty : lookupParts top true links place (parts ++ []) = .ok (goal, directory entries) := by
    rwa [List.append_nil]
  obtain ⟨left, -, hleft⟩ := lookupParts_resume (Or.inl rfl) hempty
  have hentry : top.descend goal = some (directory entries) := descend_of_lookupParts hgoal
  rw [← Nat.zero_add links, hleft 0 true [[]] (List.cons_ne_nil _ _), lookupParts_eq, lookupFrom,
    if_pos (Or.inl rfl)]
  exact lookupFrom_nil_eq_ok.mpr ⟨rfl, hentry⟩

/-! ## The name at the end of a path -/

/-- A name that is not followed is found where it stands. -/
theorem lookupFrom_singleton_eq_ok {onLink : OnLink} {place : List FileName} {last : FileName}
    {found : Found} (hlast : last ≠ [] ∧ last ≠ FilePath.selfName ∧ last ≠ FilePath.parentName)
    (hfound : lookupFrom top false onLink place [last] = .ok found) :
    found.1 = place ++ [last] ∧ top.descend (place ++ [last]) = some found.2 := by
  obtain ⟨hempty, hself, hparent⟩ := hlast
  rw [lookupFrom, if_neg (not_or.mpr ⟨hempty, hself⟩), if_neg hparent, ← descend_concat] at hfound
  split at hfound
  · cases hfound
  · cases hentry : top.descend (place ++ [last]) with
    | none => simp [hentry] at hfound
    | some tree =>
        rw [hentry] at hfound
        cases tree with
        | file text =>
            cases hfound
            exact ⟨rfl, rfl⟩
        | directory entries =>
            obtain ⟨hplace, hown⟩ := lookupFrom_nil_eq_ok.mp hfound
            exact ⟨hplace.symm, hentry.symm.trans hown⟩
        | link target =>
            cases hfound
            exact ⟨rfl, rfl⟩

/-- If a lookup finds a directory once a link is followed, it does from the start. -/
theorem directory_of_afterLink {links : Nat} {last : FileName} {found : Found}
    (hlast : last ≠ [] ∧ last ≠ FilePath.selfName ∧ last ≠ FilePath.parentName)
    (hafter : ∀ start parts, afterLink top false links start (parts ++ [last]) = .ok found →
      ∃ stop entries, afterLink top true links start parts = .ok (stop, directory entries) ∧
        found.1 = stop ++ [last])
    {place parts : List FileName}
    (hfound : lookupParts top false links place (parts ++ [last]) = .ok found) :
    ∃ stop entries, lookupParts top true links place parts = .ok (stop, directory entries) ∧
      found.1 = stop ++ [last] := by
  rw [lookupParts_eq] at hfound ⊢
  induction parts generalizing place with
  | nil =>
      obtain ⟨hplace, hentry⟩ := lookupFrom_singleton_eq_ok hlast hfound
      obtain ⟨entries, hentries⟩ := exists_directory_of_descend hentry (List.cons_ne_nil _ _)
      exact ⟨place, entries, lookupFrom_nil_eq_ok.mpr ⟨rfl, hentries⟩, hplace⟩
  | cons part rest ih =>
      rw [List.cons_append] at hfound
      cases step top place part with
      | move next hstep =>
          rw [hstep] at hfound ⊢
          exact ih hfound
      | fail cause hstep => cases hstep false (afterLink top false links) (rest ++ [last]) ▸ hfound
      | file text hentry hstep =>
          rw [hstep, if_neg (by simp)] at hfound
          cases hfound
      | link target start hentry hstep =>
          rw [hstep, if_neg (by simp), ← List.append_assoc] at hfound
          rw [hstep, if_neg (by simp)]
          exact hafter start _ hfound

/-- A lookup that does not follow a name at the end finds that name in a directory. -/
theorem exists_directory_of_lookupParts {links : Nat} {last : FileName} {found : Found}
    (hlast : last ≠ [] ∧ last ≠ FilePath.selfName ∧ last ≠ FilePath.parentName)
    {place parts : List FileName}
    (hfound : lookupParts top false links place (parts ++ [last]) = .ok found) :
    ∃ stop entries, lookupParts top true links place parts = .ok (stop, directory entries) ∧
      found.1 = stop ++ [last] := by
  induction links generalizing place parts with
  | zero =>
      refine directory_of_afterLink hlast ?_ hfound
      intro start parts hlink
      cases hlink
  | succ links ih =>
      refine directory_of_afterLink hlast ?_ hfound
      intro start parts hlink
      exact ih hlink

end Shipment.FileTree
