import Shipment.Discovery
import Shipment.Proofs.Files.PathLookup
import Shipment.Proofs.Journal

/-!
# The skeleton of a file tree

The skeleton of a tree has its names, its kinds of entries and the targets of its
links, and forgets what its files hold.  Looking up a path and searching for resource
files need the skeleton only.
-/

namespace Shipment

namespace FileTree

mutual

/-- The tree without the contents of its files. -/
def skeleton : FileTree → FileTree
  | file _ => file none
  | directory entries => directory (skeletons entries)
  | link target => link target

/-- The entries of a directory without the contents of their files. -/
def skeletons : List (FileName × FileTree) → List (FileName × FileTree)
  | [] => []
  | (name, tree) :: rest => (name, tree.skeleton) :: skeletons rest

end

/-- A lookup result without the contents of files. -/
def skeletonFound (found : Found) : Found :=
  (found.1, found.2.skeleton)

@[simp]
theorem isDirectory_skeleton (tree : FileTree) : tree.skeleton.isDirectory = tree.isDirectory := by
  cases tree <;> rfl

theorem get?_skeletons (name : FileName) (entries : List (FileName × FileTree)) :
    Fields.get? name (skeletons entries) = (Fields.get? name entries).map skeleton := by
  induction entries with
  | nil => rfl
  | cons entry rest ih =>
      obtain ⟨own, tree⟩ := entry
      simp only [skeletons, Fields.get?]
      split
      · rfl
      · exact ih

theorem child?_skeleton (name : FileName) (tree : FileTree) :
    tree.skeleton.child? name = (tree.child? name).map skeleton := by
  cases tree with
  | directory entries => exact get?_skeletons name entries
  | file text => rfl
  | link target => rfl

theorem descend_skeleton (names : List FileName) (tree : FileTree) :
    descend names tree.skeleton = (descend names tree).map skeleton := by
  induction names generalizing tree with
  | nil => rfl
  | cons name rest ih =>
      rw [descend, descend, child?_skeleton]
      cases tree.child? name with
      | none => rfl
      | some below => exact ih below

/-! ## Lookups -/

variable {top : FileTree} {follow : Bool}

theorem lookupFrom_skeleton {onLink onLink' : OnLink}
    (honLink : ∀ place parts, onLink' place parts = (onLink place parts).map skeletonFound)
    (place parts : List FileName) :
    lookupFrom top.skeleton follow onLink' place parts =
      (lookupFrom top follow onLink place parts).map skeletonFound := by
  induction parts generalizing place with
  | nil =>
      rw [lookupFrom, lookupFrom, descend_skeleton]
      cases top.descend place <;> rfl
  | cons part rest ih =>
      have hentry : (top.skeleton.descend place).bind (child? part) =
          ((top.descend place).bind (child? part)).map skeleton := by
        rw [← descend_concat, ← descend_concat, descend_skeleton]
      rw [lookupFrom, lookupFrom, hentry]
      by_cases hself : part = [] ∨ part = FilePath.selfName
      · rw [if_pos hself, if_pos hself]
        exact ih place
      rw [if_neg hself, if_neg hself]
      by_cases hparent : part = FilePath.parentName
      · rw [if_pos hparent, if_pos hparent]
        exact ih place.dropLast
      rw [if_neg hparent, if_neg hparent]
      by_cases hlong : nameLimit < part.length
      · rw [if_pos hlong, if_pos hlong]
        rfl
      rw [if_neg hlong, if_neg hlong]
      cases (top.descend place).bind (child? part) with
      | none => rfl
      | some tree =>
          cases tree with
          | file text => cases rest <;> rfl
          | directory entries => exact ih (place ++ [part])
          | link target =>
              simp only [Option.map_some, skeleton]
              split
              · rfl
              · exact honLink _ _

theorem lookupParts_skeleton (links : Nat) (place parts : List FileName) :
    lookupParts top.skeleton follow links place parts =
      (lookupParts top follow links place parts).map skeletonFound := by
  induction links generalizing place parts with
  | zero =>
      apply lookupFrom_skeleton
      exact fun _ _ => rfl
  | succ links ih => exact lookupFrom_skeleton ih place parts

end FileTree

namespace FileSystem

open FileTree (skeletonFound)

variable {files : FileSystem} {follow : Bool}

/-- The same working directory in another tree. -/
def withTree (files : FileSystem) (tree : FileTree) : FileSystem :=
  { files with tree }

/-- The file system without the contents of its files. -/
def skeleton (files : FileSystem) : FileSystem :=
  files.withTree files.tree.skeleton

/-- A path leads to the same place whatever the files hold. -/
theorem lookup_skeleton (path : FilePath) :
    files.skeleton.lookup follow path = (files.lookup follow path).map skeletonFound := by
  rw [lookup, lookup]
  split_ifs
  · rfl
  · rfl
  · rfl
  · exact FileTree.lookupParts_skeleton ..

@[simp]
theorem leadsToDirectory_skeleton (path : FilePath) :
    files.skeleton.leadsToDirectory path = files.leadsToDirectory path := by
  rw [leadsToDirectory, leadsToDirectory, lookup_skeleton]
  cases files.lookup true path with
  | error cause => rfl
  | ok found => exact FileTree.isDirectory_skeleton found.2

/-- Trees with the same skeleton have the same text at a path if they have it in the
file that the path leads to, should it lead to one. -/
theorem readText_eq_of_skeleton_eq {other : FileTree}
    (hskeleton : other.skeleton = files.tree.skeleton) {path : FilePath}
    (hfile : ∀ place text, files.lookup true path = .ok (place, .file text) →
      other.descend place = some (.file text)) :
    (files.withTree other).readText path = files.readText path := by
  have hsame : (files.withTree other).skeleton = files.skeleton := by
    rw [skeleton, skeleton, withTree, withTree, withTree, hskeleton]
  have hlookup : ((files.withTree other).lookup true path).map skeletonFound =
      (files.lookup true path).map skeletonFound := by
    rw [← lookup_skeleton, hsame, lookup_skeleton]
  unfold readText
  cases hown : files.lookup true path with
  | error cause =>
      rw [hown] at hlookup
      rw [map_eq_error.mp hlookup]
  | ok found =>
      obtain ⟨place, tree⟩ := found
      rw [hown] at hlookup
      obtain ⟨⟨place', tree'⟩, hother, hsame⟩ := map_eq_ok.mp hlookup
      obtain ⟨rfl, htree⟩ := Prod.mk.inj hsame
      rw [hother]
      cases tree with
      | file text =>
          have hentry := (descend_of_lookup hother).symm.trans (hfile _ _ hown)
          obtain rfl : tree' = .file text := Option.some.inj hentry
          rfl
      | directory entries =>
          cases tree' with
          | directory entries' => rfl
          | _ => cases htree
      | link target =>
          cases tree' with
          | link target' => rfl
          | _ => cases htree

end FileSystem

/-! ## Searches -/

namespace Search

variable (s : Search)

/-- The search in the skeleton of its files. -/
def onSkeleton : Search :=
  { s with files := s.files.skeleton }

theorem judge_onSkeleton (path : FilePath) (name : FileName) :
    s.onSkeleton.judge path name = s.judge path name := by
  unfold judge relativePath onSkeleton
  rw [FileSystem.leadsToDirectory_skeleton]

mutual

theorem visit_onSkeleton (above : List FileName) (name : FileName) (tree : FileTree) :
    s.onSkeleton.visit above name tree.skeleton = s.visit above name tree := by
  cases tree with
  | directory entries =>
      rw [FileTree.skeleton, visit, visit]
      have hwalk := walk_onSkeleton (above ++ [name]) entries
      have hpath : ∀ names, s.onSkeleton.fullPath names = s.fullPath names := fun _ => rfl
      have hrelative : ∀ path, s.onSkeleton.relativePath path = s.relativePath path := fun _ => rfl
      have hlookup : s.onSkeleton.files.lookup true (s.fullPath (above ++ [name])) = _ :=
        FileSystem.lookup_skeleton (s.fullPath (above ++ [name]))
      simp only [hpath, hrelative, hlookup, hwalk]
      cases s.files.lookup true (s.fullPath (above ++ [name])) <;> rfl
  | file text =>
      rw [FileTree.skeleton, visit, visit, judge_onSkeleton]
      · rfl
      · simp
      · simp
  | link target =>
      rw [FileTree.skeleton, visit, visit, judge_onSkeleton]
      · rfl
      · simp
      · simp

theorem walk_onSkeleton (above : List FileName) (entries : List (FileName × FileTree)) :
    s.onSkeleton.walk above (FileTree.skeletons entries) = s.walk above entries := by
  cases entries with
  | nil => rfl
  | cons entry rest =>
      obtain ⟨name, tree⟩ := entry
      rw [FileTree.skeletons, walk, walk, visit_onSkeleton above name tree,
        walk_onSkeleton above rest]

end

theorem walkRoot_onSkeleton : s.onSkeleton.walkRoot = s.walkRoot := by
  have hlookup : ∀ follow, s.onSkeleton.files.lookup follow s.onSkeleton.root =
      (s.files.lookup follow s.root).map FileTree.skeletonFound :=
    fun _ => FileSystem.lookup_skeleton _
  have hroot : s.onSkeleton.root = s.root := rfl
  unfold walkRoot
  rw [hlookup, hlookup]
  cases s.files.lookup false s.root with
  | error cause => rfl
  | ok found =>
      obtain ⟨place, tree⟩ := found
      cases tree with
      | directory entries => exact s.walk_onSkeleton [] entries
      | file text =>
          exact congrArg (Noted.map Except.ok) (s.judge_onSkeleton s.root (FilePath.fileName s.root))
      | link target =>
          simp only [Except.map, FileTree.skeletonFound, FileTree.skeleton]
          cases s.files.lookup true s.root with
          | error cause => rfl
          | ok found =>
              obtain ⟨place, tree⟩ := found
              cases tree with
              | directory entries => exact s.walk_onSkeleton [] entries
              | _ =>
                  exact congrArg (Noted.map Except.ok)
                    (s.judge_onSkeleton s.root (FilePath.fileName s.root))

/-- A search goes the same way, and finds the same, whatever the files hold. -/
theorem resourceFiles_onSkeleton : s.onSkeleton.resourceFiles = s.resourceFiles := by
  rw [resourceFiles, walkRoot_onSkeleton, resourceFiles]

end Search

end Shipment
