import Shipment.Fields
import Shipment.Files.Path

/-!
# File systems

A file system is a value: a tree of directories with files and symbolic links at its
leaves, and the directory in it from which relative paths start.  A path is looked up
name by name.  A link is followed where a name after it needs it to be a directory,
and at the end of the path if the caller wants the target; a limited number of links
may be followed.
-/

namespace Shipment

/-- Why a path cannot be used. -/
inductive IoError where
  | notFound
  | notADirectory
  | isADirectory
  /-- The bytes of the file are no text. -/
  | invalidData
  /-- The path has a byte that no path may hold. -/
  | invalidInput
  /-- The path or one of its names is too long. -/
  | invalidFilename
  | linkLoop
  deriving DecidableEq, Repr

inductive FileTree where
  /-- A file with its text, or without one if its bytes are not UTF-8. -/
  | file (text : Option String)
  /-- A directory with its entries in the order of their names. -/
  | directory (entries : List (FileName × FileTree))
  | link (target : FilePath)
  deriving Inhabited

namespace FileTree

def empty : FileTree := directory []

def isDirectory : FileTree → Bool
  | directory _ => true
  | _ => false

/-- The entry of a directory with a name. -/
def child? (name : FileName) : FileTree → Option FileTree
  | directory entries => Fields.get? name entries
  | _ => none

/-- The entry at a list of names, links not followed. -/
def descend : List FileName → FileTree → Option FileTree
  | [], tree => some tree
  | name :: rest, tree => (tree.child? name).bind (descend rest)

/-- The most bytes in a name. -/
def nameLimit : Nat := 255

/-- The number of bytes from which a path is too long. -/
def pathLimit : Nat := 4096

/-- How many links one lookup may follow. -/
def linkLimit : Nat := 40

/-- What a lookup finds: the names from the top, without links, and the entry. -/
abbrev Found := List FileName × FileTree

/-- Looks up the parts of a path from the directory at `place`.  `onLink` goes
on with the directory of a link and the parts of its target with those after it. -/
def lookupFrom (top : FileTree) (follow : Bool)
    (onLink : List FileName → List FileName → Except IoError Found) :
    List FileName → List FileName → Except IoError Found
  | place, [] =>
    match top.descend place with
    | some tree => .ok (place, tree)
    | none => .error .notFound
  | place, part :: rest =>
    if part = [] ∨ part = FilePath.selfName then lookupFrom top follow onLink place rest
    else if part = FilePath.parentName then lookupFrom top follow onLink place.dropLast rest
    else if nameLimit < part.length then .error .invalidFilename
    else
      match (top.descend place).bind (child? part) with
      | none => .error .notFound
      | some (file text) =>
        if rest.isEmpty then .ok (place ++ [part], file text) else .error .notADirectory
      | some (directory _) => lookupFrom top follow onLink (place ++ [part]) rest
      | some (link target) =>
        if rest.isEmpty && !follow then .ok (place ++ [part], link target)
        else
          let start := if FilePath.isAbsolute target then [] else place
          onLink start (FilePath.parts target ++ rest)

/-- Looks up parts with a number of links to follow. -/
def lookupParts (top : FileTree) (follow : Bool) :
    Nat → List FileName → List FileName → Except IoError Found
  | 0 => lookupFrom top follow fun _ _ => .error .linkLoop
  | links + 1 => lookupFrom top follow (lookupParts top follow links)

/-- Puts an entry at a list of names and makes the directories above it. -/
def put (tree : FileTree) : List FileName → FileTree → FileTree
  | [], entry => entry
  | name :: rest, entry =>
    let entries := match tree with
      | directory entries => entries
      | _ => []
    let below := (Fields.get? name entries).getD empty
    directory (Fields.insert name (below.put rest entry) entries)

end FileTree

structure FileSystem where
  tree : FileTree
  /-- The names that lead from the top to the working directory. -/
  working : List FileName

namespace FileSystem

/-- The directory from which a path is looked up. -/
def start (files : FileSystem) (path : FilePath) : List FileName :=
  if FilePath.isAbsolute path then [] else files.working

/-- Looks up a path, absolute or seen from the working directory. -/
def lookup (files : FileSystem) (follow : Bool) (path : FilePath) :
    Except IoError FileTree.Found :=
  if path.contains 0 then .error .invalidInput
  else if FileTree.pathLimit ≤ path.length then .error .invalidFilename
  else if path.isEmpty then .error .notFound
  else
    FileTree.lookupParts files.tree follow FileTree.linkLimit (files.start path)
      (FilePath.parts path)

/-- The text of the file at a path. -/
def readText (files : FileSystem) (path : FilePath) : Except IoError String :=
  match files.lookup true path with
  | .error e => .error e
  | .ok (_, .file (some text)) => .ok text
  | .ok (_, .file none) => .error .invalidData
  | .ok (_, .directory _) => .error .isADirectory
  | .ok (_, .link _) => .error .linkLoop

/-- Whether the path leads to a directory, through links if need be. -/
def leadsToDirectory (files : FileSystem) (path : FilePath) : Bool :=
  match files.lookup true path with
  | .ok (_, tree) => tree.isDirectory
  | .error _ => false

end FileSystem

end Shipment
