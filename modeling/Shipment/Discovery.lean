import Shipment.CompileError
import Shipment.Journal
import Shipment.Options

/-!
# Finding resource files

The resource files of a project are the entries below its root whose name has
one of the endings for resources, listed by their paths below the root in order.
Hidden entries and excluded directories are passed over with all that is below
them, and every other directory is read by its full path; the first that cannot be
read ends the search.  A link is an entry like a file, unless it leads to a
directory; only the root itself may be a link to a directory that is entered.
Names and paths are judged and listed as the texts that their bytes are read as.
-/

namespace Shipment

/-- What a search goes by. -/
structure Search where
  files : FileSystem
  root : FilePath
  rules : IgnoreRules
  options : Options

namespace Search

def isHidden (name : String) : Bool :=
  name.toList.head? == some '.'

/-- The path by which the walk has the entry at these names below the root. -/
def fullPath (s : Search) (names : List FileName) : FilePath :=
  names.foldl FilePath.join s.root

/-- The path below the root, as it is judged and listed. -/
def relativePath (s : Search) (path : FilePath) : String :=
  FilePath.relativeText s.root path

/-- Decides on an entry that is no directory. -/
def judge (s : Search) (path : FilePath) (name : FileName) : Noted (List String) :=
  let relative := s.relativePath path
  if s.files.leadsToDirectory path || !s.options.isCandidate (Text.ofBytes name) then .plain []
  else if s.rules.excludes relative false then .after .trace ("ignoring " ++ relative) (.plain [])
  else .after .trace ("found resource file " ++ relative) (.plain [relative])

mutual

/-- The files in a directory with the given names above it, in the order of the walk. -/
def walk (s : Search) (above : List FileName) :
    List (FileName × FileTree) → Noted (Except CompileError (List String))
  | [] => .plain (.ok [])
  | (name, tree) :: rest =>
    (visit s above name tree).andThen fun found => (walk s above rest).map (·.map (found ++ ·))

/-- The files at and below an entry. -/
def visit (s : Search) (above : List FileName) (name : FileName) :
    FileTree → Noted (Except CompileError (List String))
  | .directory entries =>
    let path := s.fullPath (above ++ [name])
    let relative := s.relativePath path
    if isHidden (Text.ofBytes name) then .plain (.ok [])
    else if s.rules.excludes relative true then
      .after .trace ("ignoring directory " ++ relative) (.plain (.ok []))
    else
      match s.files.lookup true path with
      | .error cause => .plain (.error (.unlisted path cause (above.length + 1)))
      | .ok _ => walk s (above ++ [name]) entries
  | _ =>
    if isHidden (Text.ofBytes name) then .plain (.ok [])
    else (judge s (s.fullPath (above ++ [name])) name).map .ok

end

/-- Paths in increasing order. -/
def sorted (paths : List String) : List String :=
  paths.mergeSort fun p q => decide (p ≤ q)

/-- The files at and below the root, in the order of the walk. -/
def walkRoot (s : Search) : Noted (Except CompileError (List String)) :=
  match s.files.lookup false s.root with
  | .error cause => .plain (.error (.unlisted s.root cause 0))
  | .ok (_, .directory entries) => s.walk [] entries
  | .ok (_, .file _) => (s.judge s.root (FilePath.fileName s.root)).map .ok
  | .ok (_, .link _) =>
    match s.files.lookup true s.root with
    | .error cause => .plain (.error (.unlisted s.root cause 0))
    | .ok (_, .directory entries) => s.walk [] entries
    | .ok _ => (s.judge s.root (FilePath.fileName s.root)).map .ok

/-- The resource files of the project. -/
def resourceFiles (s : Search) : Noted (Except CompileError (List String)) :=
  s.walkRoot.map (·.map sorted)

end Search

end Shipment
