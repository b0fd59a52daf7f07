import Shipment.Text.Bytes

/-!
# Paths

A path is bytes with slashes between names, and neither need be text.  Joining keeps
the bytes of both paths: an absolute path replaces what it is joined to, and any other
follows it after a slash.  The steps of a path are its names and the special ones; a
path below another is shown by the steps that it has behind those of the other, each
read as a text.
-/

namespace Shipment

/-- A name of an entry in a directory. -/
abbrev FileName := List UInt8

abbrev FilePath := List UInt8

instance : Coe String FilePath := ⟨Text.bytes⟩

namespace FilePath

def slash : UInt8 := 0x2F

/-- The name by which a directory has itself. -/
def selfName : FileName := [0x2E]

/-- The name by which a directory has the one above it. -/
def parentName : FileName := [0x2E, 0x2E]

def isAbsolute (path : FilePath) : Bool :=
  path.head? == some slash

/-- The path `child` seen from the directory `base`. -/
def join (base child : FilePath) : FilePath :=
  if isAbsolute child then child
  else if base.isEmpty || base.getLast? == some slash then base ++ child
  else base ++ slash :: child

/-- What stands between the slashes of a path, empty parts included. -/
def parts (path : FilePath) : List FileName :=
  path.splitOn slash

/-- The path with these names and slashes between them. -/
def ofNames (names : List FileName) : FilePath :=
  [slash].intercalate names

/-! ## Steps -/

inductive Step where
  | top
  | self
  | parent
  | name (name : FileName)
  deriving DecidableEq

def Step.bytes : Step → FileName
  | top => [slash]
  | self => selfName
  | parent => parentName
  | name own => own

/-- The step that a part stands for, wherever it stands. -/
def stepOf? (part : FileName) : Option Step :=
  if part = [] ∨ part = selfName then none
  else if part = parentName then some .parent
  else some (.name part)

/-- The steps of a path.  That it starts at the top, or at the directory itself, is a step. -/
def steps (path : FilePath) : List Step :=
  let more := (parts path).filterMap stepOf?
  if isAbsolute path then .top :: more
  else if (parts path).head? = some selfName then .self :: more
  else more

/-- The name that a path ends in, or the whole path where it ends in none. -/
def fileName (path : FilePath) : FileName :=
  match (steps path).getLast? with
  | some (.name name) => name
  | _ => path

/-- The steps of a path behind those of the root, or all of them if it is not below the
root, as a text. -/
def relativeText (root path : FilePath) : String :=
  let below := ((steps root).isPrefixOf? (steps path)).getD (steps path)
  String.intercalate "/" (below.map fun step => Text.ofBytes step.bytes)

/-- The names as texts, with slashes between them. -/
def textOf (names : List FileName) : String :=
  String.intercalate "/" (names.map Text.ofBytes)

end FilePath

end Shipment
