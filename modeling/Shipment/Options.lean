import Shipment.Yaml.Shape

/-!
# Options

What a compilation may be told: which ignore file to read and which patterns to
add to it, which files hold resources, and which type of resource is a task.
Every option has a default, so a text may name any of them or none; a name that
is no option is refused.
-/

namespace Shipment

structure Options where
  /-- The ignore file, below the root of the project. -/
  ignoreFile : String
  /-- Endings of resource files, without the point; case makes no difference. -/
  extensions : List String
  /-- The type of the resources whose steps get their sources. -/
  taskType : String
  /-- Patterns after those of the ignore file. -/
  extraIgnore : List String
  deriving DecidableEq, Repr

namespace Options

def standard : Options := ⟨".evcli-ignore", ["yml", "yaml"], "task", []⟩

def withIgnoreFile (o : Options) (name : String) : Options :=
  { o with ignoreFile := name }

def withTaskType (o : Options) (taskType : String) : Options :=
  { o with taskType := taskType }

def withExtraIgnore (o : Options) (pattern : String) : Options :=
  { o with extraIgnore := o.extraIgnore ++ [pattern] }

/-- The text after the last point, if there is a point. -/
def extension? : List Char → Option (List Char)
  | [] => none
  | c :: rest =>
    match extension? rest with
    | some e => some e
    | none => if c = '.' then some rest else none

/-- Equality without regard to the case of the letters from `a` to `z`. -/
def sameLetters (s t : List Char) : Bool :=
  s.map Char.toLower == t.map Char.toLower

/-- Whether a file of this name may hold resources. -/
def isCandidate (o : Options) (fileName : String) : Bool :=
  match extension? fileName.toList with
  | none => false
  | some e => o.extensions.any fun extension => sameLetters extension.toList e

/-- The names of the options in text, in the order in which messages list them. -/
def fieldNames : List String :=
  ["ignore_file", "extensions", "task_type", "extra_ignore"]

/-- The options named so far. -/
structure Draft where
  ignoreFile : Option String
  extensions : Option (List String)
  taskType : Option String
  extraIgnore : Option (List String)

namespace Draft

def empty : Draft := ⟨none, none, none, none⟩

def has (d : Draft) (name : String) : Bool :=
  (name == "ignore_file" && d.ignoreFile.isSome) ||
    (name == "extensions" && d.extensions.isSome) ||
    (name == "task_type" && d.taskType.isSome) ||
    (name == "extra_ignore" && d.extraIgnore.isSome)

/-- The options, with the defaults where none was named. -/
def finish (d : Draft) : Options :=
  ⟨d.ignoreFile.getD standard.ignoreFile, d.extensions.getD standard.extensions,
    d.taskType.getD standard.taskType, d.extraIgnore.getD standard.extraIgnore⟩

end Draft

/-- Names the options in a message. -/
def shape : String := "struct CompileOptions"

open Yaml (Document LoadFault Mark Path Piece)

/-- Reads the value of an option. -/
def readField (doc : Document) (d : Draft) (name : String) (path : Path)
    (pieces : List (Piece × Mark)) : Except LoadFault (Draft × List (Piece × Mark)) :=
  if name = "ignore_file" then
    (doc.neededText path pieces).map fun found => ({ d with ignoreFile := some found.1 }, found.2)
  else if name = "extensions" then
    (doc.neededList path pieces).map fun found => ({ d with extensions := some found.1 }, found.2)
  else if name = "task_type" then
    (doc.neededText path pieces).map fun found => ({ d with taskType := some found.1 }, found.2)
  else
    (doc.neededList path pieces).map fun found => ({ d with extraIgnore := some found.1 }, found.2)

/-- Reads the fields of a mapping that starts at `start`. -/
def readFields (doc : Document) (start : Mark) :
    Nat → Draft → List (Piece × Mark) → Except LoadFault Options
  | 0, _, _ => .error doc.ending
  | _ + 1, _, [] => .error doc.ending
  | fuel + 1, d, (piece, mark) :: rest =>
    if piece = .mappingEnd then .ok d.finish
    else
      match doc.textOf "field identifier" .root piece mark with
      | .error e => .error e
      | .ok name =>
        if !fieldNames.contains name then
          .error (.mismatch (.unknownField name fieldNames) .root (doc.placeOf piece mark))
        else if d.has name then .error (.mismatch (.duplicateField name) .root start)
        else
          match readField doc d name (piece.valuePath .root) rest with
          | .error e => .error e
          | .ok (d, rest) => readFields doc start fuel d rest

/-- The options that a document holds. -/
def ofDocument (doc : Document) : Except LoadFault Options :=
  match doc.pieces with
  | [] => .error doc.ending
  | (piece, mark) :: rest =>
    match piece with
    | .mappingStart _ => readFields doc mark (rest.length + 1) .empty rest
    | _ => if piece.isEmpty then .ok standard else doc.refuse shape .root piece mark

/-- Reads options.  A text holds one document at most. -/
def parse (text : String) : Except LoadFault Options :=
  match Yaml.documents text.toList with
  | [] => .error .noValue
  | doc :: more =>
    match ofDocument doc with
    | .error e => .error e
    | .ok o =>
      match doc.failure with
      | some e => .error e
      | none => if more.isEmpty then .ok o else .error .severalDocuments

end Options

end Shipment
