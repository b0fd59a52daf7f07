import Shipment.CompileError
import Shipment.Journal
import Shipment.Yaml.Compose
import Shipment.Yaml.Merge

/-!
# Loading documents

A resource file holds YAML documents, numbered from one.  A file with nothing
but blank lines and comments has none.  Merge keys are resolved in every
document, and the first document that cannot be read is the error of the file.
-/

namespace Shipment

/-- A document as it stands in a file, with its merge keys resolved. -/
structure SourceDocument where
  path : String
  number : Nat
  value : Yaml.Node

namespace SourceDocument

/-- Whether a line is blank or holds only a comment. -/
def isVoidLine (line : List Char) : Bool :=
  match Text.trim line with
  | [] => true
  | c :: _ => c == '#'

/-- Whether a text has no content. -/
def isVoid (source : String) : Bool :=
  (Text.lines source.toList).all isVoidLine

/-- The value of a document with its merge keys resolved. -/
def valueOf (document : Yaml.Document) : Except Yaml.LoadFault Yaml.Node :=
  match document.value with
  | .error fault => .error fault
  | .ok value =>
    match Yaml.Merge.resolve value with
    | .error fault => .error (.merge fault)
    | .ok value => .ok value

/-- The values of documents, the first of which has the given number. -/
def numbered (path source : String) (number : Nat) :
    List Yaml.Document → Except CompileError (List SourceDocument)
  | [] => .ok []
  | document :: rest =>
    match valueOf document with
    | .error fault => .error (.malformed path number source fault)
    | .ok value => (numbered path source (number + 1) rest).map (⟨path, number, value⟩ :: ·)

/-- The documents of a source text; `path` names it in errors. -/
def ofSource (path source : String) : Except CompileError (List SourceDocument) :=
  if isVoid source then .ok []
  else numbered path source 1 (Yaml.documents source.toList)

/-- The documents of the file at a path below the root. -/
def ofFile (files : FileSystem) (root : FilePath) (path : String) :
    Noted (Except CompileError (List SourceDocument)) :=
  let full := FilePath.join root path
  .after .debug ("loading resource file " ++ Text.ofBytes full) <| .plain <|
    match files.readText full with
    | .error cause => .error (.fileUnreadable full cause)
    | .ok source => ofSource path source

end SourceDocument

end Shipment
