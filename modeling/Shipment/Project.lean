import Shipment.Discovery
import Shipment.Inline
import Shipment.Loading

/-!
# Compiling a project

A project is a directory of resource files.  Its compilation reads the ignore
file, finds the resource files, loads their documents, turns each into JSON and
puts the sources of task steps in place.  It gives the documents of all files in
order, or the first error; nothing is kept from one compilation to the next.
-/

namespace Shipment

namespace IgnoreRules

/-- The rules of the ignore file at a path; a file that is not there has none. -/
def ofFile (files : FileSystem) (path : FilePath) : Noted (Except CompileError IgnoreRules) :=
  match files.readText path with
  | .ok text =>
    .after .debug ("loading ignore set from " ++ Text.ofBytes path) <| .plain <|
      match IgnoreRules.parse text (Text.ofBytes path) with
      | .ok rules => .ok rules
      | .error bad => .error (.badPattern bad)
  | .error .notFound =>
    .after .trace ("no ignore file at " ++ Text.ofBytes path) (.plain (.ok empty))
  | .error cause => .plain (.error (.ignoreUnreadable path cause))

end IgnoreRules

structure Project where
  files : FileSystem
  root : FilePath
  options : Options

namespace Project

/-- The rules of the project's ignore file, and those of the options after them. -/
def ignoreRules (p : Project) : Noted (Except CompileError IgnoreRules) :=
  (IgnoreRules.ofFile p.files (FilePath.join p.root p.options.ignoreFile)).andThen fun rules =>
    .plain <|
      match rules.addAll p.options.extraIgnore with
      | .ok rules => .ok rules
      | .error bad => .error (.badPattern bad)

/-- The resource files of the project. -/
def findFiles (p : Project) : Noted (Except CompileError (List String)) :=
  p.ignoreRules.andThen fun rules =>
    Search.resourceFiles ⟨p.files, p.root, rules, p.options⟩

/-- The manifest entry of a document. -/
def compileDocument (p : Project) (document : SourceDocument) :
    Noted (Except CompileError Entry) :=
  match document.value.normalize with
  | .error cause => .plain (.error (.notJson document.path document.number cause))
  | .ok spec =>
    let origin : Origin := ⟨document.path, document.number⟩
    let ctx : TaskContext := ⟨p.files, p.root, p.options.taskType, origin⟩
    (ctx.inlineSources spec).map fun found =>
      match found.2 with
      | .error e => .error e
      | .ok _ => .ok ⟨origin, found.1⟩

/-- The entries of the documents of a file. -/
def compileFile (p : Project) (path : String) : Noted (Except CompileError (List Entry)) :=
  (SourceDocument.ofFile p.files p.root path).andThen fun documents =>
    Noted.forEach p.compileDocument documents

/-- The manifest of the project. -/
def compile (p : Project) : Noted (Except CompileError Manifest) :=
  let entries := p.findFiles.andThen (Noted.forEach p.compileFile)
  entries.andThen fun found =>
    let manifest : Manifest := ⟨found.flatten⟩
    .after .debug
      ("compiled " ++ toString manifest.size ++ " documents from " ++ Text.ofBytes p.root)
      (.plain (.ok manifest))

end Project

end Shipment
