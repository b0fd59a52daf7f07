import Shipment.Files.Tree
import Shipment.Ignore
import Shipment.Normal
import Shipment.Yaml.LoadFault

/-!
# Compile errors

Why a project cannot be compiled.  A compilation stops at its first error, and
an error says which file it concerns and, where it can, which document of that
file and which part of its text.
-/

namespace Shipment

inductive CompileError where
  /-- A pattern of the ignore file or of the options cannot be read. -/
  | badPattern (bad : BadPattern)
  | ignoreUnreadable (path : FilePath) (cause : IoError)
  /-- A directory that is to be listed cannot be, so many levels below the root. -/
  | unlisted (path : FilePath) (cause : IoError) (depth : Nat)
  | fileUnreadable (path : FilePath) (cause : IoError)
  /-- A document of the source text is no YAML. -/
  | malformed (path : String) (document : Nat) (source : String) (fault : Yaml.LoadFault)
  | notJson (path : String) (document : Nat) (cause : NormalError)
  | sourceNotString (path : String) (document step : Nat)
  | sourceUnreadable (path : String) (document : Nat) (sourcePath : FilePath) (cause : IoError)

/-- A part of a text, in bytes, with a remark on it. -/
structure Label where
  text : String
  offset : Nat
  length : Nat
  deriving DecidableEq, Repr

/-- The place of a fault in its source: the position in front of it, but at most
the end, and one byte from there on; without a position nothing at the start. -/
def Yaml.LoadFault.span (fault : Yaml.LoadFault) (source : String) : Nat × Nat :=
  match fault.mark? with
  | none => (0, 0)
  | some mark =>
    let size := Text.byteLength source.toList
    let offset := min mark.index size
    (offset, if offset < size then 1 else 0)

namespace CompileError

def documentText (path : String) (document : Nat) : String :=
  path ++ ": document " ++ toString document

def sourceText (path : String) (document : Nat) : String :=
  path ++ ": cannot load task source for document " ++ toString document

/-- The wording of an error, if it has one of its own. -/
def message? : CompileError → Option String
  | badPattern bad => bad.message?
  | ignoreUnreadable path _ => some ("cannot read " ++ Text.ofBytes path)
  | unlisted path _ _ => some ("cannot read directory " ++ Text.ofBytes path)
  | fileUnreadable path _ => some ("cannot read " ++ Text.ofBytes path)
  | malformed path document _ fault =>
    some (documentText path document ++ " is not valid yaml: " ++ fault.message)
  | notJson path document _ => some (documentText path document ++ " is not a valid json value")
  | sourceNotString path document step =>
    some (sourceText path document ++ ": step " ++ toString step ++ " has a non-string source")
  | sourceUnreadable path document sourcePath _ =>
    some (sourceText path document ++ ": cannot read file " ++ Text.ofBytes sourcePath)

def code : CompileError → String
  | badPattern _ => "ignore::invalid_pattern"
  | ignoreUnreadable _ _ => "ignore::read"
  | unlisted _ _ _ => "compiler::walk"
  | fileUnreadable _ _ => "compiler::read_file"
  | malformed _ _ _ _ => "compiler::syntax"
  | notJson _ _ _ => "compiler::normalize"
  | sourceNotString _ _ _ => "compiler::source_not_string"
  | sourceUnreadable _ _ _ _ => "compiler::source_unreadable"

/-- What may be done about an error. -/
def help? : CompileError → Option String
  | badPattern _ =>
    some "Patterns support `*`, `**`, `?`, character classes, alternatives and `\\` escapes."
  | unlisted _ _ _ => some "Check that the directory exists and is readable."
  | malformed _ _ _ _ => some "Fix the yaml syntax of this document; nothing was deployed."
  | sourceNotString _ _ _ =>
    some "The `source` field of a step must be a path relative to the project directory."
  | _ => none

/-- The part of a text that an error is about. -/
def label? : CompileError → Option Label
  | badPattern bad => bad.reason.message?.map fun text => ⟨text, bad.offset, bad.length⟩
  | malformed _ _ source fault =>
    let (offset, length) := fault.span source
    some ⟨fault.message, offset, length⟩
  | _ => none

end CompileError

namespace NormalError

def code : NormalError → String
  | nonStringKey _ _ => "normalize::non_string_key"
  | nonFiniteNumber _ => "normalize::non_finite_number"

def help? : NormalError → Option String
  | nonStringKey _ _ => some "Quote the key so that it is read as a string."
  | nonFiniteNumber _ => none

end NormalError

end Shipment
