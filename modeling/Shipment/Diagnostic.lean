import Shipment.Manifest
import Shipment.Number.Reading
import Shipment.Pointer
import Shipment.ValidationFailure

/-!
# Diagnostics

A failure that the server reports points into the request body.  The index
behind the name of the payload field selects a document of the manifest, and
with it the file that the document came from; what follows the index is a
location inside the document.  A pointer that cannot be followed so far means
that server and client do not agree on the request, and is an error.
-/

namespace Shipment

/-- Why a failure cannot be traced to a document. -/
inductive DiagnosticError where
  | invalidPointer (cause : PointerError)
  /-- The pointer does not start at the payload field. -/
  | unexpectedRoot (pointer expected : String)
  | missingIndex (pointer : String)
  | invalidIndex (pointer index : String)
  /-- The manifest has only so many documents. -/
  | indexOutOfRange (pointer : String) (index size : Nat)
  deriving DecidableEq, Repr

namespace DiagnosticError

def indexText (index : String) (pointer : String) : String :=
  "invalid document index " ++ index ++ " in json pointer " ++ Text.quoted pointer

def message : DiagnosticError → String
  | invalidPointer _ => "invalid json pointer in error response"
  | unexpectedRoot pointer expected =>
    "invalid json pointer " ++ Text.quoted pointer ++
      " in error response: expected it to start with /" ++ expected
  | missingIndex pointer =>
    "invalid json pointer " ++ Text.quoted pointer ++
      " in error response: missing document index"
  | invalidIndex pointer index => indexText (Text.quoted index) pointer
  | indexOutOfRange pointer index size =>
    indexText (toString index) pointer ++ ": the bundle has " ++ toString size ++ " documents"

def code : DiagnosticError → String
  | invalidPointer _ => "diagnostic::invalid_pointer"
  | unexpectedRoot _ _ => "diagnostic::unexpected_root"
  | missingIndex _ => "diagnostic::missing_index"
  | invalidIndex _ _ => "diagnostic::invalid_index"
  | indexOutOfRange _ _ _ => "diagnostic::index_out_of_range"

end DiagnosticError

/-- How a document is named. -/
inductive Resource where
  /-- By its number in the file. -/
  | document (number : Nat)
  /-- By its own type and name. -/
  | named (kind name : String)
  deriving DecidableEq, Repr

def Resource.text : Resource → String
  | document number => "document " ++ toString number
  | named kind name => kind ++ " " ++ Text.quoted name

/-- A failure traced to a document. -/
structure Diagnostic where
  path : String
  resource : Resource
  /-- The location inside the document, unless the failure is about all of it. -/
  field : Option String
  reason : String
  deriving DecidableEq, Repr

namespace Diagnostic

def text (d : Diagnostic) : String :=
  d.path ++ ": invalid " ++ d.resource.text ++ ": " ++
    (match d.field with
      | some field => field ++ ": "
      | none => "") ++ d.reason

/-- The index that a segment spells: decimal digits only. -/
def index? (segment : String) : Option Nat :=
  (Digits.read? 10 segment.toList).filter (· < Digits.wordCount)

/-- The name of a document by its type and name, if both are texts with content. -/
def nameOf? (spec : Json) : Option Resource :=
  match spec.stringField? "type", spec.stringField? "name" with
  | some kind, some name => if kind = "" ∨ name = "" then none else some (.named kind name)
  | _, _ => none

/-- Whether a location is all of the document.  So is the empty key. -/
def isWhole (location : Pointer) : Bool :=
  location.segments == [] || location.segments == [""]

/-- The diagnostic of a failure in the document of an entry. -/
def ofEntry (entry : Entry) (location : Pointer) (reason : String) : Diagnostic :=
  if isWhole location then ⟨entry.origin.path, .document entry.origin.document, none, reason⟩
  else
    ⟨entry.origin.path, (nameOf? entry.spec).getD (.document entry.origin.document),
      some location.relative, reason⟩

/-- Traces a failure to its document. -/
def ofFailure (m : Manifest) (failure : ValidationFailure) : Except DiagnosticError Diagnostic :=
  match Pointer.parse failure.pointer with
  | .error cause => .error (.invalidPointer cause)
  | .ok pointer =>
    match pointer.segments with
    | [] => .error (.unexpectedRoot failure.pointer Manifest.fieldName)
    | field :: rest =>
      if field ≠ Manifest.fieldName then
        .error (.unexpectedRoot failure.pointer Manifest.fieldName)
      else
        match rest with
        | [] => .error (.missingIndex failure.pointer)
        | segment :: _ =>
          match index? segment with
          | none => .error (.invalidIndex failure.pointer segment)
          | some index =>
            match m.get? index with
            | none => .error (.indexOutOfRange failure.pointer index m.size)
            | some entry => .ok (ofEntry entry (pointer.skip 2) failure.reason)

/-- Traces each failure on its own. -/
def ofFailures (m : Manifest) (failures : List ValidationFailure) :
    List (Except DiagnosticError Diagnostic) :=
  failures.map (ofFailure m)

/-- The lines of the diagnostics, or the first error. -/
def lines : List (Except DiagnosticError Diagnostic) → Except DiagnosticError (List String)
  | [] => .ok []
  | .error e :: _ => .error e
  | .ok d :: rest => (lines rest).map (d.text :: ·)

/-- All failures as one text, a line each. -/
def render (m : Manifest) (failures : List ValidationFailure) : Except DiagnosticError String :=
  (lines (ofFailures m failures)).map (String.intercalate "\n")

end Diagnostic

end Shipment
