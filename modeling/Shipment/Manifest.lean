import Shipment.Json.Printer

/-!
# Manifests

The compiled documents of a project in the order in which they were found, each
with the file and the place in that file that it came from.  A document and its
origin are one entry, so the index of a document in the request body is also the
index of its origin.
-/

namespace Shipment

/-- Where a document came from. -/
structure Origin where
  /-- The path of the file below the root of the project. -/
  path : String
  /-- The number of the document in its file, from one. -/
  document : Nat
  deriving DecidableEq, Repr

structure Entry where
  origin : Origin
  spec : Json

structure Manifest where
  entries : List Entry

namespace Manifest

def empty : Manifest := ⟨[]⟩

def size (m : Manifest) : Nat :=
  m.entries.length

def isEmpty (m : Manifest) : Bool :=
  m.entries.isEmpty

def specs (m : Manifest) : List Json :=
  m.entries.map (·.spec)

def origins (m : Manifest) : List Origin :=
  m.entries.map (·.origin)

def get? (m : Manifest) (index : Nat) : Option Entry :=
  m.entries[index]?

/-- Puts an entry behind the others. -/
def push (m : Manifest) (entry : Entry) : Manifest :=
  ⟨m.entries ++ [entry]⟩

def append (m : Manifest) (entries : List Entry) : Manifest :=
  ⟨m.entries ++ entries⟩

/-- The field of the request body that holds the documents. -/
def fieldName : String := "specs"

/-- The request body. -/
def body (m : Manifest) : Json :=
  .object [(fieldName, .array m.specs)]

/-- The text of the request body. -/
def compact (m : Manifest) : String :=
  m.body.compact

def pretty (m : Manifest) : String :=
  m.body.pretty

@[simp] theorem entries_push (m : Manifest) (entry : Entry) :
    (m.push entry).entries = m.entries ++ [entry] := rfl

@[simp] theorem entries_append (m : Manifest) (entries : List Entry) :
    (m.append entries).entries = m.entries ++ entries := rfl

/-- A pushed entry is found at the index that was the size before. -/
theorem get?_push_size (m : Manifest) (entry : Entry) :
    (m.push entry).get? m.size = some entry := by
  simp [get?, size]

end Manifest

end Shipment
