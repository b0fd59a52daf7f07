import Shipment.Manifest

/-!
# Filling a manifest

While a manifest is filled, its documents and their origins are kept in two lists.  An
entry is put behind the others only, its parts into both lists at once, so that one
index serves both.
-/

namespace Shipment

/-- The documents of a manifest and their origins. -/
structure Columns where
  specs : List Json
  origins : List Origin

/-- One step of filling a manifest. -/
inductive Addition where
  /-- An entry, whose index is given back. -/
  | push (entry : Entry)
  /-- Any number of entries, one after the other. -/
  | extend (entries : List Entry)

namespace Columns

def empty : Columns := ⟨[], []⟩

def size (c : Columns) : Nat :=
  c.specs.length

def isEmpty (c : Columns) : Bool :=
  c.specs.isEmpty

/-- Puts an entry behind the others, and gives its index. -/
def push (c : Columns) (entry : Entry) : Columns × Nat :=
  let specs := c.specs ++ [entry.spec]
  (⟨specs, c.origins ++ [entry.origin]⟩, specs.length - 1)

/-- Puts several entries behind the others. -/
def extend (c : Columns) : List Entry → Columns
  | [] => c
  | entry :: rest => (c.push entry).1.extend rest

/-- What both lists have at an index. -/
def get? (c : Columns) (index : Nat) : Option (Origin × Json) :=
  match c.origins[index]?, c.specs[index]? with
  | some origin, some spec => some (origin, spec)
  | _, _ => none

/-- Each origin with its document. -/
def pairs (c : Columns) : List (Origin × Json) :=
  c.origins.zip c.specs

/-- The lists after a step, and the index of an entry that was pushed. -/
def add (c : Columns) : Addition → Columns × Option Nat
  | .push entry =>
    let pushed := c.push entry
    (pushed.1, some pushed.2)
  | .extend entries => (c.extend entries, none)

/-- The lists after several steps, and what each of them gave back. -/
def addAll (c : Columns) : List Addition → Columns × List (Option Nat)
  | [] => (c, [])
  | addition :: rest =>
    let first := c.add addition
    let more := first.1.addAll rest
    (more.1, first.2 :: more.2)

/-- The manifest with the entries of the lists. -/
def manifest (c : Columns) : Manifest :=
  ⟨c.pairs.map fun pair => ⟨pair.1, pair.2⟩⟩

end Columns

end Shipment
