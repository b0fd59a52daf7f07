import Shipment.Json.Basic
import Shipment.Number.Reading
import Shipment.Pointer

/-!
# Looking into a document

A pointer walks through a value one segment at a time: an object by key, an
array by the decimal index the segment spells.  Reading a location and
replacing what is there take the same steps, so one finds a target exactly when
the other does.
-/

namespace Shipment.Json

/-- The index that a segment spells, a number of sixty-four bits.  A leading zero
makes a longer segment no index, and a plus sign is accepted. -/
def index? (segment : String) : Option Nat :=
  match segment.toList with
  | '0' :: _ :: _ => none
  | text =>
    match Digits.readUnsigned? 10 text with
    | some n => if n < Digits.wordCount then some n else none
    | none => none

/-- The value one segment below. -/
def child? (value : Json) (segment : String) : Option Json :=
  match value with
  | object fields => Fields.get? segment fields
  | array items => (index? segment).bind (items[·]?)
  | _ => none

/-- The value at the end of the segments. -/
def lookup : List String → Json → Option Json
  | [], value => some value
  | segment :: rest, value => (value.child? segment).bind (lookup rest)

def get? (value : Json) (p : Pointer) : Option Json :=
  lookup p.segments value

/-- Applies `f` to the item at an index. -/
def modifyItem? (f : Json → Option Json) : Nat → List Json → Option (List Json)
  | _, [] => none
  | 0, item :: rest => (f item).map (· :: rest)
  | i + 1, item :: rest => (modifyItem? f i rest).map (item :: ·)

/-- Applies `f` one segment below and keeps everything else. -/
def modifyChild? (value : Json) (segment : String) (f : Json → Option Json) : Option Json :=
  match value with
  | object fields => (Fields.modify? segment f fields).map object
  | array items => (index? segment).bind fun i => (modifyItem? f i items).map array
  | _ => none

/-- Applies `f` to the value at the end of the segments. -/
def modify? (f : Json → Option Json) : List String → Json → Option Json
  | [], value => f value
  | segment :: rest, value => value.modifyChild? segment (modify? f rest)

/-- Replaces the value at a location, if there is one. -/
def set? (value : Json) (p : Pointer) (replacement : Json) : Option Json :=
  modify? (fun _ => some replacement) p.segments value

end Shipment.Json
