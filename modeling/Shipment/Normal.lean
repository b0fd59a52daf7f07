import Shipment.Json.Basic
import Shipment.Pointer
import Shipment.Yaml.Printer

/-!
# From YAML to JSON

A YAML value becomes a document: tags are dropped, every key must be a string
without a tag, and every number must be finite.  A number is handed over as the
first word or double that it gives, and nothing else changes.  The first offence
in reading order, keys before their values, is the one reported.
-/

namespace Shipment

inductive NormalError where
  /-- The mapping here has this key, which is not a string. -/
  | nonStringKey (location : Pointer) (key : String)
  | nonFiniteNumber (location : Pointer)
  deriving DecidableEq

namespace NormalError

/-- The text of a location; the top of a document is a slash. -/
def locationText (location : Pointer) : String :=
  if location.isRoot then "/" else location.text

def location : NormalError → Pointer
  | nonStringKey location _ => location
  | nonFiniteNumber location => location

def message : NormalError → String
  | nonStringKey location key =>
    locationText location ++ ": mapping key " ++ key ++ " is not a string"
  | nonFiniteNumber location => locationText location ++ ": number is not finite"

end NormalError

namespace Yaml.Node

/-- The number of a document that a number stands for: the first of a signed word, an unsigned
word and a finite double that it has. -/
def normalizeNumber (pointer : Pointer) (n : Number) : Except NormalError Shipment.Number :=
  match n.asInt64? with
  | some word => .ok (.ofInt64 word)
  | none =>
    match n.asUInt64? with
    | some word => .ok (.ofUInt64 word)
    | none =>
      match n.asBinary64?.bind Shipment.Number.ofBinary64? with
      | some found => .ok found
      | none => .error (.nonFiniteNumber pointer)

mutual

/-- The document that a value stands for, and the pointer that went along.  It leads to the
value, and each child has its segment pushed before it and popped after it. -/
def normalizeWith (pointer : Pointer) : Node → Except NormalError (Json × Pointer)
  | null => .ok (.null, pointer)
  | bool b => .ok (.bool b, pointer)
  | number n => (normalizeNumber pointer n).map fun found => (.number found, pointer)
  | string s => .ok (.string s, pointer)
  | sequence items => (normalizeItemsWith pointer 0 items).map (Prod.map .array id)
  | mapping entries => (normalizeEntriesWith pointer [] entries).map (Prod.map .object id)
  | tagged _ value => normalizeWith pointer value

/-- The items of a sequence, the first of which has the given index. -/
def normalizeItemsWith (pointer : Pointer) (index : Nat) :
    List Node → Except NormalError (List Json × Pointer)
  | [] => .ok ([], pointer)
  | item :: rest =>
    match normalizeWith (pointer.push (toString index)) item with
    | .error e => .error e
    | .ok (value, below) =>
      (normalizeItemsWith below.pop.2 (index + 1) rest).map (Prod.map (value :: ·) id)

/-- The fields of an object, added to those found so far. -/
def normalizeEntriesWith (pointer : Pointer) (found : List (String × Json)) :
    List (Node × Node) → Except NormalError (List (String × Json) × Pointer)
  | [] => .ok (found, pointer)
  | (string key, item) :: rest =>
    match normalizeWith (pointer.push key) item with
    | .error e => .error e
    | .ok (value, below) =>
      normalizeEntriesWith below.pop.2 (Fields.insert key value found) rest
  | (key, _) :: _ => .error (.nonStringKey pointer key.describe)

end

/-- The document that a value stands for. -/
def normalize (value : Node) : Except NormalError Json :=
  (value.normalizeWith .root).map Prod.fst

end Yaml.Node

end Shipment
