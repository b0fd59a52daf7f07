import Shipment.Yaml.Number

/-!
# YAML values

The value of a document before it becomes JSON: any value may be a mapping key,
a mapping keeps the order of its entries, and a value may carry a tag.  A tag is
kept without its leading exclamation mark, unless it is that mark alone.
-/

namespace Shipment.Yaml

inductive Node where
  | null
  | bool (b : Bool)
  | number (n : Number)
  | string (s : String)
  | sequence (items : List Node)
  | mapping (entries : List (Node × Node))
  | tagged (tag : String) (value : Node)
  deriving Inhabited

namespace Node

/-- A tag by its name: one exclamation mark in front makes no difference. -/
def tagName (tag : String) : String :=
  match tag.toList with
  | '!' :: rest => if rest.isEmpty then tag else String.ofList rest
  | _ => tag

/-- A tag as it is written. -/
def tagText (name : String) : String :=
  "!" ++ name

mutual

/-- Equality of values as mapping keys.  Mappings are equal with their entries
in any order. -/
def same : Node → Node → Bool
  | null, null => true
  | bool b, bool c => b == c
  | number m, number n => m.same n
  | string s, string t => s == t
  | sequence items, sequence others => sameItems items others
  | mapping entries, mapping others =>
    entries.length == others.length && sameEntries entries others
  | tagged tag value, tagged other value' => tag == other && same value value'
  | _, _ => false

def sameItems : List Node → List Node → Bool
  | [], [] => true
  | item :: items, other :: others => same item other && sameItems items others
  | _, _ => false

/-- Whether each entry has an equal one among the others. -/
def sameEntries : List (Node × Node) → List (Node × Node) → Bool
  | [], _ => true
  | (key, value) :: entries, others =>
    others.any (fun other => same key other.1 && same value other.2) &&
      sameEntries entries others

end

/-- The value of a key among the entries of a mapping. -/
def lookup? (key : Node) (entries : List (Node × Node)) : Option (Node × Node) :=
  entries.find? fun entry => entry.1.same key

mutual

/-- How deep a value is nested; a scalar is at depth one. -/
def depth : Node → Nat
  | sequence items => itemsDepth items + 1
  | mapping entries => entriesDepth entries + 1
  | tagged _ value => depth value + 1
  | _ => 1

def itemsDepth : List Node → Nat
  | [] => 0
  | item :: items => max (depth item) (itemsDepth items)

/-- Keys count as well as values. -/
def entriesDepth : List (Node × Node) → Nat
  | [] => 0
  | (key, value) :: entries => max (max (depth key) (depth value)) (entriesDepth entries)

end

end Node

end Shipment.Yaml
