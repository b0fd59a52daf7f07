import Shipment.Yaml.Document

/-!
# Merge keys

The key `<<` of a mapping holds a mapping, or a list of mappings, whose entries
are added to those the mapping has itself.  An entry of the mapping's own wins
over a merged one, and an earlier mapping of the list over a later one.  The
last entry takes the place of the merge key, and merged entries come at the end.

Each mapping is merged once, from the outside in and the last value first.  A
merge key that merging itself brings in stays a key like any other.
-/

namespace Shipment.Yaml.Merge

def mergeKey : Node := .string "<<"

/-- Takes out the first entry with a property and moves the last entry into its place. -/
def swapRemove {α : Type} (p : α → Bool) (entries : List α) : Option (α × List α) :=
  match entries.span (!p ·) with
  | (_, []) => none
  | (before, entry :: after) =>
    match after.getLast? with
    | none => some (entry, before)
    | some last => some (entry, before ++ last :: after.dropLast)

/-- Adds an entry at the end, unless its key is there already. -/
def addEntry (entries : List (Node × Node)) (entry : Node × Node) : List (Node × Node) :=
  if (Node.lookup? entry.1 entries).isSome then entries else entries ++ [entry]

def addEntries (entries more : List (Node × Node)) : List (Node × Node) :=
  more.foldl addEntry entries

/-- Adds the entries of each mapping of a list. -/
def addItems (entries : List (Node × Node)) : List Node → Except MergeFault (List (Node × Node))
  | [] => .ok entries
  | .mapping more :: rest => addItems (addEntries entries more) rest
  | .sequence _ :: _ => .error .sequenceInList
  | .tagged _ _ :: _ => .error .tagged
  | _ :: _ => .error .scalarInList

/-- The entries of a mapping with its merge key resolved. -/
def mergeEntries (entries : List (Node × Node)) : Except MergeFault (List (Node × Node)) :=
  match swapRemove (fun entry => entry.1.same mergeKey) entries with
  | none => .ok entries
  | some ((_, .mapping more), rest) => .ok (addEntries rest more)
  | some ((_, .sequence items), rest) => addItems rest items
  | some ((_, .tagged _ _), _) => .error .tagged
  | some _ => .error .scalar

/-- Maps a list from its last element to its first. -/
def mapFromLast {α β ε : Type} (f : α → Except ε β) : List α → Except ε (List β)
  | [] => .ok []
  | a :: rest =>
    match mapFromLast f rest with
    | .error e => .error e
    | .ok more =>
      match f a with
      | .error e => .error e
      | .ok b => .ok (b :: more)

/-- Resolves the merge keys of a value, down to `fuel` levels. -/
def resolveFrom : Nat → Node → Except MergeFault Node
  | 0, node => .ok node
  | fuel + 1, node =>
    match node with
    | .mapping entries =>
      match mergeEntries entries with
      | .error e => .error e
      | .ok merged =>
        (mapFromLast (fun entry => (resolveFrom fuel entry.2).map (entry.1, ·)) merged).map .mapping
    | .sequence items => (mapFromLast (resolveFrom fuel) items).map .sequence
    | .tagged tag value => (resolveFrom fuel value).map (.tagged tag)
    | node => .ok node

/-- Resolves the merge keys of a value at every depth. -/
def resolve (node : Node) : Except MergeFault Node :=
  resolveFrom node.depth node

end Shipment.Yaml.Merge
