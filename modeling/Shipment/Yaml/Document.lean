import Shipment.Yaml.Grammar
import Shipment.Yaml.Node
import Shipment.Mismatch

/-!
# Documents

A text holds documents, and each is read on its own: its anchors are not known
to the others, and a fault in a later one leaves it alone.  Anchors are numbered
by how many names the document has so far, so a name that is used again takes a
new number and the next new name takes that number over; an alias means the last
node that got its number.
-/

namespace Shipment.Yaml

/-- A location in a document as messages name it. -/
inductive Path where
  | root
  | item (parent : Path) (index : Nat)
  | entry (parent : Path) (key : String)
  | throughAlias (parent : Path)
  /-- The value of a key that is no scalar. -/
  | unnamed (parent : Path)

namespace Path

def text : Path → String
  | root => "."
  | item parent index => parent.text ++ "[" ++ toString index ++ "]"
  | entry root key => key
  | entry parent key => parent.text ++ "." ++ key
  | throughAlias parent => parent.text
  | unnamed root => "?"
  | unnamed parent => parent.text ++ ".?"

end Path

inductive MergeFault where
  | scalar
  | scalarInList
  | sequenceInList
  | tagged
  deriving DecidableEq, Repr

/-- Why a document cannot be read. -/
inductive LoadFault where
  | syntaxFault (fault : Fault)
  | unknownAnchor (mark : Mark)
  /-- Collections are nested too deeply at this one. -/
  | tooDeep (mark : Mark)
  /-- Aliases are followed too often. -/
  | tooManyAliases
  /-- The text ends where a value should be. -/
  | noValue
  | severalDocuments
  | mismatch (reason : Mismatch) (path : Path) (mark : Mark)
  /-- The mapping here has a key that equals this one of its own. -/
  | duplicateEntry (key : Node) (path : Path) (mark : Mark)
  | merge (fault : MergeFault)

/-- One event of a document, with its anchor resolved. -/
inductive Piece where
  /-- The node that has this number. -/
  | aliasTo (number : Nat)
  | scalar (tag : Option TagText) (text : List Char) (style : ScalarStyle)
  | sequenceStart (tag : Option TagText)
  | sequenceEnd
  | mappingStart (tag : Option TagText)
  | mappingEnd
  /-- The whole of a text without documents. -/
  | void
  deriving DecidableEq, Repr

/-- The path of the value of a key, named by the key if that is a scalar of its own. -/
def Piece.valuePath (path : Path) : Piece → Path
  | scalar _ text _ => .entry path (String.ofList text)
  | _ => .unnamed path

structure Document where
  pieces : List (Piece × Mark)
  /-- Where the numbered nodes start, the last definition of a number first. -/
  anchors : List (Nat × Nat)
  /-- What follows the pieces if the document is cut short. -/
  failure : Option LoadFault

namespace Document

/-- A document that is being collected: its pieces, last first, and its anchor
names with their numbers. -/
structure Draft where
  pieces : List (Piece × Mark)
  count : Nat
  names : List (List Char × Nat)
  anchors : List (Nat × Nat)

def Draft.empty : Draft := ⟨[], 0, [], []⟩

def Draft.add (d : Draft) (piece : Piece) (mark : Mark) : Draft :=
  { d with pieces := (piece, mark) :: d.pieces, count := d.count + 1 }

/-- Gives the next piece a name. -/
def Draft.define (d : Draft) : Option (List Char) → Draft
  | none => d
  | some name =>
    let number := d.names.length
    { d with
      names := (name, number) :: d.names.filter (·.1 != name)
      anchors := (number, d.count) :: d.anchors }

def Draft.close (d : Draft) (failure : Option LoadFault) : Document :=
  ⟨d.pieces.reverse, d.anchors, failure⟩

/-- Collects documents from events.  `first` says that no document has ended. -/
def collect (fault : Option Fault) (first : Bool) (d : Draft) :
    List (Event × Mark) → List Document
  | [] =>
    match fault with
    | some f => [d.close (some (.syntaxFault f))]
    | none => if first then [(d.add .void .start).close none] else []
  | (event, mark) :: rest =>
    match event with
    | .documentStart => collect fault first d rest
    | .documentEnd => d.close none :: collect fault false .empty rest
    | .aliasTo name =>
      match d.names.find? (·.1 == name) with
      | some (_, number) => collect fault first (d.add (.aliasTo number) mark) rest
      | none => [d.close (some (.unknownAnchor mark))]
    | .scalar anchor tag text style =>
      collect fault first ((d.define anchor).add (.scalar tag text style) mark) rest
    | .sequenceStart anchor tag =>
      collect fault first ((d.define anchor).add (.sequenceStart tag) mark) rest
    | .sequenceEnd => collect fault first (d.add .sequenceEnd mark) rest
    | .mappingStart anchor tag =>
      collect fault first ((d.define anchor).add (.mappingStart tag) mark) rest
    | .mappingEnd => collect fault first (d.add .mappingEnd mark) rest

/-- The pieces from the node with a number on. -/
def target (doc : Document) (number : Nat) : List (Piece × Mark) :=
  match doc.anchors.find? (·.1 == number) with
  | some (_, position) => doc.pieces.drop position
  | none => []

/-- What stands where the pieces have run out. -/
def ending (doc : Document) : LoadFault :=
  doc.failure.getD .noValue

/-- How often aliases may be followed in all. -/
def aliasLimit (doc : Document) : Nat :=
  doc.pieces.length * 100

end Document

/-- How deep collections may be nested. -/
def nestingLimit : Nat := 128

/-- The documents of a text, the last of them cut short if there is a fault. -/
def documents (text : List Char) : List Document :=
  let (found, fault) := events text
  Document.collect fault true .empty found

end Shipment.Yaml
