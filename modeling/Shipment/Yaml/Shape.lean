import Shipment.Yaml.Document
import Shipment.Yaml.Resolve

/-!
# Shapes of YAML values

A record of texts and lists of texts is read from the pieces of a document.
Where a text is needed any scalar will do, and its characters count as they are
written; where a list is needed an empty plain scalar is the empty list.  Tags
make no difference, and an alias stands for the node it names.
-/

namespace Shipment.Yaml

/-- A scalar's meaning as a message names it. -/
def Meaning.unexpected : Meaning → Unexpected
  | null => .unit
  | bool b => .bool b
  | integer n => .integer n.toInt
  | wideUnsigned n => .wideInteger n "u128"
  | wideSigned n => .wideInteger n "i128"
  | float x => .float x
  | string text => .string (String.ofList text)

namespace Piece

/-- Whether a piece stands for an empty collection. -/
def isEmpty : Piece → Bool
  | scalar _ text style => text.isEmpty && style == .plain
  | void => true
  | _ => false

/-- Why a node that starts with this piece is not what is expected. -/
def mismatch? (expected : String) : Piece → Option Mismatch
  | scalar tag text style =>
    match meaning false tag text style with
    | .ok m => some (.wrongType m.unexpected expected)
    | .error kind => some (.wrongValue (.string (String.ofList text)) kind.noun)
  | sequenceStart _ => some (.wrongType .sequence expected)
  | mappingStart _ => some (.wrongType .map expected)
  | _ => none

end Piece

namespace Document

/-- The fault of a node that is not what is expected at a location. -/
def refuse {α : Type} (doc : Document) (expected : String) (path : Path) (piece : Piece)
    (mark : Mark) : Except LoadFault α :=
  match piece.mismatch? expected with
  | some reason => .error (.mismatch reason path mark)
  | none => .error doc.ending

/-- The characters of a scalar. -/
def scalarText (doc : Document) (expected : String) (path : Path) (piece : Piece) (mark : Mark) :
    Except LoadFault String :=
  match piece with
  | .scalar _ text _ => .ok (String.ofList text)
  | _ => doc.refuse expected path piece mark

/-- The text that one piece stands for. -/
def textOf (doc : Document) (expected : String) (path : Path) (piece : Piece) (mark : Mark) :
    Except LoadFault String :=
  match piece with
  | .aliasTo number =>
    match doc.target number with
    | [] => .error doc.ending
    | (piece, mark) :: _ => doc.scalarText expected (.throughAlias path) piece mark
  | _ => doc.scalarText expected path piece mark

/-- Where the node stands that a piece stands for. -/
def placeOf (doc : Document) (piece : Piece) (mark : Mark) : Mark :=
  match piece with
  | .aliasTo number =>
    match doc.target number with
    | [] => mark
    | (_, mark) :: _ => mark
  | _ => mark

/-- Reads the texts of a list up to its end; the first of them has the given index. -/
def readTexts (doc : Document) (path : Path) (index : Nat) :
    List (Piece × Mark) → Except LoadFault (List String × List (Piece × Mark))
  | [] => .error doc.ending
  | (piece, mark) :: rest =>
    if piece = .sequenceEnd then .ok ([], rest)
    else
      match doc.textOf "a string" (.item path index) piece mark with
      | .error e => .error e
      | .ok text =>
        (doc.readTexts path (index + 1) rest).map fun found => (text :: found.1, found.2)

/-- Reads a list of texts that is no alias. -/
def readList (doc : Document) (path : Path) :
    List (Piece × Mark) → Except LoadFault (List String × List (Piece × Mark))
  | [] => .error doc.ending
  | (piece, mark) :: rest =>
    match piece with
    | .sequenceStart _ => doc.readTexts path 0 rest
    | _ => if piece.isEmpty then .ok ([], rest) else doc.refuse "a sequence" path piece mark

/-- Reads a list of texts at a location. -/
def neededList (doc : Document) (path : Path) :
    List (Piece × Mark) → Except LoadFault (List String × List (Piece × Mark))
  | (.aliasTo number, _) :: rest =>
    (doc.readList (.throughAlias path) (doc.target number)).map fun found => (found.1, rest)
  | pieces => doc.readList path pieces

/-- Reads a text at a location. -/
def neededText (doc : Document) (path : Path) :
    List (Piece × Mark) → Except LoadFault (String × List (Piece × Mark))
  | [] => .error doc.ending
  | (piece, mark) :: rest => (doc.textOf "a string" path piece mark).map (·, rest)

end Document

end Shipment.Yaml
