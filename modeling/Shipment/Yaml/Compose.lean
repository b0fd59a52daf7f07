import Shipment.Yaml.Document
import Shipment.Yaml.Resolve

/-!
# Composing values

A document's pieces become its value.  Aliases are followed to the node they
name, which is composed again; how deep collections are nested and how often
aliases are followed is limited, so every document is either a finite value or
refused.  A fault about a value is placed at the innermost node it concerns.
-/

namespace Shipment.Yaml

namespace Compose

/-- What is left of the pieces and how often aliases were followed. -/
structure Rest where
  pieces : List (Piece × Mark)
  jumps : Nat

/-- The name of a document's own tag, one that starts with an exclamation mark. -/
def localTag? (tag : Option TagText) : Option String :=
  match tag with
  | some ⟨'!' :: rest, true⟩ => some (if rest.isEmpty then "!" else String.ofList rest)
  | _ => none

/-- The tag of the node at the front of the pieces. -/
def frontTag? : Piece → Option String
  | .scalar tag _ _ => localTag? tag
  | .sequenceStart tag => localTag? tag
  | .mappingStart tag => localTag? tag
  | _ => none

/-- What a document's value is expected to be. -/
def anyValue : String := "any YAML value"

/-- The value of a scalar's meaning. -/
def ofMeaning : Meaning → Except Mismatch Node
  | .null => .ok .null
  | .bool b => .ok (.bool b)
  | .integer n => .ok (.number (.integer n))
  | .wideUnsigned n => .error (.wrongType (.wideInteger n "u128") anyValue)
  | .wideSigned n => .error (.wrongType (.wideInteger n "i128") anyValue)
  | .float x => .ok (.number (.float x))
  | .string text => .ok (.string (String.ofList text))

def scalar (bare : Bool) (tag : Option TagText) (text : List Char) (style : ScalarStyle) :
    Except Mismatch Node :=
  match meaning bare tag text style with
  | .ok m => ofMeaning m
  | .error kind => .error (.wrongValue (.string (String.ofList text)) kind.noun)

mutual

/-- Composes the node at the front of the pieces.  `bare` says that its own tag
has been taken off already. -/
def value (doc : Document) : Nat → Nat → Path → Bool → Rest → Except LoadFault (Node × Rest)
  | 0, _, _, _, _ => .error doc.ending
  | fuel + 1, depth, path, bare, rest =>
    match rest.pieces with
    | [] => .error doc.ending
    | (piece, mark) :: more =>
      match bare, frontTag? piece with
      | false, some tag =>
        match value doc fuel depth path true rest with
        | .error e => .error e
        | .ok (node, rest) => .ok (.tagged tag node, rest)
      | _, _ =>
        match piece with
        | .aliasTo number =>
          if doc.aliasLimit < rest.jumps + 1 then .error .tooManyAliases
          else
            match value doc fuel depth (.throughAlias path) false
                ⟨doc.target number, rest.jumps + 1⟩ with
            | .error e => .error e
            | .ok (node, after) => .ok (node, ⟨more, after.jumps⟩)
        | .scalar tag text style =>
          match scalar bare tag text style with
          | .error reason => .error (.mismatch reason path mark)
          | .ok node => .ok (node, ⟨more, rest.jumps⟩)
        | .sequenceStart _ =>
          match depth with
          | 0 => .error (.tooDeep mark)
          | depth + 1 => items doc fuel depth path 0 [] ⟨more, rest.jumps⟩
        | .mappingStart _ =>
          match depth with
          | 0 => .error (.tooDeep mark)
          | depth + 1 => entries doc fuel depth path mark [] ⟨more, rest.jumps⟩
        | .void => .ok (.null, ⟨more, rest.jumps⟩)
        | .sequenceEnd => .error doc.ending
        | .mappingEnd => .error doc.ending

/-- Composes the items of a sequence; `found` holds those read so far, last first. -/
def items (doc : Document) :
    Nat → Nat → Path → Nat → List Node → Rest → Except LoadFault (Node × Rest)
  | 0, _, _, _, _, _ => .error doc.ending
  | fuel + 1, depth, path, index, found, rest =>
    match rest.pieces with
    | [] => .error doc.ending
    | (.sequenceEnd, _) :: more => .ok (.sequence found.reverse, ⟨more, rest.jumps⟩)
    | _ =>
      match value doc fuel depth (.item path index) false rest with
      | .error e => .error e
      | .ok (node, rest) => items doc fuel depth path (index + 1) (node :: found) rest

/-- Composes the entries of a mapping that starts at `start`; two equal keys
are a fault of the mapping. -/
def entries (doc : Document) :
    Nat → Nat → Path → Mark → List (Node × Node) → Rest → Except LoadFault (Node × Rest)
  | 0, _, _, _, _, _ => .error doc.ending
  | fuel + 1, depth, path, start, found, rest =>
    match rest.pieces with
    | [] => .error doc.ending
    | (.mappingEnd, _) :: more => .ok (.mapping found.reverse, ⟨more, rest.jumps⟩)
    | (piece, _) :: _ =>
      match value doc fuel depth path false rest with
      | .error e => .error e
      | .ok (key, rest) =>
        match Node.lookup? key found with
        | some (earlier, _) => .error (.duplicateEntry earlier path start)
        | none =>
          match value doc fuel depth (piece.valuePath path) false rest with
          | .error e => .error e
          | .ok (node, rest) => entries doc fuel depth path start ((key, node) :: found) rest

end

end Compose

/-- More rounds than composing a document can take. -/
def Document.fuel (doc : Document) : Nat :=
  140 * (2 * doc.pieces.length + 8)

/-- The value of a document. -/
def Document.value (doc : Document) : Except LoadFault Node :=
  match Compose.value doc doc.fuel nestingLimit .root false ⟨doc.pieces, 0⟩ with
  | .error e => .error e
  | .ok (node, _) =>
    match doc.failure with
    | some e => .error e
    | none => .ok node

end Shipment.Yaml
