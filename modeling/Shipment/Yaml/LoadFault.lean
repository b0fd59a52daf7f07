import Shipment.Yaml.Document

/-!
# Wording of load faults

A fault about a value names the location of the value before what is wrong and
its position after it; a location at the top of the document is left out, and so
is a position at the start of the text.
-/

namespace Shipment.Yaml

namespace MergeFault

def message : MergeFault → String
  | scalar => "expected a mapping or list of mappings for merging, but found scalar"
  | scalarInList => "expected a mapping for merging, but found scalar"
  | sequenceInList => "expected a mapping for merging, but found sequence"
  | tagged => "unexpected tagged value in merge"

end MergeFault

/-- The text of a number in a message. -/
def numberText : Number → List Char
  | .integer n => Number.integerText n.toInt
  | .float x =>
    if x.isNaN then ".nan".toList
    else if x.isFinite then FloatNotation.yaml.render x
    else if x.negative then "-.inf".toList
    else ".inf".toList

/-- A key that a mapping has twice. -/
def duplicateText : Node → String
  | .null => "duplicate entry with null key"
  | .bool b => "duplicate entry with key `" ++ (if b then "true" else "false") ++ "`"
  | .number n => "duplicate entry with key " ++ String.ofList (numberText n)
  | .string s => "duplicate entry with key " ++ Text.quoted s
  | _ => "duplicate entry in YAML map"

namespace LoadFault

/-- A reason at a location and a position. -/
def located (reason : String) (path : Path) (mark : Mark) : String :=
  let place := path.text
  (if place = "." then reason else place ++ ": " ++ reason) ++ mark.suffix

def message : LoadFault → String
  | syntaxFault fault => fault.message
  | unknownAnchor mark => "unknown anchor" ++ mark.suffix
  | tooDeep mark => "recursion limit exceeded" ++ mark.suffix
  | tooManyAliases => "repetition limit exceeded"
  | noValue => "EOF while parsing a value"
  | severalDocuments =>
    "deserializing from YAML containing more than one document is not supported"
  | mismatch reason path mark => located (reason.message .yaml) path mark
  | duplicateEntry key path mark => located (duplicateText key) path mark
  | merge fault => fault.message

/-- Where a fault is, if it has a place. -/
def mark? : LoadFault → Option Mark
  | syntaxFault fault => some fault.mark
  | unknownAnchor mark => some mark
  | tooDeep mark => some mark
  | mismatch _ _ mark => some mark
  | duplicateEntry _ _ mark => some mark
  | _ => none

end LoadFault

end Shipment.Yaml
