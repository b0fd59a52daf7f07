import Shipment.Yaml.Fault

/-!
# Tokens

The words of YAML: document markers, directives, the brackets and separators
of both styles, and the scalars with their properties.  The start and the end
of a block collection have no character of their own; they are tokens made from
the indentation.
-/

namespace Shipment.Yaml

inductive ScalarStyle where
  | plain
  | quoted
  | block
  deriving DecidableEq, Repr

/-- The text of a tag.  Percent escapes may spell octets that are no character;
such a tag keeps its other characters but is not `sound`. -/
structure TagText where
  chars : List Char
  sound : Bool
  deriving DecidableEq, Repr

inductive TokenKind where
  | streamStart
  | streamEnd
  | versionDirective (major minor : Nat)
  | tagDirective (handle : List Char) (expansion : TagText)
  | documentStart
  | documentEnd
  | blockSequenceStart
  | blockMappingStart
  | blockEnd
  | flowSequenceStart
  | flowSequenceEnd
  | flowMappingStart
  | flowMappingEnd
  | blockEntry
  | flowEntry
  | key
  | value
  | aliasTo (name : List Char)
  | anchor (name : List Char)
  | tag (handle : List Char) (suffix : TagText)
  | scalar (text : List Char) (style : ScalarStyle)
  deriving DecidableEq, Repr

structure Token where
  kind : TokenKind
  start : Mark
  stop : Mark
  deriving DecidableEq, Repr

end Shipment.Yaml
