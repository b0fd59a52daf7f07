import Shipment.Yaml.Token

/-!
# Events

A text of YAML as a flat list: where documents, sequences and mappings start
and end, and the scalars and aliases between.  Missing keys and values are
events too, as empty plain scalars, and shorthand tags are spelled out.
-/

namespace Shipment.Yaml

inductive Event where
  | documentStart
  | documentEnd
  | aliasTo (name : List Char)
  | scalar (anchor : Option (List Char)) (tag : Option TagText) (text : List Char)
      (style : ScalarStyle)
  | sequenceStart (anchor : Option (List Char)) (tag : Option TagText)
  | sequenceEnd
  | mappingStart (anchor : Option (List Char)) (tag : Option TagText)
  | mappingEnd
  deriving DecidableEq, Repr

end Shipment.Yaml
