import Shipment.Fields
import Shipment.Number.Basic

/-!
# JSON values

The value model of compiled documents and of server answers.  An object has its
fields in increasing order of their keys, which for strings of code points is also
the order of the UTF-8 bytes.
-/

namespace Shipment

inductive Json where
  | null
  | bool (b : Bool)
  | number (n : Number)
  | string (s : String)
  | array (items : List Json)
  | object (fields : List (String × Json))
  deriving Inhabited

namespace Json

def string? : Json → Option String
  | string s => some s
  | _ => none

def fields? : Json → Option (List (String × Json))
  | object fields => some fields
  | _ => none

/-- The value of a key of an object. -/
def field? (key : String) : Json → Option Json
  | object fields => Fields.get? key fields
  | _ => none

/-- The text under a key of an object. -/
def stringField? (key : String) (value : Json) : Option String :=
  (value.field? key).bind string?

end Json

end Shipment
