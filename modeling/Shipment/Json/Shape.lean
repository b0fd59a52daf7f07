import Shipment.Json.Basic
import Shipment.Mismatch

/-!
# Shapes of JSON values

A record is read from a value that has its shape.  A value of another type is
refused by naming what was found and what was expected.
-/

namespace Shipment.Json

/-- A value as a message names it. -/
def unexpected : Json → Unexpected
  | null => .unit
  | bool b => .bool b
  | number (.integer n) => .integer n.toInt
  | number (.float x) => .float x
  | string s => .string s
  | array _ => .sequence
  | object _ => .map

/-- The refusal of a value of the wrong type. -/
def refuse {α : Type} (value : Json) (expected : String) : Except Mismatch α :=
  .error (.wrongType value.unexpected expected)

/-- The text of a string value. -/
def toText : Json → Except Mismatch String
  | string s => .ok s
  | value => value.refuse "a string"

/-- The text under a key, if the key is there. -/
def textField (key : String) (fields : List (String × Json)) : Except Mismatch (Option String) :=
  match Fields.get? key fields with
  | none => .ok none
  | some value => value.toText.map some

end Shipment.Json
