import Shipment.Number.Basic
import Shipment.Text.Quoted

/-!
# Values of the wrong shape

Options and server answers are read into records, and a value that does not fit
is refused with what was found and what was expected.  The two formats name the
empty value and write floats in their own ways.
-/

namespace Shipment

/-- A value as a message names it. -/
inductive Unexpected where
  | unit
  | bool (b : Bool)
  | integer (n : Int)
  /-- An integer of a width that no document holds, with that width. -/
  | wideInteger (n : Int) (width : String)
  | float (x : Binary64)
  | string (s : String)
  | sequence
  | map
  deriving DecidableEq

/-- How a format names values. -/
structure ValueNames where
  unit : String
  float : FloatNotation

namespace ValueNames

def yaml : ValueNames := ⟨"unit value", .plain⟩

def json : ValueNames := ⟨"null", .json⟩

end ValueNames

/-- The text of a float in a message; infinity and not-a-number have a point too. -/
def ValueNames.floatText (names : ValueNames) (x : Binary64) : List Char :=
  if x.isNaN then "NaN.0".toList
  else if x.isFinite then names.float.render x
  else if x.negative then "-inf.0".toList
  else "inf.0".toList

def Unexpected.text (names : ValueNames) : Unexpected → String
  | unit => names.unit
  | bool b => "boolean `" ++ (if b then "true" else "false") ++ "`"
  | integer n => "integer `" ++ String.ofList (Number.integerText n) ++ "`"
  | wideInteger n width =>
    "integer `" ++ String.ofList (Number.integerText n) ++ "` as " ++ width
  | float x => "floating point `" ++ String.ofList (names.floatText x) ++ "`"
  | string s => "string " ++ Text.quoted s
  | sequence => "sequence"
  | map => "map"

inductive Mismatch where
  | wrongType (found : Unexpected) (expected : String)
  | wrongValue (found : Unexpected) (expected : String)
  | wrongLength (length : Nat) (expected : String)
  | unknownField (name : String) (known : List String)
  | duplicateField (name : String)
  | missingField (name : String)
  deriving DecidableEq

namespace Mismatch

/-- Field names between grave accents, with commas. -/
def fieldList (names : List String) : String :=
  String.intercalate ", " (names.map fun name => "`" ++ name ++ "`")

def message (names : ValueNames) : Mismatch → String
  | wrongType found expected =>
    "invalid type: " ++ found.text names ++ ", expected " ++ expected
  | wrongValue found expected =>
    "invalid value: " ++ found.text names ++ ", expected " ++ expected
  | wrongLength length expected =>
    "invalid length " ++ toString length ++ ", expected " ++ expected
  | unknownField name known =>
    "unknown field `" ++ name ++ "`, expected one of " ++ fieldList known
  | duplicateField name => "duplicate field `" ++ name ++ "`"
  | missingField name => "missing field `" ++ name ++ "`"

end Mismatch

end Shipment
