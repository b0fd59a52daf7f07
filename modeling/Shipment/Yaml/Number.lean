import Shipment.Number.Basic

/-!
# Numbers of a YAML value

A YAML value has the integers of a document, and of the doubles all, infinity and
not-a-number too.  A number gives the word or the double that a caller asks for, if
it has one: an integer has the words that can hold it, and the nearest double.
-/

namespace Shipment.Yaml

inductive Number where
  | integer (n : Integer64)
  | float (x : Binary64)
  deriving DecidableEq

namespace Number

/-- Equality of numbers as mapping keys. -/
def same : Number → Number → Bool
  | integer m, integer n => m == n
  | float x, float y => x.same y
  | _, _ => false

def isFinite : Number → Bool
  | integer _ => true
  | float x => x.isFinite

def asInt64? : Number → Option Int64
  | integer n => n.asInt64?
  | float _ => none

def asUInt64? : Number → Option UInt64
  | integer n => n.asUInt64?
  | float _ => none

def asBinary64? : Number → Option Binary64
  | integer n => some n.toBinary64
  | float x => some x

end Number

end Shipment.Yaml
