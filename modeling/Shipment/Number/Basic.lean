import Shipment.Number.Integer64
import Shipment.Number.Notation

/-!
# Numbers of a document

A document keeps integers and floats apart: an integer is exact, and a float is
never turned into an integer even where their values agree.  An integer is made
from a word, and a float from a finite double.
-/

namespace Shipment

inductive Number where
  | integer (n : Integer64)
  | float (x : Binary64)
  deriving DecidableEq

namespace Number

def ofInt64 (n : Int64) : Number :=
  integer (.ofInt64 n)

def ofUInt64 (n : UInt64) : Number :=
  integer (.unsigned n)

/-- Infinity and not-a-number are no numbers of a document. -/
def ofBinary64? (x : Binary64) : Option Number :=
  if x.isFinite then some (float x) else none

def isFinite : Number → Bool
  | integer _ => true
  | float x => x.isFinite

/-- The decimal digits of an integer, with a minus sign below zero. -/
def integerText (n : Int) : List Char :=
  if n < 0 then '-' :: Nat.toDigits 10 n.natAbs else Nat.toDigits 10 n.natAbs

end Number

end Shipment
