import Shipment.Number.Binary64

/-!
# Reading digits

Whole numbers in the bases two, eight, ten and sixteen, and decimal fractions
with an optional exponent.  A reader takes the whole text or nothing.
-/

namespace Shipment

namespace Digits

/-- How many numbers sixty-four bits can hold. -/
def wordCount : Nat := 0x10000000000000000

/-- How many of them are negative where a sign takes one of the bits. -/
def negativeCount : Nat := 0x8000000000000000

/-- How many numbers one hundred and twenty-eight bits can hold. -/
def wideCount : Nat := 0x100000000000000000000000000000000

/-- How many of those are negative where a sign takes one of the bits. -/
def wideNegativeCount : Nat := 0x80000000000000000000000000000000

/-- The value of a digit, with letters of either case above nine. -/
def value? (c : Char) : Option Nat :=
  if '0' ≤ c ∧ c ≤ '9' then some (c.toNat - 0x30)
  else if 'a' ≤ c ∧ c ≤ 'z' then some (c.toNat - 0x57)
  else if 'A' ≤ c ∧ c ≤ 'Z' then some (c.toNat - 0x37)
  else none

/-- The value of a hexadecimal digit. -/
def hexValue? (c : Char) : Option Nat :=
  (value? c).filter (· < 16)

def readFrom (base : Nat) (acc : Nat) : List Char → Option Nat
  | [] => some acc
  | c :: rest =>
    match value? c with
    | some d => if d < base then readFrom base (acc * base + d) rest else none
    | none => none

/-- The number that one or more digits of the base spell. -/
def read? (base : Nat) : List Char → Option Nat
  | [] => none
  | text => readFrom base 0 text

/-- Digits with an optional plus sign. -/
def readUnsigned? (base : Nat) : List Char → Option Nat
  | '+' :: text => read? base text
  | text => read? base text

/-- Digits with an optional sign. -/
def readSigned? (base : Nat) : List Char → Option Int
  | '-' :: text => (read? base text).map fun n => -(n : Int)
  | text => (readUnsigned? base text).map fun n => (n : Int)

def isDigit (c : Char) : Bool :=
  '0' ≤ c && c ≤ '9'

end Digits

namespace Binary64

/-- The exponent part of a decimal fraction: nothing, or `e` with a signed number. -/
def readExponent? : List Char → Option Int
  | [] => some 0
  | c :: rest => if c = 'e' ∨ c = 'E' then Digits.readSigned? 10 rest else none

/-- A decimal fraction: digits with at most one point and at least one digit,
then perhaps an exponent. -/
def readUnsignedDecimal? (negative : Bool) (text : List Char) : Option Binary64 :=
  let whole := text.takeWhile Digits.isDigit
  let (fraction, rest) :=
    match text.dropWhile Digits.isDigit with
    | '.' :: more => (more.takeWhile Digits.isDigit, more.dropWhile Digits.isDigit)
    | more => ([], more)
  match Digits.read? 10 (whole ++ fraction), readExponent? rest with
  | some digits, some e => some (ofDecimal negative digits (e - fraction.length))
  | _, _ => none

/-- A decimal fraction with an optional sign. -/
def readDecimal? : List Char → Option Binary64
  | '-' :: text => readUnsignedDecimal? true text
  | '+' :: text => readUnsignedDecimal? false text
  | text => readUnsignedDecimal? false text

end Binary64

end Shipment
