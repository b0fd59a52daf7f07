import Shipment.Json.Fault
import Shipment.Number.Reading

/-!
# Numbers in JSON text

A number without a point and an exponent is an integer if it fits in sixty-four
bits.  Any other is a double: its leading digits, as many as fit in sixty-four
bits, are rounded to a double first, which is then scaled by a power of ten and
rounded again.  A number beyond the doubles is refused; one below them is zero.
-/

namespace Shipment

namespace Binary64

/-- The power of ten, rounded. -/
def tenTo (n : Nat) : Binary64 :=
  ofDecimal false 1 n

/-- The largest power of ten that a double can hold. -/
def tenLimit : Nat := 308

/-- Divides by `10 ^ n`, in steps of the largest power of ten. -/
def scaleDown (x : Binary64) (n : Nat) : Binary64 :=
  if n ≤ tenLimit then x.div (tenTo n)
  else if x.isZero then x
  else scaleDown (x.div (tenTo tenLimit)) (n - tenLimit)
termination_by n
decreasing_by
  simp only [tenLimit] at *
  omega

/-- Multiplies by `10 ^ n`, if the product is finite. -/
def scaleUp? (x : Binary64) (n : Nat) : Option Binary64 :=
  if x.isZero then some x
  else if tenLimit < n then none
  else
    let y := x.mul (tenTo n)
    if y.isFinite then some y else none

/-- The double for `digits * 10 ^ e`, rounded before and after the scaling. -/
def ofParts? (digits : Nat) (e : Int) : Option Binary64 :=
  if e < 0 then some ((ofNat digits).scaleDown e.natAbs) else (ofNat digits).scaleUp? e.toNat

end Binary64

namespace Json

/-- The largest exponent that is read digit by digit. -/
def exponentLimit : Nat := 2147483647

def digitValue (c : Char) : Nat :=
  c.toNat - 0x30

def startsWithDigit : List Char → Bool
  | c :: _ => Digits.isDigit c
  | [] => false

/-- Takes digits into `digits` as long as it fits in sixty-four bits: the new
digits, how many were taken, and what is left. -/
def takeDigits (digits taken : Nat) : List Char → Nat × Nat × List Char
  | [] => (digits, taken, [])
  | c :: rest =>
    if Digits.isDigit c && digits * 10 + digitValue c < Digits.wordCount then
      takeDigits (digits * 10 + digitValue c) (taken + 1) rest
    else (digits, taken, c :: rest)

/-- The double of a sign, digits and a power of ten. -/
def finishFloat (negative : Bool) (digits : Nat) (e : Int) (rest : List Char) : Scan Number :=
  match Binary64.ofParts? digits e with
  | some x => .ok (.float (if negative then x.neg else x), rest)
  | none => .error (.before .numberOutOfRange rest)

/-- Reads more digits of an exponent: its value and what is left, or what is
left after the digit that makes it too large. -/
def readExponent (e : Nat) : List Char → Except (List Char) (Nat × List Char)
  | [] => .ok (e, [])
  | c :: rest =>
    if !Digits.isDigit c then .ok (e, c :: rest)
    else if exponentLimit < e * 10 + digitValue c then .error rest
    else readExponent (e * 10 + digitValue c) rest

/-- Takes a sign: whether it is a minus, and what is left. -/
def takeSign : List Char → Bool × List Char
  | '+' :: rest => (false, rest)
  | '-' :: rest => (true, rest)
  | rest => (false, rest)

/-- Reads the exponent after its letter. -/
def exponentPart (negative : Bool) (digits : Nat) (start : Int) (text : List Char) :
    Scan Number :=
  let (down, text) := takeSign text
  match text with
  | [] => .error (.before .endInValue [])
  | c :: rest =>
    if !Digits.isDigit c then .error (.on .badNumber (c :: rest))
    else
      match readExponent 0 (c :: rest) with
      | .ok (e, rest) => finishFloat negative digits (if down then start - e else start + e) rest
      | .error rest =>
        if digits != 0 && !down then .error (.before .numberOutOfRange rest)
        else finishFloat negative 0 0 (rest.dropWhile Digits.isDigit)

/-- Reads what may follow the digits of a fraction. -/
def afterFraction (negative : Bool) (digits : Nat) (e : Int) : List Char → Scan Number
  | 'e' :: rest => exponentPart negative digits e rest
  | 'E' :: rest => exponentPart negative digits e rest
  | rest => finishFloat negative digits e rest

/-- Reads the digits after a point.  Those that do not fit are passed over. -/
def fractionPart (negative : Bool) (digits : Nat) (start : Int) (text : List Char) :
    Scan Number :=
  let (digits, taken, rest) := takeDigits digits 0 text
  if startsWithDigit text then
    afterFraction negative digits (start - taken) (rest.dropWhile Digits.isDigit)
  else if text.isEmpty then .error (.on .endInValue text)
  else .error (.on .badNumber text)

/-- The number of a sign and digits without point and exponent. -/
def finishInteger (negative : Bool) (digits : Nat) : Number :=
  if !negative then .ofUInt64 (.ofNat digits)
  else if digits = 0 ∨ Digits.negativeCount < digits then .float (Binary64.ofNat digits).neg
  else .ofInt64 (.ofInt (-(digits : Int)))

/-- Reads what may follow the digits of a whole number, of which `extra` did not fit. -/
def afterWhole (negative : Bool) (digits extra : Nat) : List Char → Scan Number
  | '.' :: rest => fractionPart negative digits extra rest
  | 'e' :: rest => exponentPart negative digits extra rest
  | 'E' :: rest => exponentPart negative digits extra rest
  | rest =>
    if extra = 0 then .ok (finishInteger negative digits, rest)
    else finishFloat negative digits extra rest

/-- Reads a number after its sign. -/
def numeral (negative : Bool) : List Char → Scan Number
  | [] => .error (.before .endInValue [])
  | c :: rest =>
    if !Digits.isDigit c then .error (.on .badNumber (c :: rest))
    else if c = '0' then
      if startsWithDigit rest then .error (.on .badNumber rest)
      else afterWhole negative 0 0 rest
    else
      let (digits, _, rest) := takeDigits 0 0 (c :: rest)
      let extra := rest.takeWhile Digits.isDigit
      afterWhole negative digits extra.length (rest.dropWhile Digits.isDigit)

/-- Passes over the exponent after its letter. -/
def skipExponent (text : List Char) : Except Stop (List Char) :=
  let (_, text) := takeSign text
  if startsWithDigit text then .ok (text.dropWhile Digits.isDigit)
  else .error (.on .badNumber text)

def skipAfterFraction : List Char → Except Stop (List Char)
  | 'e' :: rest => skipExponent rest
  | 'E' :: rest => skipExponent rest
  | rest => .ok rest

def skipAfterWhole : List Char → Except Stop (List Char)
  | '.' :: rest =>
    if startsWithDigit rest then skipAfterFraction (rest.dropWhile Digits.isDigit)
    else .error (.on .badNumber rest)
  | rest => skipAfterFraction rest

/-- Passes over a number after its sign, whatever its size. -/
def skipNumeral : List Char → Except Stop (List Char)
  | [] => .error (.before .badNumber [])
  | c :: rest =>
    if !Digits.isDigit c then .error (.on .badNumber (c :: rest))
    else if c = '0' then
      if startsWithDigit rest then .error (.on .badNumber rest) else skipAfterWhole rest
    else skipAfterWhole (rest.dropWhile Digits.isDigit)

end Json

end Shipment
