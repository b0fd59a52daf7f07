/-!
# Texts and bytes

A text is written in bytes as UTF-8, and bytes are read back as a text whatever they
are: where no character begins, one replacement character is read for as many bytes as
could have begun one, and for one byte at least.
-/

namespace Shipment.Text

/-- The UTF-8 bytes of a text. -/
def bytes (s : String) : List UInt8 :=
  s.toByteArray.data.toList

/-- The character that is read where there is none. -/
def replacement : Char := '\uFFFD'

/-- The character whose bytes stand in front. -/
def frontChar? (front : List UInt8) : Option Char :=
  (front.take 4).toByteArray.utf8DecodeChar? 0

def isContinuation (b : UInt8) : Bool :=
  0x80 ≤ b && b ≤ 0xBF

/-- Whether a byte begins a character of three or four bytes that the next one goes on with. -/
def opens (first second : UInt8) : Bool :=
  0xE0 ≤ first && first ≤ 0xF4 &&
    (if first = 0xE0 then 0xA0 else if first = 0xF0 then 0x90 else 0x80) ≤ second &&
    second ≤ if first = 0xED then 0x9F else if first = 0xF4 then 0x8F else 0xBF

/-- How many bytes could have begun a character, but at least one. -/
def faultLength : List UInt8 → Nat
  | first :: second :: rest =>
    if !opens first second then 1
    else if 0xF0 ≤ first && rest.head?.any isContinuation then 3
    else 2
  | _ => 1

/-- The characters of bytes, the first `passed` of which have been read already. -/
def charsFrom (passed : Nat) : List UInt8 → List Char
  | [] => []
  | b :: rest =>
    match passed with
    | passed + 1 => charsFrom passed rest
    | 0 =>
      match frontChar? (b :: rest) with
      | some c => c :: charsFrom (c.utf8Size - 1) rest
      | none => replacement :: charsFrom (faultLength (b :: rest) - 1) rest

/-- The text that bytes are read as. -/
def ofBytes (bytes : List UInt8) : String :=
  String.ofList (charsFrom 0 bytes)

end Shipment.Text
