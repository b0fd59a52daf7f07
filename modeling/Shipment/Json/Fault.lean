import Shipment.Mismatch
import Shipment.Text.Blank

/-!
# Faults in JSON text

Why a text cannot be read as JSON, and where.  While a text is read, a fault
knows only what was left of it; the line and the column come from how much of
the whole text that is.  Columns count bytes.
-/

namespace Shipment

namespace Json

inductive Fault where
  | endInList
  | endInObject
  | endInString
  | endInValue
  | noColon
  | noListSeparator
  | noObjectSeparator
  | unknownWord
  | noValue
  | badEscape
  | badNumber
  | numberOutOfRange
  | controlCharacter
  | keyNotString
  /-- A surrogate escape that is not the first half of a pair. -/
  | loneSurrogate
  | trailingComma
  | trailingCharacters
  /-- A surrogate escape without an escape behind it. -/
  | brokenSurrogate
  | tooDeep
  /-- The value is JSON but has not the shape that is needed. -/
  | mismatch (reason : Mismatch)
  deriving DecidableEq

/-- What kind of failure a fault is. -/
inductive FaultCategory where
  /-- The text ends too early. -/
  | ending
  /-- The text is no JSON. -/
  | grammar
  /-- The value has the wrong shape. -/
  | shape
  deriving DecidableEq, Repr

namespace Fault

def category : Fault → FaultCategory
  | endInList | endInObject | endInString | endInValue => .ending
  | mismatch _ => .shape
  | _ => .grammar

def text : Fault → String
  | endInList => "EOF while parsing a list"
  | endInObject => "EOF while parsing an object"
  | endInString => "EOF while parsing a string"
  | endInValue => "EOF while parsing a value"
  | noColon => "expected `:`"
  | noListSeparator => "expected `,` or `]`"
  | noObjectSeparator => "expected `,` or `\x7d`"
  | unknownWord => "expected ident"
  | noValue => "expected value"
  | badEscape => "invalid escape"
  | badNumber => "invalid number"
  | numberOutOfRange => "number out of range"
  | controlCharacter => "control character (\\u0000-\\u001F) found while parsing a string"
  | keyNotString => "key must be a string"
  | loneSurrogate => "lone leading surrogate in hex escape"
  | trailingComma => "trailing comma"
  | trailingCharacters => "trailing characters"
  | brokenSurrogate => "unexpected end of hex escape"
  | tooDeep => "recursion limit exceeded"
  | mismatch reason => reason.message .json

end Fault

/-- A fault with what was left of the text and how many bytes of that count as
read, as far as there are so many. -/
structure Stop where
  fault : Fault
  rest : List Char
  beyond : Nat
  deriving DecidableEq

/-- A fault in front of what is left. -/
def Stop.before (fault : Fault) (rest : List Char) : Stop := ⟨fault, rest, 0⟩

/-- A fault on the first byte of what is left. -/
def Stop.on (fault : Fault) (rest : List Char) : Stop := ⟨fault, rest, 1⟩

/-- What a reader finds at the front of a text, and what is left. -/
abbrev Scan (α : Type) := Except Stop (α × List Char)

/-- A fault with its line, from one, and the bytes of that line in front of it. -/
structure ReadError where
  fault : Fault
  line : Nat
  column : Nat
  deriving DecidableEq

/-- Line and column after a number of bytes. -/
def positionFrom (line column : Nat) : Nat → List Char → Nat × Nat
  | _, [] => (line, column)
  | bytes, c :: rest =>
    if bytes < c.utf8Size then (line, column + bytes)
    else if c = '\n' then positionFrom (line + 1) 0 (bytes - 1) rest
    else positionFrom line (column + c.utf8Size) (bytes - c.utf8Size) rest

/-- The fault at its place in the whole text. -/
def Stop.locate (stop : Stop) (text : List Char) : ReadError :=
  let bytes := Text.byteLength text - Text.byteLength stop.rest + stop.beyond
  let (line, column) := positionFrom 1 0 bytes text
  ⟨stop.fault, line, column⟩

def ReadError.message (e : ReadError) : String :=
  e.fault.text ++ " at line " ++ toString e.line ++ " column " ++ toString e.column

end Json

end Shipment
