import Shipment.Text.Blank
import Shipment.Text.Quoted

/-!
# Pointers

A pointer names a location inside a document by the keys and indexes on the way
there.  In text every segment follows a slash, and inside a segment a tilde is
written `~0` and a slash `~1`, so a segment may be any text and the text of a
pointer gives its segments back.
-/

namespace Shipment

structure Pointer where
  segments : List String
  deriving DecidableEq, Repr, Inhabited

inductive PointerError where
  /-- The text is not empty and starts with something other than a slash. -/
  | missingLeadingSlash (text : String)
  /-- A tilde at this byte is followed by neither `0` nor `1`. -/
  | invalidEscape (text : String) (offset : Nat)
  deriving DecidableEq, Repr

def PointerError.message : PointerError → String
  | missingLeadingSlash text => "pointer " ++ Text.quoted text ++ " does not start with '/'"
  | invalidEscape text offset =>
    "pointer " ++ Text.quoted text ++ " contains an invalid escape sequence at byte " ++
      toString offset

namespace Pointer

def root : Pointer := ⟨[]⟩

def isRoot (p : Pointer) : Bool :=
  p.segments.isEmpty

def push (p : Pointer) (segment : String) : Pointer :=
  ⟨p.segments ++ [segment]⟩

/-- The pointer without its last segment, and that segment. -/
def pop (p : Pointer) : Option String × Pointer :=
  (p.segments.getLast?, ⟨p.segments.dropLast⟩)

/-- The pointer made of the segments after the first `n`. -/
def skip (p : Pointer) (n : Nat) : Pointer :=
  ⟨p.segments.drop n⟩

def append (p q : Pointer) : Pointer :=
  ⟨p.segments ++ q.segments⟩

/-- One character of a segment as it is written. -/
def escapedChar (c : Char) : List Char :=
  if c = '~' then ['~', '0'] else if c = '/' then ['~', '1'] else [c]

def escape (segment : List Char) : List Char :=
  segment.flatMap escapedChar

/-- The text of a pointer: each segment after a slash. -/
def textOf (segments : List String) : List Char :=
  segments.flatMap fun segment => '/' :: escape segment.toList

def text (p : Pointer) : String :=
  String.ofList (textOf p.segments)

/-- The text without the leading slash. -/
def relative (p : Pointer) : String :=
  String.ofList ((textOf p.segments).drop 1)

/-- Reads the text after the first slash.  `current` holds the characters of
the segment being read, last first, and `offset` the bytes read so far; the
result is the segments or the offset of the first bad tilde. -/
def readFrom (offset : Nat) (current : List Char) : List Char → Except Nat (List String)
  | [] => .ok [String.ofList current.reverse]
  | '~' :: '0' :: rest => readFrom (offset + 2) ('~' :: current) rest
  | '~' :: '1' :: rest => readFrom (offset + 2) ('/' :: current) rest
  | c :: rest =>
    if c = '~' then .error offset
    else if c = '/' then
      (readFrom (offset + 1) [] rest).map (String.ofList current.reverse :: ·)
    else readFrom (offset + c.utf8Size) (c :: current) rest

/-- Reads a pointer.  The empty text is the root. -/
def parse (input : String) : Except PointerError Pointer :=
  match input.toList with
  | [] => .ok root
  | c :: rest =>
    if c = '/' then
      match readFrom 1 [] rest with
      | .ok segments => .ok ⟨segments⟩
      | .error offset => .error (.invalidEscape input offset)
    else .error (.missingLeadingSlash input)

end Pointer

end Shipment
