import Shipment.Yaml.Fault

/-!
# Reading characters

A cursor is the text that is left with the position it starts at.  Positions
count bytes, and a carriage return with the line feed after it is one line break
of two bytes.
-/

namespace Shipment.Yaml

def isSpaceOrTab (c : Char) : Bool :=
  c == ' ' || c == '\t'

/-- The characters that end a line: line feed, carriage return, next line, and
the line and paragraph separators. -/
def isBreak (c : Char) : Bool :=
  c == '\n' || c == '\r' || c == '\u0085' || c == '\u2028' || c == '\u2029'

/-- A space, a tab or the end of a line. -/
def isGap (c : Char) : Bool :=
  isSpaceOrTab c || isBreak c

/-- The characters of anchor names and tag handles. -/
def isWordChar (c : Char) : Bool :=
  ('0' ≤ c && c ≤ '9') || ('A' ≤ c && c ≤ 'Z') || ('a' ≤ c && c ≤ 'z') || c == '_' || c == '-'

structure Cursor where
  rest : List Char
  mark : Mark
  deriving Inhabited

namespace Cursor

def ofText (text : List Char) : Cursor :=
  ⟨text, .start⟩

def peek (c : Cursor) : Option Char :=
  c.rest.head?

def peekAt (c : Cursor) (n : Nat) : Option Char :=
  c.rest[n]?

/-- Whether the next character is `expected`. -/
def sees (c : Cursor) (expected : Char) : Bool :=
  c.peek == some expected

/-- Whether the `n`-th character is a space, a tab or a break, or the text has ended there. -/
def gapAt (c : Cursor) (n : Nat) : Bool :=
  (c.peekAt n).all isGap

def breakOrEnd (c : Cursor) : Bool :=
  c.peek.all isBreak

/-- Passes over `n` characters of one line. -/
def skip (c : Cursor) (n : Nat) : Cursor :=
  ⟨c.rest.drop n, c.mark.forward (c.rest.take n)⟩

def skipWhile (p : Char → Bool) (c : Cursor) : Cursor :=
  c.skip (c.rest.takeWhile p).length

/-- The longest run of characters with a property, and the cursor after it. -/
def takeWhile (p : Char → Bool) (c : Cursor) : List Char × Cursor :=
  let run := c.rest.takeWhile p
  (run, c.skip run.length)

/-- Passes over a line break, if there is one, and gives what it stands for in
a scalar: a line feed, except that the two separators stand for themselves. -/
def takeBreak (c : Cursor) : List Char × Cursor :=
  match c.rest with
  | '\r' :: '\n' :: rest => (['\n'], ⟨rest, c.mark.nextLine 2⟩)
  | b :: rest =>
    if b = '\u2028' ∨ b = '\u2029' then ([b], ⟨rest, c.mark.nextLine b.utf8Size⟩)
    else if isBreak b then (['\n'], ⟨rest, c.mark.nextLine b.utf8Size⟩)
    else ([], c)
  | [] => ([], c)

def skipBreak (c : Cursor) : Cursor :=
  c.takeBreak.2

/-- Whether the line starts with three of the character, for a document marker. -/
def seesMarker (c : Cursor) (sign : Char) : Bool :=
  c.mark.column == 0 && c.rest.take 3 == [sign, sign, sign] && c.gapAt 3

/-- A marker of the start or the end of a document. -/
def seesDocumentMarker (c : Cursor) : Bool :=
  c.seesMarker '-' || c.seesMarker '.'

/-- A fault at the cursor. -/
def fault {α : Type} (c : Cursor) (construct : Construct) (start : Mark) (problem : Problem) :
    Except Fault α :=
  .error ⟨problem, c.mark, some (construct, start)⟩

/-- A fault at the cursor that names no construct. -/
def bareFault {α : Type} (c : Cursor) (problem : Problem) : Except Fault α :=
  .error ⟨problem, c.mark, none⟩

end Cursor

end Shipment.Yaml
