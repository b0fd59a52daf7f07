import Shipment.Glob.Pattern

/-!
# Matching globs

A text of `n` characters has `n + 1` positions.  Matching carries one mark for
each position, true where the pieces so far can end, through the pieces from
left to right; the whole text matches when the last position is marked at the
end.  The work is the length of the pattern times the length of the text,
whatever the alternatives are.

`**` stands for any characters but the line feed; a class and the other
wildcards may match a line feed too.
-/

namespace Shipment.Glob

/-- The characters of a class. -/
def inClass (negated : Bool) (ranges : List CharRange) (c : Char) : Bool :=
  let listed := ranges.any fun range => range.low ≤ c && c ≤ range.high
  if negated then c != '/' && !listed else listed

/-- The marks after one character with the property `p`. -/
def stepMarks (p : Char → Bool) (text : List Char) (marks : List Bool) : List Bool :=
  false :: List.zipWith (fun c mark => mark && p c) text marks

/-- The marks after any number of characters with the property `p`.  The flag
says whether a run reaches the current position from the left. -/
def runMarks (p : Char → Bool) (reached : Bool) : List Char → List Bool → List Bool
  | c :: text, mark :: marks =>
    (mark || reached) :: runMarks p ((mark || reached) && p c) text marks
  | [], mark :: _ => [mark || reached]
  | _, [] => []

mutual

/-- The marks after a piece. -/
def advance (text : List Char) (marks : List Bool) : Glob → List Bool
  | literal c => stepMarks (· == c) text marks
  | anyRun => runMarks (· != '\n') false text marks
  | nameRun => runMarks (· != '/') false text marks
  | nameChar => stepMarks (· != '/') text marks
  | oneOf negated ranges => stepMarks (inClass negated ranges) text marks
  | choice alternatives => advanceAny text marks alternatives

/-- The marks after a sequence of pieces. -/
def advanceAll (text : List Char) (marks : List Bool) : List Glob → List Bool
  | [] => marks
  | piece :: rest => advanceAll text (advance text marks piece) rest

/-- The marks after one of several sequences. -/
def advanceAny (text : List Char) (marks : List Bool) : List (List Glob) → List Bool
  | [] => marks.map fun _ => false
  | pieces :: rest =>
    List.zipWith (· || ·) (advanceAll text marks pieces) (advanceAny text marks rest)

end

/-- Only the first position is marked. -/
def startMarks (text : List Char) : List Bool :=
  true :: text.map fun _ => false

/-- Whether the pieces match the whole text. -/
def matchesAll (pieces : List Glob) (text : List Char) : Bool :=
  (advanceAll text (startMarks text) pieces).getLastD false

end Shipment.Glob
