/-!
# Glob patterns

A glob is a list of pieces that match one after another.  This module has the
pieces and reads them from text: `**`, `*` and `?` are wildcards, a class in
brackets lists characters and ranges, braces hold alternatives separated by
commas, a backslash makes the next character literal, and every other character
stands for itself.  Commas and closing braces are special only inside braces.
-/

namespace Shipment

/-- A member of a class: the characters from `low` to `high`. -/
structure CharRange where
  low : Char
  high : Char
  deriving DecidableEq, Repr

inductive Glob where
  /-- One character, itself. -/
  | literal (c : Char)
  /-- Any run of characters, written `**`. -/
  | anyRun
  /-- Any run of characters without a slash, written `*`. -/
  | nameRun
  /-- One character other than a slash, written `?`. -/
  | nameChar
  /-- One character of a class, written `[...]`; a negated class has no slash either. -/
  | oneOf (negated : Bool) (ranges : List CharRange)
  /-- One of several globs, written `{..,..}`. -/
  | choice (alternatives : List (List Glob))
  deriving Inhabited

inductive GlobError where
  | trailingEscape
  | unclosedClass
  | unclosedBrace
  | invalidRange (low high : Char)
  /-- The braces of the pattern are nested too deeply to be matched. -/
  | tooDeep
  deriving DecidableEq, Repr

namespace GlobError

/-- The wording of an error; a pattern that is too deep has none. -/
def message? : GlobError → Option String
  | trailingEscape => some "trailing escape character"
  | unclosedClass => some "unclosed '['"
  | unclosedBrace => some "unclosed '\x7b'"
  | invalidRange low high =>
    some ("invalid range '" ++ String.ofList [low, '-', high] ++ "'")
  | tooDeep => none

end GlobError

namespace Glob

/-- An open brace: the pieces before it and the alternatives closed so far, each
list with the last first. -/
structure OpenChoice where
  before : List Glob
  closed : List (List Glob)

/-- Adds the range `low-high` to the members of a class.  A closing bracket in
the place of `high` makes the dash a member and closes the class, which the
flag of the result says. -/
def addRange (found : List CharRange) (low high : Char) :
    Except GlobError (Bool × List CharRange) :=
  if high = ']' then .ok (true, ⟨'-', '-'⟩ :: ⟨low, low⟩ :: found)
  else if high < low then .error (.invalidRange low high)
  else .ok (false, ⟨low, high⟩ :: found)

mutual

/-- Reads pieces to the end of the text.  `stack` holds the open braces and
`pieces` what was read since the innermost of them, last first. -/
def readPieces (stack : List OpenChoice) (pieces : List Glob) :
    List Char → Except GlobError (List Glob)
  | [] => if stack.isEmpty then .ok pieces.reverse else .error .unclosedBrace
  | ['\\'] => .error .trailingEscape
  | '\\' :: c :: rest => readPieces stack (.literal c :: pieces) rest
  | '*' :: '*' :: rest => readPieces stack (.anyRun :: pieces) rest
  | '*' :: rest => readPieces stack (.nameRun :: pieces) rest
  | '?' :: rest => readPieces stack (.nameChar :: pieces) rest
  | '[' :: '!' :: rest => readMembers stack pieces true [] rest
  | '[' :: '^' :: rest => readMembers stack pieces true [] rest
  | '[' :: rest => readMembers stack pieces false [] rest
  | '\x7b' :: rest => readPieces (⟨pieces, []⟩ :: stack) [] rest
  | ',' :: rest =>
    match stack with
    | [] => readPieces [] (.literal ',' :: pieces) rest
    | top :: outer => readPieces (⟨top.before, pieces.reverse :: top.closed⟩ :: outer) [] rest
  | '\x7d' :: rest =>
    match stack with
    | [] => readPieces [] (.literal '\x7d' :: pieces) rest
    | top :: outer =>
      readPieces outer (.choice (pieces.reverse :: top.closed).reverse :: top.before) rest
  | c :: rest => readPieces stack (.literal c :: pieces) rest

/-- Reads the members of a class and then the pieces after it.  `found` holds
the members read so far, last first.  A closing bracket before the first member
does not close the class, and the end of a range is taken as it stands, a
backslash included. -/
def readMembers (stack : List OpenChoice) (pieces : List Glob) (negated : Bool)
    (found : List CharRange) : List Char → Except GlobError (List Glob)
  | [] => .error .unclosedClass
  | ['\\'] => .error .unclosedClass
  | '\\' :: c :: '-' :: high :: rest =>
    match addRange found c high with
    | .error e => .error e
    | .ok (true, found) => readPieces stack (.oneOf negated found.reverse :: pieces) rest
    | .ok (false, found) => readMembers stack pieces negated found rest
  | '\\' :: c :: rest => readMembers stack pieces negated (⟨c, c⟩ :: found) rest
  | ']' :: rest =>
    if found.isEmpty then .error .unclosedClass
    else readPieces stack (.oneOf negated found.reverse :: pieces) rest
  | c :: '-' :: high :: rest =>
    match addRange found c high with
    | .error e => .error e
    | .ok (true, found) => readPieces stack (.oneOf negated found.reverse :: pieces) rest
    | .ok (false, found) => readMembers stack pieces negated found rest
  | c :: rest => readMembers stack pieces negated (⟨c, c⟩ :: found) rest

end

/-- The pieces that a text denotes. -/
def read (text : List Char) : Except GlobError (List Glob) :=
  readPieces [] [] text

mutual

/-- How many constructs of the matcher a piece nests. -/
def depth : Glob → Nat
  | literal _ => 0
  | anyRun => 1
  | nameRun => 2
  | nameChar => 1
  | oneOf false [_] => 1
  | oneOf _ _ => 2
  | choice [pieces] => 1 + sequenceDepth pieces
  | choice alternatives => 2 + choiceDepth alternatives

/-- A sequence of one piece adds no construct of its own. -/
def sequenceDepth : List Glob → Nat
  | [] => 0
  | [piece] => depth piece
  | piece :: rest => 1 + max (depth piece) (maxDepth rest)

def maxDepth : List Glob → Nat
  | [] => 0
  | piece :: rest => max (depth piece) (maxDepth rest)

def choiceDepth : List (List Glob) → Nat
  | [] => 0
  | pieces :: rest => max (sequenceDepth pieces) (choiceDepth rest)

end

/-- The deepest nesting a pattern may have, the pattern itself counted. -/
def depthLimit : Nat := 250

end Glob

end Shipment
