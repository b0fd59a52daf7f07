import Shipment.Yaml.Cursor
import Shipment.Yaml.Token
import Shipment.Yaml.Lexeme

/-!
# Scalar text

The three families of scalars and the text each stands for.  Plain and quoted
scalars fold: blanks at the end of a line are dropped, one line break between
two words becomes a space, and further breaks stay.  A block scalar keeps the
lines below its header by their indentation, and a folded one joins those that
do not start with a blank.

The loops take the number of characters left as their bound, and each round
passes over at least one.
-/

namespace Shipment.Yaml

/-- Blanks and breaks since the last word of a plain or quoted scalar. -/
structure Gap where
  /-- Blanks on the line of the word, last first. -/
  blanks : List Char
  /-- Whether the line has ended. -/
  broken : Bool
  /-- What the first break stands for. -/
  first : List Char
  /-- What the further breaks stand for. -/
  further : List Char

namespace Gap

def none : Gap := ⟨[], false, [], []⟩

/-- After an escaped line break, which stands for nothing. -/
def escapedBreak : Gap := ⟨[], true, [], []⟩

def isNone (g : Gap) : Bool :=
  g.blanks.isEmpty && !g.broken

def addBlank (g : Gap) (c : Char) : Gap :=
  if g.broken then g else { g with blanks := c :: g.blanks }

def addBreak (g : Gap) (b : List Char) : Gap :=
  if g.broken then { g with further := g.further ++ b } else ⟨[], true, b, []⟩

/-- What the gap stands for once another word follows. -/
def text (g : Gap) : List Char :=
  if !g.broken then g.blanks.reverse
  else if g.first == ['\n'] then
    if g.further.isEmpty then [' '] else g.further
  else g.first ++ g.further

end Gap

namespace PlainScalar

/-- The text so far, last character first, the gap after it, and where it ends. -/
structure State where
  text : List Char
  gap : Gap
  stop : Mark

def scan (inFlow : Bool) (indent : Nat) (start : Mark) :
    Nat → State → Cursor → Except Fault (State × Cursor)
  | 0, s, c => .ok (s, c)
  | fuel + 1, s, c =>
    match c.peek with
    | none => .ok (s, c)
    | some x =>
      if isSpaceOrTab x then
        if s.gap.broken && c.mark.column < indent && x == '\t' then
          c.fault .plainScalar start .tabBelowIndentation
        else scan inFlow indent start fuel { s with gap := s.gap.addBlank x } (c.skip 1)
      else if isBreak x then
        let (b, after) := c.takeBreak
        scan inFlow indent start fuel { s with gap := s.gap.addBreak b } after
      else if !s.gap.isNone &&
          ((!inFlow && c.mark.column < indent) || c.seesDocumentMarker || x == '#') then
        .ok (s, c)
      else if inFlow && x == ':' && (c.peekAt 1).any (",?[]\x7b\x7d".toList.contains ·) then
        c.fault .plainScalar start .misplacedColon
      else if (x == ':' && c.gapAt 1) || (inFlow && ",[]\x7b\x7d".toList.contains x) then
        .ok (s, c)
      else
        let after := c.skip 1
        scan inFlow indent start fuel
          ⟨x :: (s.gap.text.reverse ++ s.text), .none, after.mark⟩ after

end PlainScalar

/-- A plain scalar.  The flag says whether a line ended after it. -/
def plainScalar (inFlow : Bool) (indent : Nat) (c : Cursor) :
    Except Fault (Token × Bool × Cursor) := do
  let start := c.mark
  let (s, c) ← PlainScalar.scan inFlow indent start (c.rest.length + 1) ⟨[], .none, start⟩ c
  .ok (⟨.scalar s.text.reverse .plain, start, s.stop⟩, s.gap.broken, c)

namespace QuotedScalar

/-- What a backslash with this character stands for. -/
def shortEscape? : Char → Option Char
  | '0' => some '\x00'
  | 'a' => some '\x07'
  | 'b' => some '\x08'
  | 't' => some '\t'
  | '\t' => some '\t'
  | 'n' => some '\n'
  | 'v' => some '\x0b'
  | 'f' => some '\x0c'
  | 'r' => some '\r'
  | 'e' => some '\x1b'
  | ' ' => some ' '
  | '"' => some '"'
  | '/' => some '/'
  | '\\' => some '\\'
  | 'N' => some '\u0085'
  | '_' => some '\u00a0'
  | 'L' => some '\u2028'
  | 'P' => some '\u2029'
  | _ => none

/-- How many hexadecimal digits follow this character after a backslash. -/
def escapeWidth? : Char → Option Nat
  | 'x' => some 2
  | 'u' => some 4
  | 'U' => some 8
  | _ => none

/-- The number that exactly `n` hexadecimal digits spell. -/
def hexNumber? (n : Nat) (text : List Char) : Option Nat :=
  let digits := (text.take n).filterMap Digits.hexValue?
  if digits.length = n then some (digits.foldl (fun acc d => acc * 16 + d) 0) else none

/-- The character that the escape at the cursor stands for. -/
def escape (start : Mark) (c : Cursor) : Except Fault (Char × Cursor) :=
  match c.peekAt 1 with
  | none => c.fault .quotedEscape start .unknownEscape
  | some x =>
    match shortEscape? x, escapeWidth? x with
    | some y, _ => .ok (y, c.skip 2)
    | none, none => c.fault .quotedEscape start .unknownEscape
    | none, some width =>
      let c := c.skip 2
      match hexNumber? width c.rest with
      | none => c.fault .quotedEscape start .noHexDigit
      | some n =>
        if n.isValidChar then .ok (Char.ofNat n, c.skip width)
        else c.fault .quotedEscape start .badCodePoint

/-- Reads to the closing quote.  `text` is what was read, last character first. -/
def scan (single : Bool) (start : Mark) :
    Nat → List Char → Gap → Cursor → Except Fault (List Char × Cursor)
  | 0, _, _, c => c.fault .quotedScalar start .endOfText
  | fuel + 1, text, gap, c =>
    match c.peek with
    | none => c.fault .quotedScalar start .endOfText
    | some x =>
      let joined := gap.text.reverse ++ text
      if isSpaceOrTab x then scan single start fuel text (gap.addBlank x) (c.skip 1)
      else if isBreak x then
        let (b, after) := c.takeBreak
        scan single start fuel text (gap.addBreak b) after
      else if c.seesDocumentMarker then c.fault .quotedScalar start .documentIndicator
      else if single then
        if x == '\'' then
          if c.peekAt 1 == some '\'' then scan single start fuel ('\'' :: joined) .none (c.skip 2)
          else .ok (joined.reverse, c.skip 1)
        else scan single start fuel (x :: joined) .none (c.skip 1)
      else if x == '"' then .ok (joined.reverse, c.skip 1)
      else if x == '\\' then
        if (c.peekAt 1).any isBreak then
          scan single start fuel joined .escapedBreak (c.skip 1).skipBreak
        else
          match escape start c with
          | .error e => .error e
          | .ok (y, after) => scan single start fuel (y :: joined) .none after
      else scan single start fuel (x :: joined) .none (c.skip 1)

end QuotedScalar

/-- A scalar between quotes of one kind. -/
def quotedScalar (single : Bool) (c : Cursor) : Except Fault (Token × Cursor) := do
  let start := c.mark
  let (text, c) ← QuotedScalar.scan single start (c.rest.length + 1) [] .none (c.skip 1)
  .ok (⟨.scalar text .quoted, start, c.mark⟩, c)

namespace BlockScalar

/-- What happens to the line breaks at the end. -/
inductive Chomping where
  | strip
  | clip
  | keep
  deriving DecidableEq, Repr

/-- A chomping sign at the cursor, if there is one. -/
def chomping? (c : Cursor) : Option Chomping :=
  if c.sees '+' then some .keep else if c.sees '-' then some .strip else none

/-- An indentation digit at the cursor, if there is one. -/
def indentation? (c : Cursor) : Option Nat :=
  c.peek.bind fun d => if '0' ≤ d ∧ d ≤ '9' then some (d.toNat - 0x30) else none

/-- The two optional signs of a header, in either order; no digit is zero. -/
def header (start : Mark) (c : Cursor) : Except Fault (Chomping × Nat × Cursor) :=
  match chomping? c with
  | some chomping =>
    let c := c.skip 1
    match indentation? c with
    | some 0 => c.fault .blockScalar start .zeroIndentation
    | some n => .ok (chomping, n, c.skip 1)
    | none => .ok (chomping, 0, c)
  | none =>
    match indentation? c with
    | some 0 => c.fault .blockScalar start .zeroIndentation
    | some n =>
      let c := c.skip 1
      match chomping? c with
      | some chomping => .ok (chomping, n, c.skip 1)
      | none => .ok (.clip, n, c)
    | none => .ok (.clip, 0, c)

/-- The blank lines at a place in the scalar: their breaks, the indentation of
the widest, where they end, and the cursor at the first character that is not
indentation. -/
structure Blanks where
  breaks : List Char
  widest : Nat
  stop : Mark
  cursor : Cursor

/-- Passes over indentation and blank lines.  An `indent` of zero stands for
any indentation. -/
def skipBlanks (start : Mark) (indent : Nat) : Nat → Blanks → Except Fault Blanks
  | 0, b => .ok b
  | fuel + 1, b =>
    let spaces := (b.cursor.rest.takeWhile (· == ' ')).length
    let n := if indent = 0 then spaces else min spaces (indent - b.cursor.mark.column)
    let c := b.cursor.skip n
    let widest := max b.widest c.mark.column
    if (indent = 0 || c.mark.column < indent) && c.sees '\t' then
      c.fault .blockScalar start .tabInIndentation
    else if c.peek.any isBreak then
      let (text, after) := c.takeBreak
      skipBlanks start indent fuel ⟨b.breaks ++ text, widest, after.mark, after⟩
    else .ok { b with widest := widest, cursor := c }

def blanksAt (start : Mark) (indent : Nat) (c : Cursor) : Except Fault Blanks :=
  skipBlanks start indent (c.rest.length + 1) ⟨[], 0, c.mark, c⟩

/-- The text so far, last character first, the break after its last line, and
whether that line starts with a blank. -/
structure State where
  text : List Char
  lineBreak : List Char
  startsBlank : Bool

/-- Reads the lines of a scalar, each after the blank lines before it. -/
def scan (literal : Bool) (start : Mark) (indent : Nat) :
    Nat → State → Blanks → Except Fault (State × Blanks)
  | 0, s, b => .ok (s, b)
  | fuel + 1, s, b =>
    let c := b.cursor
    if c.mark.column != indent || c.rest.isEmpty then .ok (s, b)
    else
      let startsBlank := c.peek.any isSpaceOrTab
      let folds := !literal && s.lineBreak == ['\n'] && !s.startsBlank && !startsBlank
      let join :=
        if folds then (if b.breaks.isEmpty then [' '] else []) else s.lineBreak
      let (line, afterLine) := c.takeWhile (!isBreak ·)
      let (lineBreak, after) := afterLine.takeBreak
      let text := line.reverse ++ (b.breaks.reverse ++ (join.reverse ++ s.text))
      match blanksAt start indent after with
      | .error e => .error e
      | .ok b => scan literal start indent fuel ⟨text, lineBreak, startsBlank⟩ b

end BlockScalar

/-- A block scalar.  `parent` is the indentation it stands in, `none` outside
every block collection. -/
def blockScalar (literal : Bool) (parent : Option Nat) (c : Cursor) :
    Except Fault (Token × Cursor) := do
  let start := c.mark
  let (chomping, increment, c) ← BlockScalar.header start (c.skip 1)
  let c := c.skipComment
  if !c.breakOrEnd then c.fault .blockScalar start .noLineEnd
  else
    let given := if increment = 0 then 0 else parent.getD 0 + increment
    let blanks ← BlockScalar.blanksAt start given c.skipBreak
    let least := match parent with
      | some n => n + 1
      | none => 1
    let indent := if given = 0 then max blanks.widest least else given
    let (s, b) ← BlockScalar.scan literal start indent (c.rest.length + 1) ⟨[], [], false⟩ blanks
    let tail := match chomping with
      | .strip => []
      | .clip => s.lineBreak
      | .keep => s.lineBreak ++ b.breaks
    .ok (⟨.scalar (s.text.reverse ++ tail) .block, start, b.stop⟩, b.cursor)

end Shipment.Yaml
