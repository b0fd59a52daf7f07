import Shipment.Yaml.ScalarText

/-!
# The tokens of a text

Most tokens are seen from their first character.  A mapping key is not: it is
known only from the colon after it, so every place where a key may start is
remembered, and the tokens that open the key are put in there when the colon
comes.  Such a key must be on one line and short.

A text with a fault has tokens up to it.  While a key is pending its token and
those after it are held back, so the fault stands before them.
-/

namespace Shipment.Yaml

/-- A place where a simple key may have started. -/
structure PendingKey where
  /-- Whether the place can be nothing but a key. -/
  required : Bool
  /-- How many tokens are before it. -/
  index : Nat
  mark : Mark
  deriving DecidableEq

/-- The longest simple key, in bytes. -/
def PendingKey.longest : Nat := 1024

/-- Whether a key that started at `k` can still have its colon at `m`. -/
def PendingKey.alive (k : PendingKey) (m : Mark) : Bool :=
  k.mark.line == m.line && m.index ≤ k.mark.index + longest

structure Scanner where
  cursor : Cursor
  /-- The indentation of the innermost block collection. -/
  indent : Option Nat
  /-- Those of the collections around it. -/
  outer : List (Option Nat)
  /-- The pending key of each open bracket, the innermost first, and of the block level. -/
  keys : List (Option PendingKey)
  /-- Whether a simple key may start here. -/
  keyAllowed : Bool
  /-- The tokens so far, the last first. -/
  tokens : List Token
  count : Nat
  ended : Bool

namespace Scanner

def mark (s : Scanner) : Mark :=
  s.cursor.mark

/-- How many brackets are open. -/
def flowLevel (s : Scanner) : Nat :=
  s.keys.length - 1

def inFlow (s : Scanner) : Bool :=
  s.flowLevel != 0

/-- At the start of a text, with the token that opens the stream. -/
def ofText (text : List Char) : Scanner :=
  ⟨.ofText text, none, [], [none], true, [⟨.streamStart, .start, .start⟩], 1, false⟩

def emit (s : Scanner) (token : Token) : Scanner :=
  { s with tokens := token :: s.tokens, count := s.count + 1 }

/-- Puts a token before those from `index` on. -/
def emitAt (s : Scanner) (index : Nat) (token : Token) : Scanner :=
  let after := s.count - index
  { s with
    tokens := s.tokens.take after ++ token :: s.tokens.drop after
    count := s.count + 1 }

/-- Passes over `n` characters and makes them a token. -/
def emitSigns (s : Scanner) (kind : TokenKind) (n : Nat) : Scanner :=
  let after := s.cursor.skip n
  { s.emit ⟨kind, s.mark, after.mark⟩ with cursor := after }

def noColon {α : Type} (s : Scanner) (key : PendingKey) : Except Fault α :=
  s.cursor.fault .simpleKey key.mark .noColon

/-- Gives up the keys that can have no colon any more. -/
def dropStale (s : Scanner) : Except Fault Scanner :=
  let isStale (key : PendingKey) : Bool := !key.alive s.mark
  match s.keys.reverse.filterMap id |>.find? fun key => isStale key && key.required with
  | some key => s.noColon key
  | none => .ok { s with keys := s.keys.map fun slot => slot.filter (!isStale ·) }

/-- Gives up the pending key of the innermost bracket. -/
def dropKey (s : Scanner) : Except Fault Scanner :=
  match s.keys with
  | some key :: rest =>
    if key.required then s.noColon key else .ok { s with keys := none :: rest }
  | _ => .ok s

/-- Remembers that a key may start at the cursor. -/
def saveKey (s : Scanner) : Except Fault Scanner :=
  if s.keyAllowed then do
    let s ← s.dropKey
    let required := !s.inFlow && s.indent == some s.mark.column
    .ok { s with keys := some ⟨required, s.count, s.mark⟩ :: s.keys.drop 1 }
  else .ok s

/-- Closes the block collections that are indented more than `column`. -/
def closeBlocks (column : Option Nat) (s : Scanner) : List (Option Nat) → Scanner
  | [] => { s with outer := [] }
  | next :: rest =>
    let deeper := match s.indent, column with
      | some i, some c => decide (c < i)
      | some _, none => true
      | none, _ => false
    if deeper then
      closeBlocks column { s.emit ⟨.blockEnd, s.mark, s.mark⟩ with indent := next } rest
    else { s with outer := next :: rest }

/-- Closes block collections, unless a bracket is open. -/
def unroll (s : Scanner) (column : Option Nat) : Scanner :=
  if s.inFlow then s else s.closeBlocks column s.outer

/-- Opens a block collection at a column further in, with its token at `index`. -/
def roll (s : Scanner) (column index : Nat) (kind : TokenKind) (mark : Mark) : Scanner :=
  if !s.inFlow && s.indent.all (· < column) then
    let s := s.emitAt index ⟨kind, mark, mark⟩
    { s with indent := some column, outer := s.indent :: s.outer }
  else s

/-- Passes over blanks, comments and line breaks.  A tab is a blank only where
no simple key may start. -/
def skipGap : Nat → Scanner → Scanner
  | 0, s => s
  | fuel + 1, s =>
    let c := s.cursor
    let c := if c.mark.column == 0 && c.sees '\ufeff' then c.skip 1 else c
    let tabs := s.inFlow || !s.keyAllowed
    let c := c.skipWhile fun x => x == ' ' || (tabs && x == '\t')
    let c := if c.sees '#' then c.skipWhile (!isBreak ·) else c
    if c.peek.any isBreak then
      skipGap fuel
        { s with cursor := c.skipBreak, keyAllowed := s.keyAllowed || !s.inFlow }
    else { s with cursor := c }

def fetchEnd (s : Scanner) : Except Fault Scanner := do
  let m := s.mark
  let m := if m.column = 0 then m else ⟨m.index, m.line + 1, 0⟩
  let s := { s with cursor := ⟨s.cursor.rest, m⟩ }
  let s ← (s.unroll none).dropKey
  .ok { s.emit ⟨.streamEnd, m, m⟩ with keyAllowed := false, ended := true }

def fetchDirective (s : Scanner) : Except Fault Scanner := do
  let s ← (s.unroll none).dropKey
  let (token, after) ← Lexeme.directive s.cursor
  .ok { s.emit token with cursor := after, keyAllowed := false }

def fetchMarker (s : Scanner) (kind : TokenKind) : Except Fault Scanner := do
  let s ← (s.unroll none).dropKey
  .ok { s.emitSigns kind 3 with keyAllowed := false }

def fetchOpen (s : Scanner) (kind : TokenKind) : Except Fault Scanner := do
  let s ← s.saveKey
  .ok { s.emitSigns kind 1 with keys := none :: s.keys, keyAllowed := true }

def fetchClose (s : Scanner) (kind : TokenKind) : Except Fault Scanner := do
  let s ← s.dropKey
  let keys := match s.keys with
    | _ :: outer :: rest => outer :: rest
    | keys => keys
  .ok { s.emitSigns kind 1 with keys := keys, keyAllowed := false }

def fetchFlowEntry (s : Scanner) : Except Fault Scanner := do
  let s ← s.dropKey
  .ok { s.emitSigns .flowEntry 1 with keyAllowed := true }

def fetchBlockEntry (s : Scanner) : Except Fault Scanner := do
  if !s.inFlow && !s.keyAllowed then s.cursor.bareFault .misplacedEntry
  else
    let s ← (s.roll s.mark.column s.count .blockSequenceStart s.mark).dropKey
    .ok { s.emitSigns .blockEntry 1 with keyAllowed := true }

def fetchKey (s : Scanner) : Except Fault Scanner := do
  if !s.inFlow && !s.keyAllowed then s.cursor.bareFault .misplacedKey
  else
    let s ← (s.roll s.mark.column s.count .blockMappingStart s.mark).dropKey
    .ok { s.emitSigns .key 1 with keyAllowed := !s.inFlow }

def fetchValue (s : Scanner) : Except Fault Scanner :=
  match s.keys with
  | some key :: rest =>
    let s := s.emitAt key.index ⟨.key, key.mark, key.mark⟩
    let s := s.roll key.mark.column key.index .blockMappingStart key.mark
    .ok { s.emitSigns .value 1 with keys := none :: rest, keyAllowed := false }
  | _ =>
    if !s.inFlow && !s.keyAllowed then s.cursor.bareFault .misplacedValue
    else
      let s := s.roll s.mark.column s.count .blockMappingStart s.mark
      .ok { s.emitSigns .value 1 with keyAllowed := !s.inFlow }

def fetchAnchor (s : Scanner) (isAlias : Bool) : Except Fault Scanner := do
  let s ← s.saveKey
  let (token, after) ← Lexeme.anchor isAlias s.cursor
  .ok { s.emit token with cursor := after, keyAllowed := false }

def fetchTag (s : Scanner) : Except Fault Scanner := do
  let s ← s.saveKey
  let (token, after) ← Lexeme.tag s.inFlow s.cursor
  .ok { s.emit token with cursor := after, keyAllowed := false }

def fetchBlockScalar (s : Scanner) (literal : Bool) : Except Fault Scanner := do
  let s ← s.dropKey
  let (token, after) ← blockScalar literal s.indent s.cursor
  .ok { s.emit token with cursor := after, keyAllowed := true }

def fetchQuotedScalar (s : Scanner) (single : Bool) : Except Fault Scanner := do
  let s ← s.saveKey
  let (token, after) ← quotedScalar single s.cursor
  .ok { s.emit token with cursor := after, keyAllowed := false }

def fetchPlainScalar (s : Scanner) : Except Fault Scanner := do
  let s ← s.saveKey
  let parent := match s.indent with
    | some i => i + 1
    | none => 0
  let (token, lineEnded, after) ← plainScalar s.inFlow parent s.cursor
  .ok { s.emit token with cursor := after, keyAllowed := lineEnded }

/-- The characters that no plain scalar starts with. -/
def isIndicator (x : Char) : Bool :=
  "-?:,[]\x7b\x7d#&*!|>'\"%@`".toList.contains x

/-- Whether a plain scalar starts at the cursor, where `x` is. -/
def startsPlain (s : Scanner) (x : Char) : Bool :=
  !(isGap x || isIndicator x) ||
    (x == '-' && !(s.cursor.peekAt 1).any isSpaceOrTab) ||
    (!s.inFlow && (x == '?' || x == ':') && !s.cursor.gapAt 1)

/-- Reads the token that starts with `x`. -/
def fetchAt (s : Scanner) (x : Char) : Except Fault Scanner :=
  let c := s.cursor
  let separate := s.inFlow || c.gapAt 1
  if c.mark.column == 0 && x == '%' then s.fetchDirective
  else if c.seesMarker '-' then s.fetchMarker .documentStart
  else if c.seesMarker '.' then s.fetchMarker .documentEnd
  else if x == '[' then s.fetchOpen .flowSequenceStart
  else if x == '\x7b' then s.fetchOpen .flowMappingStart
  else if x == ']' then s.fetchClose .flowSequenceEnd
  else if x == '\x7d' then s.fetchClose .flowMappingEnd
  else if x == ',' then s.fetchFlowEntry
  else if x == '-' && c.gapAt 1 then s.fetchBlockEntry
  else if x == '?' && separate then s.fetchKey
  else if x == ':' && separate then s.fetchValue
  else if x == '*' then s.fetchAnchor true
  else if x == '&' then s.fetchAnchor false
  else if x == '!' then s.fetchTag
  else if x == '|' && !s.inFlow then s.fetchBlockScalar true
  else if x == '>' && !s.inFlow then s.fetchBlockScalar false
  else if x == '\'' then s.fetchQuotedScalar true
  else if x == '"' then s.fetchQuotedScalar false
  else if s.startsPlain x then s.fetchPlainScalar
  else c.fault .nextToken c.mark .noTokenStart

/-- Reads the next token. -/
def fetch (s : Scanner) : Except Fault Scanner := do
  let s ← (skipGap (s.cursor.rest.length + 1) s).dropStale
  let s := s.unroll (some s.mark.column)
  match s.cursor.peek with
  | none => s.fetchEnd
  | some x => s.fetchAt x

/-- How many tokens no pending key holds back. -/
def settled (s : Scanner) : Nat :=
  s.keys.foldl (fun n slot => slot.elim n fun key => min n key.index) s.count

/-- Reads tokens to the end of the text or to its first fault.  `ready` tokens
were settled before the last one was read. -/
def run : Nat → Nat → Scanner → List Token × Option Fault
  | 0, _, s => (s.tokens.reverse, none)
  | fuel + 1, ready, s =>
    match s.dropStale with
    | .error fault => (s.tokens.reverse.take ready, some fault)
    | .ok s =>
      let ready := s.settled
      match s.fetch with
      | .error fault => (s.tokens.reverse.take ready, some fault)
      | .ok next => if next.ended then (next.tokens.reverse, none) else run fuel ready next

end Scanner

/-- The characters that a text may hold besides control characters, which it may not. -/
def isAllowed (c : Char) : Bool :=
  let n := c.toNat
  n == 0x09 || n == 0x0A || n == 0x0D || (0x20 ≤ n && n ≤ 0x7E) || n == 0x85 ||
    (0xA0 ≤ n && n ≤ 0xD7FF) || (0xE000 ≤ n && n ≤ 0xFFFD) || 0x10000 ≤ n

/-- The tokens of a text, and the fault that ends them early.  A text with a
character that is not allowed has no tokens at all. -/
def tokens (text : List Char) : List Token × Option Fault :=
  match text.dropWhile isAllowed with
  | [] => Scanner.run (text.length + 2) 1 (.ofText text)
  | _ :: _ =>
    let offset := Text.byteLength (text.takeWhile isAllowed)
    ([], some ⟨.controlCharacter offset, .start, none⟩)

end Shipment.Yaml
