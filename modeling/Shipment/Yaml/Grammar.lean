import Shipment.Yaml.Event
import Shipment.Yaml.Tokens

/-!
# The grammar

Tokens into events.  The grammar is a machine with one state for each place
where a token is expected; a stack holds the places to go on from when a node
ends, and another the starts of the collections that are open.  Text after a
fault is never read, so a fault ends the events.
-/

namespace Shipment.Yaml

namespace Grammar

/-- What is expected next. -/
inductive Place where
  /-- A document; only the first of a text may start without a marker. -/
  | documentStart (first : Bool)
  | documentContent
  | documentEnd
  | blockNode
  | blockSequenceEntry (first : Bool)
  | indentlessEntry
  | blockMappingKey (first : Bool)
  | blockMappingValue
  | flowSequenceEntry (first : Bool)
  /-- The parts of a mapping of one pair inside a flow sequence. -/
  | flowPairKey
  | flowPairValue
  | flowPairEnd
  | flowMappingKey (first : Bool)
  /-- After a key of a flow mapping, or after an entry without a colon. -/
  | flowMappingValue (absent : Bool)
  deriving DecidableEq, Repr

structure Machine where
  tokens : List Token
  /-- What follows the last token. -/
  fault : Fault
  /-- Where to go on after the node that is being read. -/
  resume : List Place
  /-- Where the open collections start. -/
  opened : List Mark
  /-- The tag handles of the document and their texts. -/
  handles : List (List Char × TagText)

/-- An event with its mark, or the end of the text, and what is expected next. -/
structure Outcome where
  event : Option (Event × Mark)
  next : Place
  machine : Machine

namespace Machine

/-- The next token with the machine after it. -/
def pull (m : Machine) : Except Fault (Token × Machine) :=
  match m.tokens with
  | [] => .error m.fault
  | token :: rest => .ok (token, { m with tokens := rest })

/-- The next token, left where it is. -/
def look (m : Machine) : Except Fault Token :=
  match m.tokens with
  | [] => .error m.fault
  | token :: _ => .ok token

/-- Passes over one token. -/
def skip (m : Machine) : Machine :=
  { m with tokens := m.tokens.drop 1 }

def push (m : Machine) (place : Place) : Machine :=
  { m with resume := place :: m.resume }

def opens (m : Machine) (mark : Mark) : Machine :=
  { m with opened := mark :: m.opened }

def closes (m : Machine) : Machine :=
  { m with opened := m.opened.drop 1 }

def emit (m : Machine) (event : Event) (mark : Mark) (next : Place) : Except Fault Outcome :=
  .ok ⟨some (event, mark), next, m⟩

/-- Gives an event that ends a node. -/
def finish (m : Machine) (event : Event) (mark : Mark) : Except Fault Outcome :=
  emit { m with resume := m.resume.drop 1 } event mark (m.resume.headD .documentEnd)

/-- An empty scalar where a node is missing. -/
def missing (m : Machine) (mark : Mark) (next : Place) : Except Fault Outcome :=
  m.emit (.scalar none none [] .plain) mark next

/-- A fault inside the innermost open collection. -/
def faultInside {α : Type} (m : Machine) (construct : Construct) (problem : Problem)
    (mark : Mark) : Except Fault α :=
  .error ⟨problem, mark, some (construct, m.opened.headD .start)⟩

end Machine

/-- An anchor and a tag in front of a node, in either order. -/
structure Properties where
  anchor : Option (List Char)
  tag : Option (List Char × TagText × Mark)
  start : Mark

/-- Reads the properties of a node. -/
def properties (m : Machine) : Except Fault (Properties × Machine) := do
  let first ← m.look
  let start := first.start
  match first.kind with
  | .anchor name =>
    let m := m.skip
    let second ← m.look
    match second.kind with
    | .tag handle text =>
      .ok (⟨some name, some (handle, text, second.start), start⟩, m.skip)
    | _ => .ok (⟨some name, none, start⟩, m)
  | .tag handle text =>
    let m := m.skip
    let second ← m.look
    match second.kind with
    | .anchor name =>
      .ok (⟨some name, some (handle, text, start), start⟩, m.skip)
    | _ => .ok (⟨none, some (handle, text, start), start⟩, m)
  | _ => .ok (⟨none, none, start⟩, m)

/-- The full tag of a node: the text of its handle followed by its own text. -/
def fullTag (m : Machine) (p : Properties) : Except Fault (Option TagText) :=
  match p.tag with
  | none => .ok none
  | some (handle, text, mark) =>
    if handle.isEmpty then .ok (some text)
    else
      match m.handles.find? (·.1 == handle) with
      | some (_, expansion) =>
        .ok (some ⟨expansion.chars ++ text.chars, expansion.sound && text.sound⟩)
      | none => .error ⟨.unknownTagHandle, mark, some (.node, p.start)⟩

/-- Reads a node.  Block collections may start only where `block` allows them,
and a sequence at the indentation of its mapping only where `indentless` does. -/
def node (block indentless : Bool) (m : Machine) : Except Fault Outcome := do
  let first ← m.look
  match first.kind with
  | .aliasTo name => m.skip.finish (.aliasTo name) first.start
  | _ =>
    let (p, m) ← properties m
    let token ← m.look
    let tag ← fullTag m p
    match token.kind with
    | .blockEntry =>
      if indentless then m.emit (.sequenceStart p.anchor tag) p.start .indentlessEntry
      else other m p tag token
    | .scalar text style =>
      m.skip.finish (.scalar p.anchor tag text style) p.start
    | .flowSequenceStart =>
      m.emit (.sequenceStart p.anchor tag) p.start (.flowSequenceEntry true)
    | .flowMappingStart => m.emit (.mappingStart p.anchor tag) p.start (.flowMappingKey true)
    | .blockSequenceStart =>
      if block then m.emit (.sequenceStart p.anchor tag) p.start (.blockSequenceEntry true)
      else other m p tag token
    | .blockMappingStart =>
      if block then m.emit (.mappingStart p.anchor tag) p.start (.blockMappingKey true)
      else other m p tag token
    | _ => other m p tag token
where
  /-- No node follows: with properties it is empty, without it is a fault. -/
  other (m : Machine) (p : Properties) (tag : Option TagText) (token : Token) :
      Except Fault Outcome :=
    if p.anchor.isSome || tag.isSome then m.finish (.scalar p.anchor tag [] .plain) p.start
    else
      .error ⟨.noContent, token.start,
        some (if block then .blockNode else .flowNode, p.start)⟩

/-- The handles of every document that does not define them itself. -/
def defaultHandles : List (List Char × TagText) :=
  [(['!'], ⟨['!'], true⟩), (['!', '!'], ⟨"tag:yaml.org,2002:".toList, true⟩)]

/-- Reads the directives of a document. -/
def directives (versioned : Bool) (handles : List (List Char × TagText)) (fault : Fault) :
    List Token → Except Fault (List (List Char × TagText) × List Token)
  | [] => .error fault
  | token :: rest =>
    match token.kind with
    | .versionDirective major minor =>
      if versioned then .error ⟨.duplicateVersion, token.start, none⟩
      else if major != 1 || (minor != 1 && minor != 2) then
        .error ⟨.wrongVersion, token.start, none⟩
      else directives true handles fault rest
    | .tagDirective handle text =>
      if handles.any (·.1 == handle) then .error ⟨.duplicateTagHandle, token.start, none⟩
      else directives versioned (handles ++ [(handle, text)]) fault rest
    | _ => .ok (handles ++ defaultHandles, token :: rest)

/-- Reads the start of a document or the end of the text. -/
def documentStart (first : Bool) (m : Machine) : Except Fault Outcome := do
  let tokens := if first then m.tokens else m.tokens.dropWhile (·.kind == .documentEnd)
  let m := { m with tokens := tokens }
  let token ← m.look
  match token.kind with
  | .streamEnd => .ok ⟨none, .documentStart false, m⟩
  | kind =>
    let explicit := match kind with
      | .versionDirective _ _ => true
      | .tagDirective _ _ => true
      | .documentStart => true
      | _ => !first
    let (handles, tokens) ← directives false [] m.fault m.tokens
    let m := { m with tokens := tokens, handles := handles }
    if explicit then
      let (marker, m) ← m.pull
      if marker.kind != .documentStart then .error ⟨.noDocumentStart, marker.start, none⟩
      else (m.push .documentEnd).emit .documentStart token.start .documentContent
    else (m.push .documentEnd).emit .documentStart token.start .blockNode

/-- Whether a token is a directive, a marker or the end of the text. -/
def endsDocument : TokenKind → Bool
  | .versionDirective _ _ => true
  | .tagDirective _ _ => true
  | .documentStart => true
  | .documentEnd => true
  | .streamEnd => true
  | _ => false

def documentContent (m : Machine) : Except Fault Outcome := do
  let token ← m.look
  if endsDocument token.kind then m.finish (.scalar none none [] .plain) token.start
  else node true false m

def documentEnd (m : Machine) : Except Fault Outcome := do
  let token ← m.look
  let rest := if token.kind == .documentEnd then m.tokens.drop 1 else m.tokens
  let m := { m with tokens := rest, handles := [] }
  m.emit .documentEnd token.start (.documentStart false)

/-- A node after a block indicator, or nothing before one of the tokens that
end an entry. -/
def blockEntryNode (ends : TokenKind → Bool) (indentless : Bool) (here next : Place)
    (mark : Mark) (m : Machine) : Except Fault Outcome := do
  let token ← m.look
  if ends token.kind then m.missing mark here else node true indentless (m.push next)

def endsSequenceEntry (kind : TokenKind) : Bool :=
  kind == .blockEntry || kind == .blockEnd

def endsIndentlessEntry (kind : TokenKind) : Bool :=
  kind == .blockEntry || kind == .key || kind == .value || kind == .blockEnd

def endsMappingEntry (kind : TokenKind) : Bool :=
  kind == .key || kind == .value || kind == .blockEnd

/-- Drops the token that opens a collection and remembers where it is. -/
def enter (first : Bool) (m : Machine) : Except Fault Machine :=
  if first then do
    let (token, m) ← m.pull
    .ok (m.opens token.start)
  else .ok m

def blockSequenceEntry (first : Bool) (m : Machine) : Except Fault Outcome := do
  let m ← enter first m
  let (token, rest) ← m.pull
  match token.kind with
  | .blockEntry =>
    blockEntryNode endsSequenceEntry false (.blockSequenceEntry false)
      (.blockSequenceEntry false) token.stop rest
  | .blockEnd => rest.closes.finish .sequenceEnd token.start
  | _ => m.faultInside .blockSequence .noDash token.start

def indentlessEntry (m : Machine) : Except Fault Outcome := do
  let (token, rest) ← m.pull
  match token.kind with
  | .blockEntry =>
    blockEntryNode endsIndentlessEntry false .indentlessEntry .indentlessEntry token.stop rest
  | _ => m.finish .sequenceEnd token.start

def blockMappingKey (first : Bool) (m : Machine) : Except Fault Outcome := do
  let m ← enter first m
  let (token, rest) ← m.pull
  match token.kind with
  | .key =>
    blockEntryNode endsMappingEntry true .blockMappingValue .blockMappingValue token.stop rest
  | .blockEnd => rest.closes.finish .mappingEnd token.start
  | _ => m.faultInside .blockMapping .noKey token.start

def blockMappingValue (m : Machine) : Except Fault Outcome := do
  let (token, rest) ← m.pull
  match token.kind with
  | .value =>
    blockEntryNode endsMappingEntry true (.blockMappingKey false) (.blockMappingKey false)
      token.stop rest
  | _ => m.missing token.start (.blockMappingKey false)

/-- Passes over the comma between two entries of a flow collection. -/
def separator (first : Bool) (construct : Construct) (problem : Problem) (m : Machine) :
    Except Fault Machine :=
  if first then .ok m
  else do
    let (token, rest) ← m.pull
    if token.kind == .flowEntry then .ok rest
    else m.faultInside construct problem token.start

def flowSequenceEntry (first : Bool) (m : Machine) : Except Fault Outcome := do
  let m ← enter first m
  let token ← m.look
  let m ←
    if token.kind == .flowSequenceEnd then .ok m
    else separator first .flowSequence .noSequenceSeparator m
  let (token, rest) ← m.pull
  match token.kind with
  | .key => rest.emit (.mappingStart none none) token.start .flowPairKey
  | .flowSequenceEnd => rest.closes.finish .sequenceEnd token.start
  | _ => node false false (m.push (.flowSequenceEntry false))

def endsFlowPairKey (kind : TokenKind) : Bool :=
  kind == .value || kind == .flowEntry || kind == .flowSequenceEnd

def flowPairKey (m : Machine) : Except Fault Outcome := do
  let (token, rest) ← m.pull
  if endsFlowPairKey token.kind then rest.missing token.stop .flowPairValue
  else node false false (m.push .flowPairValue)

def flowPairValue (m : Machine) : Except Fault Outcome := do
  let (token, rest) ← m.pull
  if token.kind == .value then
    let after ← rest.look
    if after.kind == .flowEntry || after.kind == .flowSequenceEnd then
      rest.missing after.start .flowPairEnd
    else node false false (rest.push .flowPairEnd)
  else m.missing token.start .flowPairEnd

def flowPairEnd (m : Machine) : Except Fault Outcome := do
  let token ← m.look
  m.emit .mappingEnd token.start (.flowSequenceEntry false)

def flowMappingKey (first : Bool) (m : Machine) : Except Fault Outcome := do
  let m ← enter first m
  let token ← m.look
  let m ←
    if token.kind == .flowMappingEnd then .ok m
    else separator first .flowMapping .noMappingSeparator m
  let (token, rest) ← m.pull
  match token.kind with
  | .key =>
    let after ← rest.look
    if after.kind == .value || after.kind == .flowEntry || after.kind == .flowMappingEnd then
      rest.missing after.start (.flowMappingValue false)
    else node false false (rest.push (.flowMappingValue false))
  | .flowMappingEnd => rest.closes.finish .mappingEnd token.start
  | _ => node false false (m.push (.flowMappingValue true))

def flowMappingValue (absent : Bool) (m : Machine) : Except Fault Outcome := do
  let (token, rest) ← m.pull
  if !absent && token.kind == .value then
    let after ← rest.look
    if after.kind == .flowEntry || after.kind == .flowMappingEnd then
      rest.missing after.start (.flowMappingKey false)
    else node false false (rest.push (.flowMappingKey false))
  else m.missing token.start (.flowMappingKey false)

/-- Reads up to the next event. -/
def step (place : Place) (m : Machine) : Except Fault Outcome :=
  match place with
  | .documentStart first => documentStart first m
  | .documentContent => documentContent m
  | .documentEnd => documentEnd m
  | .blockNode => node true false m
  | .blockSequenceEntry first => blockSequenceEntry first m
  | .indentlessEntry => indentlessEntry m
  | .blockMappingKey first => blockMappingKey first m
  | .blockMappingValue => blockMappingValue m
  | .flowSequenceEntry first => flowSequenceEntry first m
  | .flowPairKey => flowPairKey m
  | .flowPairValue => flowPairValue m
  | .flowPairEnd => flowPairEnd m
  | .flowMappingKey first => flowMappingKey first m
  | .flowMappingValue absent => flowMappingValue absent m

/-- The events of a text and the fault that ends them early; `found` holds
those read so far, the last first. -/
def run : Nat → List (Event × Mark) → Place → Machine → List (Event × Mark) × Option Fault
  | 0, found, _, _ => (found.reverse, none)
  | fuel + 1, found, place, m =>
    match step place m with
    | .error fault => (found.reverse, some fault)
    | .ok ⟨none, _, _⟩ => (found.reverse, none)
    | .ok ⟨some event, next, m⟩ => run fuel (event :: found) next m

end Grammar

/-- The events of a text, and the fault that ends them early.  A token gives
at most four events. -/
def events (text : List Char) : List (Event × Mark) × Option Fault :=
  let (found, fault) := tokens text
  let fault := fault.getD ⟨.endOfText, .start, none⟩
  match found with
  | [] => ([], some fault)
  | _ :: rest =>
    Grammar.run (4 * found.length + 8) [] (.documentStart true) ⟨rest, fault, [], [], []⟩

end Shipment.Yaml
