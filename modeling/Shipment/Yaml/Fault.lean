import Shipment.Text.Blank

/-!
# Syntax faults

Where a document stops being YAML: what is wrong, at which position, and what
was being read.  The wording of a fault is one line; a position at the very
start of the text is left out of it.
-/

namespace Shipment.Yaml

/-- A position in a text: bytes read so far, and line and column from zero.
Columns count characters. -/
structure Mark where
  index : Nat
  line : Nat
  column : Nat
  deriving DecidableEq, Repr, Inhabited

namespace Mark

def start : Mark := ⟨0, 0, 0⟩

/-- The position after characters of the same line. -/
def forward (m : Mark) (run : List Char) : Mark :=
  ⟨m.index + Text.byteLength run, m.line, m.column + run.length⟩

/-- The position after a line break of some bytes. -/
def nextLine (m : Mark) (bytes : Nat) : Mark :=
  ⟨m.index + bytes, m.line + 1, 0⟩

/-- Whether line and column say where the position is. -/
def isPlaced (m : Mark) : Bool :=
  m.line != 0 || m.column != 0

/-- Line and column, counted from one. -/
def text (m : Mark) : String :=
  "line " ++ toString (m.line + 1) ++ " column " ++ toString (m.column + 1)

/-- The words ` at line .. column ..`, or nothing at the start of the text. -/
def suffix (m : Mark) : String :=
  if m.isPlaced then " at " ++ m.text else ""

end Mark

inductive Problem where
  /-- A character that no text may hold, at this byte. -/
  | controlCharacter (offset : Nat)
  | noColon
  | misplacedEntry
  | misplacedKey
  | misplacedValue
  | noTokenStart
  | unknownDirective
  | noLineEnd
  | noDirectiveName
  | badDirectiveName
  | noVersionPoint
  | longVersion
  | noVersion
  | noBlank
  | noBlankOrBreak
  | badAnchor
  | noTagClose
  | noTagMark
  | noTagText
  | noOctet
  | badLeadingOctet
  | badTrailingOctet
  | zeroIndentation
  | tabInIndentation
  | documentIndicator
  | endOfText
  | unknownEscape
  | noHexDigit
  | badCodePoint
  | misplacedColon
  | tabBelowIndentation
  | noDocumentStart
  | unknownTagHandle
  | noContent
  | noDash
  | noKey
  | noSequenceSeparator
  | noMappingSeparator
  | duplicateVersion
  | wrongVersion
  | duplicateTagHandle
  deriving DecidableEq, Repr

def Problem.text : Problem → String
  | controlCharacter _ => "control characters are not allowed"
  | noColon => "could not find expected ':'"
  | misplacedEntry => "block sequence entries are not allowed in this context"
  | misplacedKey => "mapping keys are not allowed in this context"
  | misplacedValue => "mapping values are not allowed in this context"
  | noTokenStart => "found character that cannot start any token"
  | unknownDirective => "found unknown directive name"
  | noLineEnd => "did not find expected comment or line break"
  | noDirectiveName => "could not find expected directive name"
  | badDirectiveName => "found unexpected non-alphabetical character"
  | noVersionPoint => "did not find expected digit or '.' character"
  | longVersion => "found extremely long version number"
  | noVersion => "did not find expected version number"
  | noBlank => "did not find expected whitespace"
  | noBlankOrBreak => "did not find expected whitespace or line break"
  | badAnchor => "did not find expected alphabetic or numeric character"
  | noTagClose => "did not find the expected '>'"
  | noTagMark => "did not find expected '!'"
  | noTagText => "did not find expected tag URI"
  | noOctet => "did not find URI escaped octet"
  | badLeadingOctet => "found an incorrect leading UTF-8 octet"
  | badTrailingOctet => "found an incorrect trailing UTF-8 octet"
  | zeroIndentation => "found an indentation indicator equal to 0"
  | tabInIndentation => "found a tab character where an indentation space is expected"
  | documentIndicator => "found unexpected document indicator"
  | endOfText => "found unexpected end of stream"
  | unknownEscape => "found unknown escape character"
  | noHexDigit => "did not find expected hexadecimal number"
  | badCodePoint => "found invalid Unicode character escape code"
  | misplacedColon => "found unexpected ':'"
  | tabBelowIndentation => "found a tab character that violates indentation"
  | noDocumentStart => "did not find expected <document start>"
  | unknownTagHandle => "found undefined tag handle"
  | noContent => "did not find expected node content"
  | noDash => "did not find expected '-' indicator"
  | noKey => "did not find expected key"
  | noSequenceSeparator => "did not find expected ',' or ']'"
  | noMappingSeparator => "did not find expected ',' or '\x7d'"
  | duplicateVersion => "found duplicate %YAML directive"
  | wrongVersion => "found incompatible YAML document"
  | duplicateTagHandle => "found duplicate %TAG directive"

/-- What was being read. -/
inductive Construct where
  | simpleKey
  | nextToken
  | directive
  | versionDirective
  | tagDirective
  | tagDirectiveMark
  | tagDirectiveHandle
  | tagDirectiveText
  | anchor
  | aliasName
  | tag
  | tagText
  | blockScalar
  | quotedScalar
  | quotedEscape
  | plainScalar
  | node
  | blockNode
  | flowNode
  | blockSequence
  | blockMapping
  | flowSequence
  | flowMapping
  deriving DecidableEq, Repr

def Construct.text : Construct → String
  | simpleKey => "while scanning a simple key"
  | nextToken => "while scanning for the next token"
  | directive => "while scanning a directive"
  | versionDirective => "while scanning a %YAML directive"
  | tagDirective => "while scanning a %TAG directive"
  | tagDirectiveMark => "while scanning a tag directive"
  | tagDirectiveHandle => "while parsing a tag directive"
  | tagDirectiveText => "while parsing a %TAG directive"
  | anchor => "while scanning an anchor"
  | aliasName => "while scanning an alias"
  | tag => "while scanning a tag"
  | tagText => "while parsing a tag"
  | blockScalar => "while scanning a block scalar"
  | quotedScalar => "while scanning a quoted scalar"
  | quotedEscape => "while parsing a quoted scalar"
  | plainScalar => "while scanning a plain scalar"
  | node => "while parsing a node"
  | blockNode => "while parsing a block node"
  | flowNode => "while parsing a flow node"
  | blockSequence => "while parsing a block collection"
  | blockMapping => "while parsing a block mapping"
  | flowSequence => "while parsing a flow sequence"
  | flowMapping => "while parsing a flow mapping"

structure Fault where
  problem : Problem
  mark : Mark
  /-- The construct that was being read and where it starts. -/
  context : Option (Construct × Mark)
  deriving DecidableEq, Repr

namespace Fault

/-- Where the fault is: line and column, or the byte of a refused character. -/
def place (f : Fault) : String :=
  if f.mark.isPlaced then f.mark.suffix
  else
    match f.problem with
    | .controlCharacter offset => if offset = 0 then "" else " at position " ++ toString offset
    | _ => ""

def contextText (f : Fault) : String :=
  match f.context with
  | none => ""
  | some (construct, mark) =>
    let elsewhere := mark.line != f.mark.line || mark.column != f.mark.column
    ", " ++ construct.text ++ (if elsewhere then mark.suffix else "")

def message (f : Fault) : String :=
  f.problem.text ++ f.place ++ f.contextText

end Fault

end Shipment.Yaml
