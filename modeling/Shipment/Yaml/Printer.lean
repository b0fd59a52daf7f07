import Shipment.Yaml.LoadFault
import Shipment.Yaml.Resolve
import Shipment.Yaml.Cursor
import Shipment.Text.Blank

/-!
# Printing YAML

A value is written in block style.  A string is plain where it reads back as
that string, quoted where it does not, and a literal block where it has line
feeds; double quotes are for the characters that the other styles cannot hold.
A key that is short and on one line stands before its colon, and any other
after a question mark.
-/

namespace Shipment.Yaml.Printer

/-- Characters that may stand unescaped in a text. -/
def isPrintable (c : Char) : Bool :=
  let n := c.toNat
  n == 0x0A || (0x20 ≤ n && n ≤ 0x7E) || (0xA0 ≤ n && n != 0xFEFF && n != 0xFFFE && n != 0xFFFF)

/-- Whether a space stands right before a break, or a break right before a space. -/
def hasPair (p q : Char → Bool) : List Char → Bool
  | c :: d :: rest => (p c && q d) || hasPair p q (d :: rest)
  | _ => false

/-- Characters that mean something else at the start of a scalar. -/
def isLeadingIndicator (c : Char) : Bool :=
  "#,[]\x7b\x7d&*!|>'\"%@`".toList.contains c

/-- Whether a colon before a gap or a comment sign after one stands in the text. -/
def hasInnerIndicator (afterGap : Bool) : List Char → Bool
  | [] => false
  | c :: rest =>
    (c == ':' && rest.head?.all isGap) || (c == '#' && afterGap) || hasInnerIndicator (isGap c) rest

/-- Whether the text would be read as something other than a plain scalar. -/
def hasIndicators (text : List Char) : Bool :=
  match text with
  | [] => false
  | c :: rest =>
    text.take 3 == ['-', '-', '-'] || text.take 3 == ['.', '.', '.'] || isLeadingIndicator c ||
      ((c == '?' || c == ':' || c == '-') && rest.head?.all isGap) ||
      hasInnerIndicator (isGap c) rest

def isSpace (c : Char) : Bool :=
  c == ' '

/-- Whether single quotes can hold the text. -/
def singleAllowed (text : List Char) : Bool :=
  text.all isPrintable && !hasPair isSpace isBreak text && !hasPair isBreak isSpace text

/-- Whether the text can stand without quotes. -/
def plainAllowed (text : List Char) : Bool :=
  let edge (c : Char) : Bool := isSpace c || isBreak c
  !(text.head?.any edge || text.getLast?.any edge || text.any isBreak || hasIndicators text) &&
    singleAllowed text

/-- Whether a literal block can hold the text. -/
def literalAllowed (text : List Char) : Bool :=
  !text.isEmpty && text.all isPrintable && !hasPair isSpace isBreak text &&
    !text.getLast?.any isSpace

inductive Style where
  | plain
  | single
  | double
  | literal
  deriving DecidableEq, Repr

/-- Whether a plain scalar with this text is read as the string. -/
def readsAsString (text : List Char) : Bool :=
  match Meaning.ofPlain text with
  | .string _ => !Meaning.hasLeadingZero text
  | _ => false

def style (text : List Char) : Style :=
  if text.contains '\n' then
    if literalAllowed text then .literal else .double
  else if readsAsString text && plainAllowed text then .plain
  else if singleAllowed text then .single
  else .double

def upperHex (n : Nat) : Char :=
  if n < 10 then Char.ofNat (0x30 + n) else Char.ofNat (0x37 + n)

/-- The last `width` hexadecimal digits of a number. -/
def hexDigits : Nat → Nat → List Char
  | 0, _ => []
  | width + 1, n => hexDigits width (n / 16) ++ [upperHex (n % 16)]

/-- The letter that stands for a character after a backslash. -/
def shortEscape? (c : Char) : Option Char :=
  match c with
  | '\x00' => some '0'
  | '\x07' => some 'a'
  | '\x08' => some 'b'
  | '\t' => some 't'
  | '\n' => some 'n'
  | '\x0b' => some 'v'
  | '\x0c' => some 'f'
  | '\r' => some 'r'
  | '\x1b' => some 'e'
  | '"' => some '"'
  | '\\' => some '\\'
  | '\u0085' => some 'N'
  | '\u00a0' => some '_'
  | '\u2028' => some 'L'
  | '\u2029' => some 'P'
  | _ => none

/-- One character between double quotes. -/
def doubleChar (c : Char) : List Char :=
  if isPrintable c && !isBreak c && c != '"' && c != '\\' then [c]
  else
    match shortEscape? c with
    | some letter => ['\\', letter]
    | none =>
      let n := c.toNat
      if n ≤ 0xFF then ['\\', 'x'] ++ hexDigits 2 n
      else if n ≤ 0xFFFF then ['\\', 'u'] ++ hexDigits 4 n
      else ['\\', 'U'] ++ hexDigits 8 n

def spaces (n : Nat) : List Char :=
  List.replicate n ' '

/-- The text between single quotes; a line after a separator is indented. -/
def singleBody (indent : Nat) (broken : Bool) : List Char → List Char
  | [] => if broken then spaces indent else []
  | c :: rest =>
    if isBreak c then c :: singleBody indent true rest
    else
      (if broken && c != ' ' then spaces indent else []) ++
        (if c = '\'' then ['\'', '\''] else [c]) ++
        singleBody indent (broken && c == ' ') rest

/-- The lines of a literal block; `fresh` says that a line starts. -/
def literalBody (indent : Nat) (fresh : Bool) : List Char → List Char
  | [] => []
  | c :: rest =>
    if isBreak c then c :: literalBody indent true rest
    else (if fresh then spaces indent else []) ++ c :: literalBody indent false rest

/-- The signs after the bar of a literal block: a digit if the text starts with
a blank, and how its final breaks are kept. -/
def literalHeader (text : List Char) : List Char :=
  let digit := if text.head?.any (fun c => isSpace c || isBreak c) then ['2'] else []
  let chomp :=
    match text.reverse with
    | [] => ['-']
    | [c] => if isBreak c then ['+'] else ['-']
    | c :: d :: _ => if !isBreak c then ['-'] else if isBreak d then ['+'] else []
  digit ++ chomp

/-- A string as a scalar whose further lines have the given indentation. -/
def stringText (indent : Nat) (text : List Char) : List Char :=
  match style text with
  | .plain => text
  | .single => ['\''] ++ singleBody indent false text ++ ['\'']
  | .double => ['"'] ++ text.flatMap doubleChar ++ ['"']
  | .literal => ['|'] ++ literalHeader text ++ ['\n'] ++ literalBody indent true text

/-- A scalar, an empty sequence or an empty mapping. -/
def atomText (indent : Nat) : Node → List Char
  | .null => "null".toList
  | .bool b => if b then "true".toList else "false".toList
  | .number n => numberText n
  | .string s => stringText indent s.toList
  | .sequence _ => ['[', ']']
  | .mapping _ => ['\x7b', '\x7d']
  | .tagged _ _ => []

/-- The characters that stand for themselves in a tag. -/
def isTagChar (c : Char) : Bool :=
  isWordChar c || ";/?:@&=+$,.!~*'()[]".toList.contains c

def octetText (octet : UInt8) : List Char :=
  '%' :: hexDigits 2 octet.toNat

/-- The written form of a tag with the given name. -/
def tagText (name : String) : List Char :=
  let written := match name.toList with
    | '!' :: rest => rest
    | chars => chars
  if written.isEmpty then "!<!>".toList
  else
    '!' :: written.flatMap fun c =>
      if isTagChar c then [c] else (String.utf8EncodeChar c).flatMap octetText

/-- The longest key that stands before its colon, in bytes. -/
def simpleKeyLimit : Nat := 128

/-- The bytes that a tag counts for in the length of a key. -/
def tagLength (name : String) : Nat :=
  let chars := name.toList
  Text.byteLength chars + (if chars.head? == some '!' then 0 else 1)

/-- Whether a key of the given text with `extra` more bytes stands before its colon. -/
def isShort (extra : Nat) (text : List Char) : Bool :=
  extra + Text.byteLength text ≤ simpleKeyLimit && !text.any isBreak

def isSimpleKey (extra : Nat) : Node → Bool
  | .string s => isShort extra s.toList
  | .sequence items => items.isEmpty && extra ≤ simpleKeyLimit
  | .mapping entries => entries.isEmpty && extra ≤ simpleKeyLimit
  | .tagged tag value => isSimpleKey (extra + tagLength tag) value
  | node => isShort extra (atomText 0 node)

/-- Where a value stands. -/
inductive Spot where
  | top
  /-- After the dash of an item. -/
  | item
  /-- After the colon of a simple key. -/
  | value
  /-- After a question mark, or the colon below one. -/
  | part
  /-- In the place of a simple key. -/
  | key
  deriving DecidableEq, Repr

/-- Whether a space separates a value at the spot from what is before it. -/
def Spot.spaced (spot : Spot) : Bool :=
  spot == .item || spot == .value || spot == .part

def newLine (indent : Nat) : List Char :=
  '\n' :: spaces indent

/-- Goes on to the next line.  A literal block may have ended its last line itself. -/
def nextLine (before : List Char) (indent : Nat) : List Char :=
  if before.getLast?.any isBreak then spaces indent else newLine indent

/-- What stands before the first line of a block collection at `indent`. -/
def opening (spot : Spot) (tagged : Bool) (indent : Nat) : List Char :=
  if tagged || spot == .value then newLine indent
  else if spot.spaced then [' ']
  else []

/-- The indentation of a mapping inside a collection at `outer`. -/
def mappingIndent (outer : Option Nat) : Nat :=
  match outer with
  | none => 0
  | some n => n + 2

/-- The indentation of a sequence; on the line below its key it has that of the key. -/
def sequenceIndent (spot : Spot) (tagged : Bool) (outer : Option Nat) : Nat :=
  match outer with
  | none => 0
  | some n => if spot == .value || (spot == .part && tagged) then n else n + 2

/-- The indentation of the lines of a scalar. -/
def scalarIndent (outer : Option Nat) : Nat :=
  match outer with
  | none => 2
  | some n => n + 2

def keySpot (key : Node) : Spot :=
  if isSimpleKey 0 key then .key else .part

/-- Where the value of a key stands. -/
def valueSpot (key : Node) : Spot :=
  if isSimpleKey 0 key then .value else .part

/-- A key of the given text with its colon. -/
def withColon (indent : Nat) (key : Node) (text : List Char) : List Char :=
  if isSimpleKey 0 key then text ++ [':'] else '?' :: text ++ nextLine text indent ++ [':']

mutual

/-- A value at a spot of a collection at `outer`. -/
def nodeText (spot : Spot) (tagged : Bool) (outer : Option Nat) : Node → List Char
  | .tagged tag value =>
    (if spot.spaced || tagged then [' '] else []) ++ tagText tag ++ nodeText spot true outer value
  | .sequence (item :: rest) =>
    let indent := sequenceIndent spot tagged outer
    let first := nodeText .item false (some indent) item
    opening spot tagged indent ++ '-' :: first ++ itemsText indent first rest
  | .mapping ((key, value) :: rest) =>
    let indent := mappingIndent outer
    let first := nodeText (valueSpot key) false (some indent) value
    opening spot tagged indent ++
      withColon indent key (nodeText (keySpot key) false (some indent) key) ++ first ++
      entriesText indent first rest
  | node =>
    (if spot.spaced || tagged then [' '] else []) ++ atomText (scalarIndent outer) node

/-- The items after one whose text is `before`. -/
def itemsText (indent : Nat) (before : List Char) : List Node → List Char
  | [] => []
  | item :: rest =>
    let next := nodeText .item false (some indent) item
    nextLine before indent ++ '-' :: next ++ itemsText indent next rest

/-- The entries after one whose value has the text `before`. -/
def entriesText (indent : Nat) (before : List Char) : List (Node × Node) → List Char
  | [] => []
  | (key, value) :: rest =>
    let next := nodeText (valueSpot key) false (some indent) value
    nextLine before indent ++
      withColon indent key (nodeText (keySpot key) false (some indent) key) ++ next ++
      entriesText indent next rest

end

end Shipment.Yaml.Printer

namespace Shipment.Yaml

/-- A value as YAML text without blanks at its end. -/
def Node.describe (node : Node) : String :=
  String.ofList (Text.trimEnd (Printer.nodeText .top false none node))

end Shipment.Yaml
