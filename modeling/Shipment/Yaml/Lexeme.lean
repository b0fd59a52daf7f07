import Shipment.Number.Reading
import Shipment.Yaml.Cursor
import Shipment.Yaml.Token

/-!
# Directives, anchors and tags

The one-line tokens that have text of their own.  Each function starts at the
first character of the token and gives its kind and the cursor after it.
-/

namespace Shipment.Yaml

namespace Cursor

/-- Passes over the rest of a line that may hold only a comment. -/
def skipComment (c : Cursor) : Cursor :=
  let c := c.skipWhile isSpaceOrTab
  if c.sees '#' then c.skipWhile (!isBreak ·) else c

end Cursor

namespace Lexeme

/-- The longest number of digits in a part of a version. -/
def versionLength : Nat := 9

def versionNumber (start : Mark) (c : Cursor) : Except Fault (Nat × Cursor) :=
  let (digits, after) := c.takeWhile (fun d => '0' ≤ d && d ≤ '9')
  if versionLength < digits.length then
    (c.skip versionLength).fault .versionDirective start .longVersion
  else if digits.isEmpty then c.fault .versionDirective start .noVersion
  else .ok (digits.foldl (fun n d => n * 10 + (d.toNat - 0x30)) 0, after)

/-- The value of a `%YAML` directive. -/
def version (start : Mark) (c : Cursor) : Except Fault (TokenKind × Cursor) := do
  let (major, c) ← versionNumber start (c.skipWhile isSpaceOrTab)
  if c.sees '.' then
    let (minor, c) ← versionNumber start (c.skip 1)
    .ok (.versionDirective major minor, c)
  else c.fault .versionDirective start .noVersionPoint

/-- An exclamation mark alone, a word between two of them, or one with the word
that starts a tag.  A directive takes no tag here. -/
def tagHandle (inDirective : Bool) (start : Mark) (c : Cursor) :
    Except Fault (List Char × Cursor) :=
  if !c.sees '!' then
    c.fault (if inDirective then .tagDirectiveMark else .tag) start .noTagMark
  else
    let (word, after) := (c.skip 1).takeWhile isWordChar
    if after.sees '!' then .ok ('!' :: word ++ ['!'], after.skip 1)
    else if inDirective && !word.isEmpty then after.fault .tagDirectiveHandle start .noTagMark
    else .ok ('!' :: word, after)

/-- The characters of a tag besides percent escapes; a verbatim tag also takes
the flow indicators. -/
def isTagChar (verbatim : Bool) (c : Char) : Bool :=
  isWordChar c || ";/?:@&=+$.!~*'()".toList.contains c ||
    (verbatim && (c == ',' || c == '[' || c == ']'))

/-- A percent sign with two hexadecimal digits. -/
def octet? (c : Cursor) : Option Nat :=
  match c.rest with
  | '%' :: high :: low :: _ =>
    match Digits.hexValue? high, Digits.hexValue? low with
    | some h, some l => some (h * 16 + l)
    | _, _ => none
  | _ => none

/-- How many octets the UTF-8 form of a character has that starts with this one. -/
def octetWidth? (octet : Nat) : Option Nat :=
  if octet < 0x80 then some 1
  else if octet < 0xC0 then none
  else if octet < 0xE0 then some 2
  else if octet < 0xF0 then some 3
  else if octet < 0xF8 then some 4
  else none

/-- How many values the free bits of a leading octet have. -/
def leadingCount : Nat → Nat
  | 1 => 0x80
  | 2 => 0x20
  | 3 => 0x10
  | _ => 0x08

/-- The octets after the leading one, as the number their low bits make. -/
def trailingOctets (construct : Construct) (start : Mark) :
    Nat → Nat → Cursor → Except Fault (Nat × Cursor)
  | 0, value, c => .ok (value, c)
  | n + 1, value, c =>
    match octet? c with
    | none => c.fault construct start .noOctet
    | some octet =>
      if octet / 0x40 = 2 then
        trailingOctets construct start n (value * 0x40 + octet % 0x40) (c.skip 3)
      else c.fault construct start .badTrailingOctet

/-- The least code point whose UTF-8 form has this many octets. -/
def leastOfWidth : Nat → Nat
  | 1 => 0
  | 2 => 0x80
  | 3 => 0x800
  | _ => 0x10000

/-- The character that a run of percent escapes spells, `none` if the octets
are in the shape of UTF-8 but no character has them. -/
def escapedTagChar (construct : Construct) (start : Mark) (c : Cursor) :
    Except Fault (Option Char × Cursor) :=
  match octet? c with
  | none => c.fault construct start .noOctet
  | some octet =>
    match octetWidth? octet with
    | none => c.fault construct start .badLeadingOctet
    | some width => do
      let low := octet % leadingCount width
      let (n, after) ← trailingOctets construct start (width - 1) low (c.skip 3)
      if leastOfWidth width ≤ n ∧ n.isValidChar then .ok (some (Char.ofNat n), after)
      else .ok (none, after)

/-- The characters of a tag as far as they go. -/
def tagChars (verbatim : Bool) (construct : Construct) (start : Mark) :
    Nat → TagText → Cursor → Except Fault (TagText × Cursor)
  | 0, found, c => .ok (found, c)
  | fuel + 1, found, c =>
    match c.peek with
    | none => .ok (found, c)
    | some x =>
      if x = '%' then
        match escapedTagChar construct start c with
        | .error e => .error e
        | .ok (some y, after) =>
          tagChars verbatim construct start fuel ⟨found.chars ++ [y], found.sound⟩ after
        | .ok (none, after) => tagChars verbatim construct start fuel ⟨found.chars, false⟩ after
      else if isTagChar verbatim x then
        tagChars verbatim construct start fuel ⟨found.chars ++ [x], found.sound⟩ (c.skip 1)
      else .ok (found, c)

/-- The text of a tag after `head`, which counts as text of its own.  An escape
for the null character ends the text, and what is after it is passed over. -/
def tagText (verbatim inDirective : Bool) (head : List Char) (start : Mark) (c : Cursor) :
    Except Fault (TagText × Cursor) := do
  let construct := if inDirective then .tagDirectiveText else .tagText
  let (text, after) ← tagChars verbatim construct start c.rest.length ⟨head.drop 1, true⟩ c
  if head.isEmpty && after.mark == c.mark then after.fault construct start .noTagText
  else .ok ({ text with chars := text.chars.takeWhile (· != '\x00') }, after)

/-- The value of a `%TAG` directive. -/
def tagDirective (start : Mark) (c : Cursor) : Except Fault (TokenKind × Cursor) := do
  let (handle, c) ← tagHandle true start (c.skipWhile isSpaceOrTab)
  if !c.peek.any isSpaceOrTab then c.fault .tagDirective start .noBlank
  else
    let (text, c) ← tagText true true [] start (c.skipWhile isSpaceOrTab)
    if c.gapAt 0 then .ok (.tagDirective handle text, c)
    else c.fault .tagDirective start .noBlankOrBreak

/-- A directive, up to and with the end of its line. -/
def directive (c : Cursor) : Except Fault (Token × Cursor) := do
  let start := c.mark
  let (name, c) := (c.skip 1).takeWhile isWordChar
  if name.isEmpty then c.fault .directive start .noDirectiveName
  else if !c.gapAt 0 then c.fault .directive start .badDirectiveName
  else
    let (kind, c) ←
      if name = "YAML".toList then version start c
      else if name = "TAG".toList then tagDirective start c
      else c.fault .directive start .unknownDirective
    let stop := c.mark
    let c := c.skipComment
    if c.breakOrEnd then .ok (⟨kind, start, stop⟩, c.skipBreak)
    else c.fault .directive start .noLineEnd

/-- An anchor or an alias: a sign and a name. -/
def anchor (isAlias : Bool) (c : Cursor) : Except Fault (Token × Cursor) :=
  let start := c.mark
  let (name, c) := (c.skip 1).takeWhile isWordChar
  if name.isEmpty || !(c.gapAt 0 || c.peek.any ("?:,]\x7d%@`".toList.contains ·)) then
    c.fault (if isAlias then .aliasName else .anchor) start .badAnchor
  else .ok (⟨if isAlias then .aliasTo name else .anchor name, start, c.mark⟩, c)

/-- The handle and the text of a tag. -/
def tagParts (start : Mark) (c : Cursor) : Except Fault (List Char × TagText × Cursor) := do
  if c.peekAt 1 == some '<' then
    let (text, c) ← tagText true false [] start (c.skip 2)
    if c.sees '>' then .ok ([], text, c.skip 1) else c.fault .tag start .noTagClose
  else
    let (handle, c) ← tagHandle false start c
    if 2 ≤ handle.length && handle.getLast? == some '!' then
      let (text, c) ← tagText false false [] start c
      .ok (handle, text, c)
    else
      let (text, c) ← tagText false false handle start c
      if text.chars.isEmpty && text.sound then .ok ([], ⟨['!'], true⟩, c)
      else .ok (['!'], text, c)

def tag (inFlow : Bool) (c : Cursor) : Except Fault (Token × Cursor) := do
  let start := c.mark
  let (handle, text, c) ← tagParts start c
  if (inFlow && c.sees ',') || c.gapAt 0 then .ok (⟨.tag handle text, start, c.mark⟩, c)
  else c.fault .tag start .noBlankOrBreak

end Lexeme

end Shipment.Yaml
