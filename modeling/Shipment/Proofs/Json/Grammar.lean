import Shipment.Json.Reader

/-!
# The grammar of JSON

What a text says as JSON, by the grammar of RFC 8259 and without a limit of depth.
The rules read a text from left to right: each takes its characters off the front
and leaves the rest.  A number is kept as it is written, and an object keeps its
members in their order.
-/

namespace Shipment.Json.Grammar

/-! ## Tokens -/

/-- Any number of spaces, tabs and line ends. -/
def IsBlank (text : List Char) : Prop :=
  ∀ c ∈ text, isSpace c = true

/-- A mark between two values, with blanks around it. -/
inductive IsMark (c : Char) : List Char → Prop
  | mark {before after : List Char} (hbefore : IsBlank before) (hafter : IsBlank after) :
      IsMark c (before ++ c :: after)

/-- One or more digits. -/
def IsDigits (text : List Char) : Prop :=
  text ≠ [] ∧ ∀ c ∈ text, c.isDigit = true

/-- The whole part of a number: a zero, or digits that begin with another digit. -/
inductive IsWhole : List Char → Prop
  | zero : IsWhole ['0']
  | digits {c : Char} {rest : List Char} (hc : c.isDigit = true) (hzero : c ≠ '0')
      (hrest : ∀ d ∈ rest, d.isDigit = true) : IsWhole (c :: rest)

/-- The digits behind a point, if there is one. -/
inductive IsFraction : List Char → Prop
  | none : IsFraction []
  | digits {text : List Char} (htext : IsDigits text) : IsFraction ('.' :: text)

/-- The power of ten of a number, if there is one. -/
inductive IsExponent : List Char → Prop
  | none : IsExponent []
  | digits {e : Char} {text : List Char} (he : e = 'e' ∨ e = 'E') (htext : IsDigits text) :
      IsExponent (e :: text)
  | signed {e sign : Char} {text : List Char} (he : e = 'e' ∨ e = 'E')
      (hsign : sign = '+' ∨ sign = '-') (htext : IsDigits text) : IsExponent (e :: sign :: text)

inductive IsNumber : List Char → Prop
  | number {sign whole fraction exponent : List Char} (hsign : sign = [] ∨ sign = ['-'])
      (hwhole : IsWhole whole) (hfraction : IsFraction fraction)
      (hexponent : IsExponent exponent) : IsNumber (sign ++ whole ++ fraction ++ exponent)

/-- A number without a point and without a power of ten. -/
inductive IsInteger : List Char → Prop
  | integer {sign whole : List Char} (hsign : sign = [] ∨ sign = ['-']) (hwhole : IsWhole whole) :
      IsInteger (sign ++ whole)

/-- The number that four hexadecimal digits spell. -/
def unit? (a b c d : Char) : Option Nat :=
  match Digits.hexValue? a, Digits.hexValue? b, Digits.hexValue? c, Digits.hexValue? d with
  | some i, some j, some k, some l => some (((i * 16 + j) * 16 + k) * 16 + l)
  | _, _, _, _ => none

/-- The characters up to the closing quote.  Two escapes are one character where
they are the halves of a surrogate pair, and a half alone is no character. -/
inductive ReadsChars : List Char → List Char → List Char → Prop
  | close (rest : List Char) : ReadsChars ('"' :: rest) [] rest
  | plain {c : Char} {text chars rest : List Char} (hcontrol : 0x20 ≤ c.toNat) (hquote : c ≠ '"')
      (hbackslash : c ≠ '\\') (hmore : ReadsChars text chars rest) :
      ReadsChars (c :: text) (c :: chars) rest
  | letter {letter c : Char} {text chars rest : List Char} (hletter : escapeLetter? letter = some c)
      (hmore : ReadsChars text chars rest) : ReadsChars ('\\' :: letter :: text) (c :: chars) rest
  | unit {a b c d : Char} {n : Nat} {text chars rest : List Char} (hunit : unit? a b c d = some n)
      (hscalar : n < 0xD800 ∨ 0xDFFF < n) (hmore : ReadsChars text chars rest) :
      ReadsChars ('\\' :: 'u' :: a :: b :: c :: d :: text) (Char.ofNat n :: chars) rest
  | pair {a b c d a' b' c' d' : Char} {high low : Nat} {text chars rest : List Char}
      (hhigh : unit? a b c d = some high) (hhighRange : 0xD800 ≤ high ∧ high ≤ 0xDBFF)
      (hlow : unit? a' b' c' d' = some low) (hlowRange : 0xDC00 ≤ low ∧ low ≤ 0xDFFF)
      (hmore : ReadsChars text chars rest) :
      ReadsChars
        ('\\' :: 'u' :: a :: b :: c :: d :: '\\' :: 'u' :: a' :: b' :: c' :: d' :: text)
        (Char.ofNat ((high - 0xD800) * 0x400 + (low - 0xDC00) + 0x10000) :: chars) rest

/-! ## Values -/

/-- What a text says: a value whose numbers are the texts of their tokens. -/
inductive TextTree where
  | null
  | bool (b : Bool)
  | number (token : List Char)
  | string (s : String)
  | array (items : List TextTree)
  | object (members : List (String × TextTree))

@[elab_as_elim]
theorem TextTree.induction {motive : TextTree → Prop} (null : motive .null)
    (bool : ∀ b, motive (.bool b)) (number : ∀ token, motive (.number token))
    (string : ∀ s, motive (.string s))
    (array : ∀ items, (∀ item ∈ items, motive item) → motive (.array items))
    (object : ∀ members : List (String × TextTree), (∀ member ∈ members, motive member.2) →
      motive (.object members)) : ∀ tree, motive tree
  | .null => null
  | .bool b => bool b
  | .number token => number token
  | .string s => string s
  | .array items =>
      array items fun item _ => TextTree.induction null bool number string array object item
  | .object members =>
      object members fun member _ =>
        TextTree.induction null bool number string array object member.2
termination_by tree => sizeOf tree
decreasing_by
  · have := List.sizeOf_lt_of_mem ‹item ∈ items›
    simp
    omega
  · have hmember := List.sizeOf_lt_of_mem ‹member ∈ members›
    have : sizeOf member = 1 + sizeOf member.1 + sizeOf member.2 := by cases member; rfl
    simp
    omega

/-- One or more elements with commas between them, up to the closing character. -/
inductive ReadsList {α : Type} (closing : Char) (ReadsOne : List Char → α → List Char → Prop) :
    List Char → List α → List Char → Prop
  | last {text blank rest : List Char} {element : α}
      (helement : ReadsOne text element (blank ++ closing :: rest)) (hblank : IsBlank blank) :
      ReadsList closing ReadsOne text [element] rest
  | more {text comma between rest : List Char} {element : α} {elements : List α}
      (helement : ReadsOne text element (comma ++ between)) (hcomma : IsMark ',' comma)
      (hmore : ReadsList closing ReadsOne between elements rest) :
      ReadsList closing ReadsOne text (element :: elements) rest

/-- Elements with commas between them, if there are any, up to the closing character. -/
inductive ReadsBody {α : Type} (closing : Char) (ReadsOne : List Char → α → List Char → Prop) :
    List Char → List α → List Char → Prop
  | empty {blank : List Char} (hblank : IsBlank blank) (rest : List Char) :
      ReadsBody closing ReadsOne (blank ++ closing :: rest) [] rest
  | list {blank text rest : List Char} {elements : List α} (hblank : IsBlank blank)
      (helements : ReadsList closing ReadsOne text elements rest) :
      ReadsBody closing ReadsOne (blank ++ text) elements rest

/-- A key and what belongs to it. -/
inductive ReadsMember {α : Type} (ReadsOne : List Char → α → List Char → Prop) :
    List Char → String × α → List Char → Prop
  | member {text key colon between rest : List Char} {value : α}
      (hkey : ReadsChars text key (colon ++ between)) (hcolon : IsMark ':' colon)
      (hvalue : ReadsOne between value rest) :
      ReadsMember ReadsOne ('"' :: text) (String.ofList key, value) rest

/-- A value at the front of a text. -/
inductive Reads : List Char → TextTree → List Char → Prop
  | null (rest : List Char) : Reads ('n' :: 'u' :: 'l' :: 'l' :: rest) .null rest
  | boolTrue (rest : List Char) : Reads ('t' :: 'r' :: 'u' :: 'e' :: rest) (.bool true) rest
  | boolFalse (rest : List Char) :
      Reads ('f' :: 'a' :: 'l' :: 's' :: 'e' :: rest) (.bool false) rest
  | number {token : List Char} (htoken : IsNumber token) (rest : List Char) :
      Reads (token ++ rest) (.number token) rest
  | string {text chars rest : List Char} (hchars : ReadsChars text chars rest) :
      Reads ('"' :: text) (.string (String.ofList chars)) rest
  | array {text rest : List Char} {items : List TextTree}
      (hitems : ReadsBody ']' Reads text items rest) : Reads ('[' :: text) (.array items) rest
  | object {text rest : List Char} {members : List (String × TextTree)}
      (hmembers : ReadsBody '\x7d' (ReadsMember Reads) text members rest) :
      Reads ('\x7b' :: text) (.object members) rest

/-- A whole text: one value with blanks around it. -/
def Says (text : List Char) (tree : TextTree) : Prop :=
  ∃ before value after, text = before ++ value ∧ IsBlank before ∧ Reads value tree after ∧
    IsBlank after

end Shipment.Json.Grammar
