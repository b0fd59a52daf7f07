import Shipment.Yaml.Node
import Shipment.Number.Reading
import Shipment.Yaml.Token

/-!
# What a plain scalar means

A plain scalar without a tag is null, a boolean, an integer, a float or, if it
reads as none of them, a string.  Integers beyond sixty-four bits are told from
floats as long as they fit in one hundred and twenty-eight.
-/

namespace Shipment.Yaml

/-- The meaning of a scalar. -/
inductive Meaning where
  | null
  | bool (b : Bool)
  | integer (n : Integer64)
  /-- A nonnegative integer of more than sixty-four bits. -/
  | wideUnsigned (n : Nat)
  /-- A negative integer of more than sixty-four bits. -/
  | wideSigned (n : Int)
  | float (x : Binary64)
  | string (text : List Char)

namespace Meaning

def isNull (text : List Char) : Bool :=
  text == "null".toList || text == "Null".toList || text == "NULL".toList || text == ['~']

def bool? (text : List Char) : Option Bool :=
  if text == "true".toList || text == "True".toList || text == "TRUE".toList then some true
  else if text == "false".toList || text == "False".toList || text == "FALSE".toList then
    some false
  else none

def isSign (c : Char) : Bool :=
  c == '+' || c == '-'

def withoutSign : List Char → List Char
  | c :: rest => if isSign c then rest else c :: rest
  | [] => []

/-- Digits after a needless zero, which make a string of a number. -/
def hasLeadingZero (text : List Char) : Bool :=
  match withoutSign text with
  | '0' :: d :: rest => (d :: rest).all Digits.isDigit
  | _ => false

/-- The base and the digits of `0x`, `0o` and `0b` numbers. -/
def based? : List Char → Option (Nat × List Char)
  | '0' :: 'x' :: digits => some (16, digits)
  | '0' :: 'o' :: digits => some (8, digits)
  | '0' :: 'b' :: digits => some (2, digits)
  | _ => none

def startsSigned (text : List Char) : Bool :=
  (text.head?).any isSign

/-- A nonnegative integer below `limit`: an optional plus sign, and digits in
one of the bases or decimal digits without a needless zero. -/
def unsigned? (limit : Nat) (text : List Char) : Option Nat :=
  let digits := match text with
    | '+' :: rest => rest
    | _ => text
  let decimal : Option Nat :=
    if startsSigned digits || hasLeadingZero text then none
    else (Digits.read? 10 digits).filter (· < limit)
  match based? digits with
  | some (base, more) =>
    if startsSigned more then none
    else ((Digits.read? base more).filter (· < limit)).orElse fun _ => decimal
  | none => decimal

/-- A negative integer of at least `-limit`. -/
def negative? (limit : Nat) (text : List Char) : Option Int :=
  match text with
  | '-' :: digits =>
    let decimal : Option Nat :=
      if hasLeadingZero text then none else (Digits.read? 10 digits).filter (· ≤ limit)
    let magnitude := match based? digits with
      | some (base, more) =>
        ((Digits.read? base more).filter (· ≤ limit)).orElse fun _ => decimal
      | none => decimal
    magnitude.map fun n => -(n : Int)
  | _ => none

/-- An integer of any width up to one hundred and twenty-eight bits. -/
def integer? (text : List Char) : Option Meaning :=
  match unsigned? Digits.wordCount text with
  | some n => some (.integer (.unsigned (.ofNat n)))
  | none =>
    match negative? Digits.negativeCount text with
    | some n => some (.integer (.ofInt64 (.ofInt n)))
    | none =>
      match unsigned? Digits.wideCount text with
      | some n => some (.wideUnsigned n)
      | none => (negative? Digits.wideNegativeCount text).map .wideSigned

def isInfinityName (text : List Char) : Bool :=
  text == ".inf".toList || text == ".Inf".toList || text == ".INF".toList

def isNaNName (text : List Char) : Bool :=
  text == ".nan".toList || text == ".NaN".toList || text == ".NAN".toList

/-- A float: one of the names of infinity and of not-a-number, or a decimal
fraction that is finite as a double. -/
def float? (text : List Char) : Option Binary64 :=
  let digits := match text with
    | '+' :: rest => rest
    | _ => text
  if text.head? == some '+' && startsSigned digits then none
  else if isInfinityName digits then some (.infinity false)
  else if text.head? == some '-' && isInfinityName (text.drop 1) then some (.infinity true)
  else if isNaNName text then some .nan
  else (Binary64.readDecimal? digits).filter (·.isFinite)

/-- The meaning of a plain scalar without a tag. -/
def ofPlain (text : List Char) : Meaning :=
  if text.isEmpty || isNull text then .null
  else
    match bool? text with
    | some b => .bool b
    | none =>
      match integer? text with
      | some n => n
      | none =>
        if hasLeadingZero text then .string text
        else
          match float? text with
          | some x => .float x
          | none => .string text

end Meaning

/-- The tags that name a kind of scalar. -/
inductive ScalarKind where
  | bool
  | integer
  | float
  | null
  deriving DecidableEq, Repr

namespace ScalarKind

def all : List ScalarKind := [bool, integer, float, null]

def tag : ScalarKind → String
  | bool => "tag:yaml.org,2002:bool"
  | integer => "tag:yaml.org,2002:int"
  | float => "tag:yaml.org,2002:float"
  | null => "tag:yaml.org,2002:null"

/-- The kind in words. -/
def noun : ScalarKind → String
  | bool => "a boolean"
  | integer => "an integer"
  | float => "a float"
  | null => "null"

/-- The meaning of a text as a scalar of the kind. -/
def read? (kind : ScalarKind) (text : List Char) : Option Meaning :=
  match kind with
  | bool => (Meaning.bool? text).map .bool
  | integer => Meaning.integer? text
  | float => (Meaning.float? text).map .float
  | null => if Meaning.isNull text then some .null else none

end ScalarKind

/-- The meaning of a scalar, or the kind that its tag asks for in vain.
`bare` says that a tag of the document's own has been taken off already. -/
def meaning (bare : Bool) (tag : Option TagText) (text : List Char) (style : ScalarStyle) :
    Except ScalarKind Meaning :=
  let untagged := if style = .plain then Meaning.ofPlain text else .string text
  match tag with
  | none => .ok untagged
  | some t =>
    if bare then .ok untagged
    else
      match ScalarKind.all.find? (·.tag.toList == t.chars && t.sound) with
      | some kind =>
        match kind.read? text with
        | some m => .ok m
        | none => .error kind
      | none => if t.chars.head? == some '!' then .ok untagged else .ok (.string text)

end Shipment.Yaml
