import Shipment.Json.Basic
import Shipment.Text.Quoted

/-!
# Printing JSON

Two written forms of a value: compact, with no space at all, and pretty, with
one item a line and two spaces for each level.  Strings escape the quote, the
backslash and the control characters below the space, and nothing else.
-/

namespace Shipment.Json

/-- One character inside a JSON string. -/
def escapedChar (c : Char) : List Char :=
  if c = '"' then ['\\', '"']
  else if c = '\\' then ['\\', '\\']
  else if c = '\x08' then ['\\', 'b']
  else if c = '\t' then ['\\', 't']
  else if c = '\n' then ['\\', 'n']
  else if c = '\x0c' then ['\\', 'f']
  else if c = '\r' then ['\\', 'r']
  else if c.toNat < 0x20 then
    ['\\', 'u', '0', '0', Text.hexDigit (c.toNat / 16), Text.hexDigit (c.toNat % 16)]
  else [c]

def stringText (s : String) : List Char :=
  '"' :: s.toList.flatMap escapedChar ++ ['"']

def numberText : Number → List Char
  | .integer n => Number.integerText n.toInt
  | .float x => FloatNotation.json.render x

def scalarText : Json → List Char
  | null => "null".toList
  | bool true => "true".toList
  | bool false => "false".toList
  | number n => numberText n
  | string s => stringText s
  | array _ => []
  | object _ => []

mutual

/-- The compact form. -/
def compactText : Json → List Char
  | array [] => ['[', ']']
  | array (item :: rest) => '[' :: compactText item ++ compactItems rest
  | object [] => ['\x7b', '\x7d']
  | object ((key, value) :: rest) =>
    '\x7b' :: stringText key ++ [':'] ++ compactText value ++ compactFields rest
  | value => scalarText value

def compactItems : List Json → List Char
  | [] => [']']
  | item :: rest => ',' :: compactText item ++ compactItems rest

def compactFields : List (String × Json) → List Char
  | [] => ['\x7d']
  | (key, value) :: rest =>
    ',' :: stringText key ++ [':'] ++ compactText value ++ compactFields rest

end

/-- A line break and the indentation of a level. -/
def newLine (level : Nat) : List Char :=
  '\n' :: List.replicate (2 * level) ' '

mutual

/-- The pretty form of a value that stands at the given level. -/
def prettyText (level : Nat) : Json → List Char
  | array [] => ['[', ']']
  | array (item :: rest) =>
    '[' :: newLine (level + 1) ++ prettyText (level + 1) item ++ prettyItems level rest
  | object [] => ['\x7b', '\x7d']
  | object ((key, value) :: rest) =>
    '\x7b' :: newLine (level + 1) ++ stringText key ++ [':', ' '] ++
      prettyText (level + 1) value ++ prettyFields level rest
  | value => scalarText value

def prettyItems (level : Nat) : List Json → List Char
  | [] => newLine level ++ [']']
  | item :: rest =>
    ',' :: newLine (level + 1) ++ prettyText (level + 1) item ++ prettyItems level rest

def prettyFields (level : Nat) : List (String × Json) → List Char
  | [] => newLine level ++ ['\x7d']
  | (key, value) :: rest =>
    ',' :: newLine (level + 1) ++ stringText key ++ [':', ' '] ++
      prettyText (level + 1) value ++ prettyFields level rest

end

def compact (value : Json) : String :=
  String.ofList value.compactText

def pretty (value : Json) : String :=
  String.ofList (value.prettyText 0)

end Shipment.Json
