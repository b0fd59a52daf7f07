import Shipment.Json.Numeral
import Shipment.Json.Shape
import Shipment.Json.StringBody

/-!
# Reading JSON text

A value is read from the front of a text, and what is left is handed on.  Lists
and objects may be nested only so deep, so that the size of a text is not the
only bound on a reader.  A value that is only passed over may be nested as deep
as it likes, and some of its faults have other names.

Of two fields with one key the later one counts.
-/

namespace Shipment.Json

/-- How deep lists and objects may be nested. -/
def nestingLimit : Nat := 127

def isSpace (c : Char) : Bool :=
  c == ' ' || c == '\n' || c == '\t' || c == '\r'

def skipSpaces (text : List Char) : List Char :=
  text.dropWhile isSpace

/-- Reads the rest of a word. -/
def word : List Char → List Char → Except Stop (List Char)
  | [], text => .ok text
  | _ :: _, [] => .error (.before .endInValue [])
  | c :: more, d :: rest =>
    if c = d then word more rest else .error (.on .unknownWord (d :: rest))

/-- What comes next in a list or an object. -/
inductive Next where
  /-- The closing bracket has been read. -/
  | close (rest : List Char)
  /-- An item starts here. -/
  | item (text : List Char)

/-- Goes to the next item of a list; `first` says that none has been read. -/
def nextItem (first : Bool) (text : List Char) : Except Stop Next :=
  match skipSpaces text with
  | [] => .error (.on .endInList [])
  | ']' :: rest => .ok (.close rest)
  | c :: rest =>
    if first then .ok (.item (c :: rest))
    else if c = ',' then
      match skipSpaces rest with
      | [] => .error (.on .endInValue [])
      | ']' :: rest => .error (.on .trailingComma (']' :: rest))
      | rest => .ok (.item rest)
    else .error (.on .noListSeparator (c :: rest))

/-- Goes to the next key of an object, after its opening quote. -/
def nextKey (first : Bool) (text : List Char) : Except Stop Next :=
  match skipSpaces text with
  | [] => .error (.on .endInObject [])
  | '\x7d' :: rest => .ok (.close rest)
  | c :: rest =>
    if first then
      if c = '"' then .ok (.item rest) else .error (.on .keyNotString (c :: rest))
    else if c = ',' then
      match skipSpaces rest with
      | [] => .error (.on .endInValue [])
      | '"' :: rest => .ok (.item rest)
      | '\x7d' :: rest => .error (.on .trailingComma ('\x7d' :: rest))
      | rest => .error (.on .keyNotString rest)
    else .error (.on .noObjectSeparator (c :: rest))

/-- Reads the colon after a key. -/
def colon (text : List Char) : Except Stop (List Char) :=
  match skipSpaces text with
  | [] => .error (.on .endInObject [])
  | c :: rest => if c = ':' then .ok rest else .error (.on .noColon (c :: rest))

/-- Reads a value that is no list and no object, at its first character. -/
def scalar : List Char → Scan Json
  | 'n' :: rest => (word "ull".toList rest).map (null, ·)
  | 't' :: rest => (word "rue".toList rest).map (bool true, ·)
  | 'f' :: rest => (word "alse".toList rest).map (bool false, ·)
  | '"' :: rest => (stringBody rest).map fun found => (string (String.ofList found.1), found.2)
  | '-' :: rest => (numeral true rest).map fun found => (number found.1, found.2)
  | [] => .error (.on .endInValue [])
  | c :: rest =>
    if Digits.isDigit c then
      (numeral false (c :: rest)).map fun found => (number found.1, found.2)
    else .error (.on .noValue (c :: rest))

mutual

/-- Reads a value in which lists and objects may be nested `depth` deep. -/
def value : Nat → Nat → List Char → Scan Json
  | 0, _, text => .error (.before .endInValue text)
  | fuel + 1, depth, text =>
    match skipSpaces text with
    | '[' :: rest =>
      match depth with
      | 0 => .error (.on .tooDeep ('[' :: rest))
      | depth + 1 => (items fuel depth true rest).map fun found => (array found.1, found.2)
    | '\x7b' :: rest =>
      match depth with
      | 0 => .error (.on .tooDeep ('\x7b' :: rest))
      | depth + 1 =>
        (members fuel depth true rest).map fun found =>
          (object (Fields.ofList found.1), found.2)
    | rest => scalar rest

/-- Reads the items of a list up to its closing bracket. -/
def items : Nat → Nat → Bool → List Char → Scan (List Json)
  | 0, _, _, text => .error (.before .endInList text)
  | fuel + 1, depth, first, text =>
    match nextItem first text with
    | .error stop => .error stop
    | .ok (.close rest) => .ok ([], rest)
    | .ok (.item rest) =>
      match value fuel depth rest with
      | .error stop => .error stop
      | .ok (item, rest) =>
        (items fuel depth false rest).map fun found => (item :: found.1, found.2)

/-- Reads the fields of an object up to its closing brace, in their order. -/
def members : Nat → Nat → Bool → List Char → Scan (List (String × Json))
  | 0, _, _, text => .error (.before .endInObject text)
  | fuel + 1, depth, first, text =>
    match nextKey first text with
    | .error stop => .error stop
    | .ok (.close rest) => .ok ([], rest)
    | .ok (.item rest) =>
      match stringBody rest with
      | .error stop => .error stop
      | .ok (key, rest) =>
        match colon rest with
        | .error stop => .error stop
        | .ok rest =>
          match value fuel depth rest with
          | .error stop => .error stop
          | .ok (item, rest) =>
            (members fuel depth false rest).map fun found =>
              ((String.ofList key, item) :: found.1, found.2)

end

/-- More steps than reading a value from a text can take. -/
def fuelFor (text : List Char) : Nat :=
  2 * text.length + 2

/-- Passes over a value that is no list and no object. -/
def skipScalar : List Char → Except Stop (List Char)
  | 'n' :: rest => word "ull".toList rest
  | 't' :: rest => word "rue".toList rest
  | 'f' :: rest => word "alse".toList rest
  | '"' :: rest => skipString rest
  | '-' :: rest => skipNumeral rest
  | [] => .error (.on .endInValue [])
  | c :: rest =>
    if Digits.isDigit c then skipNumeral (c :: rest) else .error (.on .noValue (c :: rest))

/-- Passes over a key and its colon, from the opening quote on. -/
def skipKey (text : List Char) : Except Stop (List Char) :=
  match skipSpaces text with
  | [] => .error (.on .endInObject [])
  | c :: rest =>
    if c = '"' then
      match skipString rest with
      | .error stop => .error stop
      | .ok rest => colon rest
    else .error (.on .keyNotString (c :: rest))

/-- Goes on to what follows the comma of a list or an object that is passed over. -/
def skipComma (first : Bool) (missing : Fault) (text : List Char) : Except Stop (List Char) :=
  match first, text with
  | true, text => .ok text
  | false, ',' :: rest => .ok rest
  | false, text => .error (.on missing text)

mutual

/-- Passes over a value. -/
def skipValue : Nat → List Char → Except Stop (List Char)
  | 0, text => .error (.before .endInValue text)
  | fuel + 1, text =>
    match skipSpaces text with
    | '[' :: rest => skipItems fuel true rest
    | '\x7b' :: rest => skipMembers fuel true rest
    | rest => skipScalar rest

def skipItems : Nat → Bool → List Char → Except Stop (List Char)
  | 0, _, text => .error (.before .endInList text)
  | fuel + 1, first, text =>
    match skipSpaces text with
    | [] => .error (.on .endInList [])
    | ']' :: rest => .ok rest
    | rest =>
      match skipComma first .noListSeparator rest with
      | .error stop => .error stop
      | .ok rest =>
        match skipValue fuel rest with
        | .error stop => .error stop
        | .ok rest => skipItems fuel false rest

def skipMembers : Nat → Bool → List Char → Except Stop (List Char)
  | 0, _, text => .error (.before .endInObject text)
  | fuel + 1, first, text =>
    match skipSpaces text with
    | [] => .error (.on .endInObject [])
    | '\x7d' :: rest => .ok rest
    | rest =>
      match skipComma first .noObjectSeparator rest with
      | .error stop => .error stop
      | .ok rest =>
        match skipKey rest with
        | .error stop => .error stop
        | .ok rest =>
          match skipValue fuel rest with
          | .error stop => .error stop
          | .ok rest => skipMembers fuel false rest

end

/-- The fault of a value of the wrong type.  A scalar is read to name it, and a
list or an object is not. -/
def wrongType (expected : String) (text : List Char) : Stop :=
  match text with
  | '[' :: _ => .before (.mismatch (.wrongType .sequence expected)) text
  | '\x7b' :: _ => .before (.mismatch (.wrongType .map expected)) text
  | _ =>
    match scalar text with
    | .error stop => stop
    | .ok (found, rest) => .before (.mismatch (.wrongType found.unexpected expected)) rest

/-- Reads a string where one is needed. -/
def neededString (text : List Char) : Scan String :=
  match skipSpaces text with
  | [] => .error (.on .endInValue [])
  | c :: rest =>
    if c = '"' then (stringBody rest).map fun found => (String.ofList found.1, found.2)
    else .error (wrongType "a string" (c :: rest))

/-- Reads a value that may be missing; `null` says that it is. -/
def optionalValue (depth : Nat) (text : List Char) : Scan (Option Json) :=
  match skipSpaces text with
  | 'n' :: rest => (word "ull".toList rest).map (none, ·)
  | rest => (value (fuelFor rest) depth rest).map fun found => (some found.1, found.2)

/-- Checks that only spaces are left. -/
def finished (text : List Char) : Except Stop Unit :=
  match skipSpaces text with
  | [] => .ok ()
  | rest => .error (.on .trailingCharacters rest)

end Shipment.Json
