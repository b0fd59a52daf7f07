import Shipment.Json.Printer
import Shipment.Json.Reader
import Shipment.ValidationFailure

/-!
# Server errors

The answer of the server to a request that failed: a message, a code and
perhaps data.  One code says that the request body is invalid, and its data
holds the failures.  An answer is read from an object, whose other fields are
passed over, or from the list of its parts; it is written as an object.
-/

namespace Shipment

structure ServerError where
  message : String
  code : String
  data : Option Json

namespace ServerError

/-- The code of an answer that holds validation failures. -/
def invalidBodyCode : String := "invalid_request_body"

/-- Names the parts in a message. -/
def shape : String := "struct ApiError"

/-- The parts of an answer read so far. -/
structure Draft where
  message : Option String
  code : Option String
  data : Option (Option Json)

def Draft.empty : Draft := ⟨none, none, none⟩

/-- The answer made of the parts; only the data may be missing. -/
def Draft.finish (d : Draft) : Except Mismatch ServerError :=
  match d.message, d.code with
  | none, _ => .error (.missingField "error")
  | _, none => .error (.missingField "code")
  | some message, some code => .ok ⟨message, code, d.data.join⟩

/-- Passes over spaces and a closing bracket, if there is one. -/
def passClose (bracket : Char) (text : List Char) : List Char :=
  match Json.skipSpaces text with
  | [] => []
  | c :: rest => if c = bracket then rest else c :: rest

/-- A refusal of the parts, placed after the closing bracket if that is near. -/
def refuse {α : Type} (reason : Mismatch) (bracket : Char) (text : List Char) : Json.Scan α :=
  .error (.before (.mismatch reason) (passClose bracket text))

/-- How deep the data may be nested. -/
def dataDepth : Nat := Json.nestingLimit - 1

/-- Reads the value of a field. -/
def readField (d : Draft) (key : String) (text : List Char) : Json.Scan Draft :=
  if key = "error" then
    (Json.neededString text).map fun found => ({ d with message := some found.1 }, found.2)
  else if key = "code" then
    (Json.neededString text).map fun found => ({ d with code := some found.1 }, found.2)
  else if key = "data" then
    (Json.optionalValue dataDepth text).map fun found => ({ d with data := some found.1 }, found.2)
  else (Json.skipValue (Json.fuelFor text) text).map (d, ·)

/-- Whether a part has been read already. -/
def Draft.has (d : Draft) (key : String) : Bool :=
  (key == "error" && d.message.isSome) || (key == "code" && d.code.isSome) ||
    (key == "data" && d.data.isSome)

/-- Reads the fields of an object. -/
def readFields : Nat → Draft → Bool → List Char → Json.Scan ServerError
  | 0, _, _, text => .error (.before .endInObject text)
  | fuel + 1, d, first, text =>
    match Json.nextKey first text with
    | .error stop => .error stop
    | .ok (.close rest) =>
      match d.finish with
      | .ok answer => .ok (answer, rest)
      | .error reason => .error (.before (.mismatch reason) rest)
    | .ok (.item rest) =>
      match Json.stringBody rest with
      | .error stop => .error stop
      | .ok (key, rest) =>
        let key := String.ofList key
        if d.has key then refuse (.duplicateField key) '\x7d' rest
        else
          match Json.colon rest with
          | .error stop => .error stop
          | .ok rest =>
            match readField d key rest with
            | .error stop => .error stop
            | .ok (d, rest) => readFields fuel d false rest

/-- Checks that a list ends after its last part. -/
def closeList (text : List Char) : Except Json.Stop (List Char) :=
  match Json.skipSpaces text with
  | [] => .error (.on .endInList [])
  | ']' :: rest => .ok rest
  | ',' :: rest =>
    match Json.skipSpaces rest with
    | ']' :: rest => .error (.on .trailingComma (']' :: rest))
    | rest => .error (.on .trailingCharacters rest)
  | rest => .error (.on .trailingCharacters rest)

/-- Reads the next string of a list, the one after `count` others. -/
def readPart (count : Nat) (text : List Char) : Json.Scan String :=
  match Json.nextItem (count == 0) text with
  | .error stop => .error stop
  | .ok (.close rest) =>
    .error (.before (.mismatch (.wrongLength count (shape ++ " with 3 elements"))) rest)
  | .ok (.item rest) => Json.neededString rest

/-- Reads the parts of a list. -/
def readParts (text : List Char) : Json.Scan ServerError :=
  match readPart 0 text with
  | .error stop => .error stop
  | .ok (message, rest) =>
    match readPart 1 rest with
    | .error stop => .error stop
    | .ok (code, rest) =>
      match Json.nextItem false rest with
      | .error stop => .error stop
      | .ok (.close rest) => .ok (⟨message, code, none⟩, rest)
      | .ok (.item rest) =>
        match Json.optionalValue dataDepth rest with
        | .error stop => .error stop
        | .ok (data, rest) => (closeList rest).map (⟨message, code, data⟩, ·)

/-- Reads an answer from the front of a text. -/
def scan (text : List Char) : Json.Scan ServerError :=
  match Json.skipSpaces text with
  | [] => .error (.on .endInValue [])
  | '[' :: rest => readParts rest
  | '\x7b' :: rest => readFields (rest.length + 1) .empty true rest
  | rest => .error (Json.wrongType shape rest)

/-- Reads an answer. -/
def read (text : String) : Except Json.ReadError ServerError :=
  match scan text.toList with
  | .error stop => .error (stop.locate text.toList)
  | .ok (answer, rest) =>
    match Json.finished rest with
    | .error stop => .error (stop.locate text.toList)
    | .ok () => .ok answer

/-- The written fields, in their order. -/
def fields (answer : ServerError) : List (String × Json) :=
  ("error", .string answer.message) :: ("code", .string answer.code) ::
    match answer.data with
    | none => []
    | some data => [("data", data)]

/-- The text of an answer. -/
def write (answer : ServerError) : String :=
  (Json.object answer.fields).compact

/-- The validation failures of an answer, or nothing if its code is another one. -/
def failures? (answer : ServerError) : Except Mismatch (Option (List ValidationFailure)) :=
  if answer.code = invalidBodyCode then
    match answer.data with
    | none => .ok (some [])
    | some data => (ValidationFailure.bodyOfJson data).map some
  else .ok none

end ServerError

end Shipment
