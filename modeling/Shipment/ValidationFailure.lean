import Shipment.Json.Shape

/-!
# Validation failures

What the server finds wrong with a request: a location in the request body, as
the text of a pointer, and a reason.  A server may send a failure as an object
or as the list of its two parts, and the list of failures as the field of an
object or as the one item of a list.
-/

namespace Shipment

structure ValidationFailure where
  /-- The text of a pointer, which may be malformed. -/
  pointer : String
  reason : String
  deriving DecidableEq, Repr

namespace ValidationFailure

/-- Names the two parts in a message. -/
def shape : String := "struct ValidationFailure"

/-- Reads a failure from the list of its parts. -/
def ofItems : List Json → Except Mismatch ValidationFailure
  | [] => .error (.wrongLength 0 (shape ++ " with 2 elements"))
  | [pointer] =>
    match pointer.toText with
    | .error e => .error e
    | .ok _ => .error (.wrongLength 1 (shape ++ " with 2 elements"))
  | pointer :: reason :: more =>
    match pointer.toText, reason.toText with
    | .error e, _ => .error e
    | _, .error e => .error e
    | .ok pointer, .ok reason =>
      if more.isEmpty then .ok ⟨pointer, reason⟩
      else .error (.wrongLength (more.length + 2) "fewer elements in array")

/-- Reads a failure from an object.  A part of the wrong type is reported before
a missing one. -/
def ofFields (fields : List (String × Json)) : Except Mismatch ValidationFailure :=
  match Json.textField "pointer" fields, Json.textField "reason" fields with
  | .error e, _ => .error e
  | _, .error e => .error e
  | .ok none, _ => .error (.missingField "pointer")
  | _, .ok none => .error (.missingField "reason")
  | .ok (some pointer), .ok (some reason) => .ok ⟨pointer, reason⟩

def ofJson : Json → Except Mismatch ValidationFailure
  | .array items => ofItems items
  | .object fields => ofFields fields
  | value => value.refuse shape

def ofJsonList : List Json → Except Mismatch (List ValidationFailure)
  | [] => .ok []
  | item :: rest =>
    match ofJson item with
    | .error e => .error e
    | .ok failure => (ofJsonList rest).map (failure :: ·)

/-- The failures that a list holds. -/
def listOfJson : Json → Except Mismatch (List ValidationFailure)
  | .array items => ofJsonList items
  | value => value.refuse "a sequence"

/-- The field of the server's answer that holds the failures. -/
def fieldName : String := "jsv_errors"

/-- The failures in the data of a server's answer.  Without the field there are none. -/
def bodyOfJson : Json → Except Mismatch (List ValidationFailure)
  | .array [] => .ok []
  | .array (list :: more) =>
    match listOfJson list with
    | .error e => .error e
    | .ok failures =>
      if more.isEmpty then .ok failures
      else .error (.wrongLength (more.length + 1) "fewer elements in array")
  | .object fields =>
    match Fields.get? fieldName fields with
    | none => .ok []
    | some list => listOfJson list
  | value => value.refuse "struct InvalidRequestBody"

def toJson (failure : ValidationFailure) : Json :=
  .object [("pointer", .string failure.pointer), ("reason", .string failure.reason)]

/-- The data of a server's answer with these failures. -/
def bodyToJson (failures : List ValidationFailure) : Json :=
  .object [(fieldName, .array (failures.map toJson))]

end ValidationFailure

end Shipment
