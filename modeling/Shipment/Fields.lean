/-!
# Fields in the order of their keys

An object and a directory bind keys to values, and keep them in increasing order of
the keys.  Insertion keeps that order and replaces the value of a key that is there
already.
-/

namespace Shipment.Fields

variable {κ α : Type} [DecidableEq κ]

/-- Puts a field at its place in an ordered list. -/
def insert [LT κ] [DecidableLT κ] (key : κ) (value : α) : List (κ × α) → List (κ × α)
  | [] => [(key, value)]
  | (k, v) :: rest =>
    if key < k then (key, value) :: (k, v) :: rest
    else if key = k then (key, value) :: rest
    else (k, v) :: insert key value rest

/-- The value of a key. -/
def get? (key : κ) : List (κ × α) → Option α
  | [] => none
  | (k, v) :: rest => if key = k then some v else get? key rest

/-- Applies `f` to the value of a key, if the key is there and `f` succeeds. -/
def modify? (key : κ) (f : α → Option α) : List (κ × α) → Option (List (κ × α))
  | [] => none
  | (k, v) :: rest =>
    if key = k then (f v).map fun w => (k, w) :: rest
    else (modify? key f rest).map fun more => (k, v) :: more

def ofList [LT κ] [DecidableLT κ] (fields : List (κ × α)) : List (κ × α) :=
  fields.foldl (fun acc field => insert field.1 field.2 acc) []

@[simp] theorem get?_insert_self [LT κ] [DecidableLT κ] (key : κ) (value : α)
    (fields : List (κ × α)) : get? key (insert key value fields) = some value := by
  induction fields with
  | nil => simp [insert, get?]
  | cons field rest ih =>
    obtain ⟨k, v⟩ := field
    unfold insert
    split
    · simp [get?]
    · split
      · simp [get?]
      · rename_i h
        simp [get?, h, ih]

end Shipment.Fields
