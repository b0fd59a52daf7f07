/-!
# Journal

What the library does along the way is noted in a journal: each function that
reads files gives its notes together with its result, in the order in which
things happened, and the notes up to a failure are kept.
-/

namespace Shipment

inductive NoteLevel where
  | debug
  | trace
  deriving DecidableEq, Repr

structure Note where
  level : NoteLevel
  text : String
  deriving DecidableEq, Repr

/-- A result with the notes made on the way to it. -/
structure Noted (α : Type) where
  notes : List Note
  value : α

namespace Noted

/-- A result without notes. -/
def plain {α : Type} (value : α) : Noted α := ⟨[], value⟩

/-- Makes a note before the rest. -/
def after {α : Type} (level : NoteLevel) (text : String) (rest : Noted α) : Noted α :=
  ⟨⟨level, text⟩ :: rest.notes, rest.value⟩

def map {α β : Type} (f : α → β) (x : Noted α) : Noted β :=
  ⟨x.notes, f x.value⟩

/-- The results of both, the notes of the first before those of the second. -/
def append {α : Type} (x y : Noted (List α)) : Noted (List α) :=
  ⟨x.notes ++ y.notes, x.value ++ y.value⟩

/-- Goes on with the result, unless it is a failure. -/
def andThen {ε α β : Type} (x : Noted (Except ε α)) (f : α → Noted (Except ε β)) :
    Noted (Except ε β) :=
  match x.value with
  | .ok a => ⟨x.notes ++ (f a).notes, (f a).value⟩
  | .error e => ⟨x.notes, .error e⟩

/-- Applies a function that may fail to each element in turn and stops at the
first failure. -/
def forEach {ε α β : Type} (f : α → Noted (Except ε β)) : List α → Noted (Except ε (List β))
  | [] => plain (.ok [])
  | a :: rest => (f a).andThen fun b => (forEach f rest).map (·.map (b :: ·))

end Noted

end Shipment
