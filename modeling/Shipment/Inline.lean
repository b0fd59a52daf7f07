import Shipment.CompileError
import Shipment.Journal
import Shipment.Json.Lookup
import Shipment.Manifest

/-!
# Sources of task steps

A step of a task may name a file as its source.  The text of that file goes into
the `code` field of the step, whatever was there before.  The path of a source is
taken from the root of the project.  Steps are handled in order up to the first
whose source is of the wrong type or cannot be read; those before it keep their
code.
-/

namespace Shipment

/-- Whose steps are handled, and where their sources are. -/
structure TaskContext where
  files : FileSystem
  root : FilePath
  taskType : String
  origin : Origin

namespace TaskContext

/-- The type of a document, if it is a string. -/
def typeOf (spec : Json) : Option String :=
  (spec.get? ⟨["type"]⟩).bind Json.string?

/-- The location of the steps of a task. -/
def stepsPointer : Pointer := ⟨["data", "steps"]⟩

/-- The path of a source; slashes in front of it do not count. -/
def sourcePath (ctx : TaskContext) (source : String) : FilePath :=
  FilePath.join ctx.root (String.ofList (source.toList.dropWhile (· == '/')))

/-- The step with its code, where it has a source. -/
def inlineStep (ctx : TaskContext) (index : Nat) (step : Json) :
    Noted (Except CompileError Json) :=
  match step with
  | .object fields =>
    match Fields.get? "source" fields with
    | none => .plain (.ok step)
    | some (.string source) =>
      let path := ctx.sourcePath source
      .after .debug ("loading task step source file " ++ Text.ofBytes path) <| .plain <|
        match ctx.files.readText path with
        | .error cause =>
          .error (.sourceUnreadable ctx.origin.path ctx.origin.document path cause)
        | .ok code => .ok (.object (Fields.insert "code" (.string code) fields))
    | some _ => .plain (.error (.sourceNotString ctx.origin.path ctx.origin.document index))
  | _ => .plain (.ok step)

/-- The steps, the first of which has the given index, with code up to the first
failure, and that failure. -/
def inlineSteps (ctx : TaskContext) (index : Nat) :
    List Json → Noted (List Json × Option CompileError)
  | [] => .plain ([], none)
  | step :: rest =>
    let first := ctx.inlineStep index step
    match first.value with
    | .error e => ⟨first.notes, (step :: rest, some e)⟩
    | .ok step =>
      let more := ctx.inlineSteps (index + 1) rest
      ⟨first.notes ++ more.notes, (step :: more.value.1, more.value.2)⟩

/-- The document with the code of its steps, and whether it is a task. -/
def inlineSources (ctx : TaskContext) (spec : Json) : Noted (Json × Except CompileError Bool) :=
  if typeOf spec ≠ some ctx.taskType then .plain (spec, .ok false)
  else
    match spec.get? stepsPointer with
    | some (.array steps) =>
      let found := ctx.inlineSteps 0 steps
      let spec := (spec.set? stepsPointer (.array found.value.1)).getD spec
      ⟨found.notes, (spec, match found.value.2 with
        | none => .ok true
        | some e => .error e)⟩
    | _ => .plain (spec, .ok true)

end TaskContext

end Shipment
