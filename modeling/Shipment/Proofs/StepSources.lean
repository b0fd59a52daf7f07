import Mathlib.Data.List.Forall2
import Shipment.Inline
import Shipment.Proofs.Fields
import Shipment.Proofs.Journal

/-!
# Sources of task steps

The steps of a task are handled in order up to the first that fails.  Those before it that
have a source get the text of that file as their code, and nothing else in the document
changes.  So the second time a document is handled, every step comes out as it went in.
-/

namespace Shipment

namespace Fields

variable {α : Type}

theorem insert_insert (key : String) (value : α) (fields : List (String × α)) :
    insert key value (insert key value fields) = insert key value fields := by
  induction fields with
  | nil => simp [insert]
  | cons field rest ih =>
      obtain ⟨k, v⟩ := field
      rw [insert]
      split
      · simp [insert]
      · split
        · simp [insert]
        · next hlt hne => rw [insert, if_neg hlt, if_neg hne, ih]

end Fields

namespace TaskContext

variable {ctx : TaskContext} {index : Nat}

/-! ## Steps -/

/-- What a step becomes that has no source, or one that is read. -/
inductive Inlined (ctx : TaskContext) : Json → Json → Prop
  | asItIs {step : Json}
      (hsource : ∀ fields, step = .object fields → Fields.get? "source" fields = none) :
      Inlined ctx step step
  | withCode {fields : List (String × Json)} {source code : String}
      (hsource : Fields.get? "source" fields = some (.string source))
      (hread : ctx.files.readText (ctx.sourcePath source) = .ok code) :
      Inlined ctx (.object fields) (.object (Fields.insert "code" (.string code) fields))

/-- Why the step at an index fails: its source is no string, or the file cannot be read. -/
inductive Fails (ctx : TaskContext) (index : Nat) : Json → CompileError → Prop
  | notString {fields : List (String × Json)} {value : Json}
      (hsource : Fields.get? "source" fields = some value)
      (hkind : ∀ source, value ≠ .string source) :
      Fails ctx index (.object fields)
        (.sourceNotString ctx.origin.path ctx.origin.document index)
  | unreadable {fields : List (String × Json)} {source : String} {cause : IoError}
      (hsource : Fields.get? "source" fields = some (.string source))
      (hread : ctx.files.readText (ctx.sourcePath source) = .error cause) :
      Fails ctx index (.object fields)
        (.sourceUnreadable ctx.origin.path ctx.origin.document (ctx.sourcePath source) cause)

theorem Inlined.value {step result : Json} (h : ctx.Inlined step result) :
    (ctx.inlineStep index step).value = .ok result := by
  cases h with
  | asItIs hsource =>
      cases step with
      | object fields => simp [inlineStep, hsource fields rfl]
      | _ => rfl
  | withCode hsource hread => simp [inlineStep, hsource, hread]

theorem Fails.value {step : Json} {e : CompileError} (h : ctx.Fails index step e) :
    (ctx.inlineStep index step).value = .error e := by
  cases h with
  | @notString fields value hsource hkind =>
      cases value with
      | string source => exact absurd rfl (hkind source)
      | _ => simp [inlineStep, hsource]
  | unreadable hsource hread => simp [inlineStep, hsource, hread]

theorem inlined_or_fails (ctx : TaskContext) (index : Nat) (step : Json) :
    (∃ result, ctx.Inlined step result) ∨ ∃ e, ctx.Fails index step e := by
  cases step with
  | object fields =>
      cases hsource : Fields.get? "source" fields with
      | none =>
          refine Or.inl ⟨_, .asItIs ?_⟩
          rintro own ⟨⟩
          exact hsource
      | some value =>
          cases value with
          | string source =>
              cases hread : ctx.files.readText (ctx.sourcePath source) with
              | ok code => exact Or.inl ⟨_, .withCode hsource hread⟩
              | error cause => exact Or.inr ⟨_, .unreadable hsource hread⟩
          | _ => exact Or.inr ⟨_, .notString hsource (by simp)⟩
  | _ => exact Or.inl ⟨_, .asItIs (by simp)⟩

/-- A step with its code is handled like the step without it. -/
theorem Inlined.inlineStep_eq {step result : Json} (h : ctx.Inlined step result) :
    ctx.inlineStep index result = ctx.inlineStep index step := by
  cases h with
  | asItIs hsource => rfl
  | withCode hsource hread =>
      simp [inlineStep, Fields.get?_insert, Fields.insert_insert, hsource, hread]

/-! ## Steps in order -/

/-- What becomes of the steps, the first of which has the given index: all are inlined, or
those before the first that fails. -/
inductive StepsInlined (ctx : TaskContext) (index : Nat) :
    List Json → List Json → Option CompileError → Prop
  | all {steps results : List Json} (hsteps : List.Forall₂ ctx.Inlined steps results) :
      StepsInlined ctx index steps results none
  | upTo {before done : List Json} {step : Json} {e : CompileError}
      (hbefore : List.Forall₂ ctx.Inlined before done)
      (hstep : ctx.Fails (index + before.length) step e) (after : List Json) :
      StepsInlined ctx index (before ++ step :: after) (done ++ step :: after) (some e)

theorem StepsInlined.cons {step result : Json} {rest results : List Json}
    {failure : Option CompileError} (hstep : ctx.Inlined step result)
    (hrest : ctx.StepsInlined (index + 1) rest results failure) :
    ctx.StepsInlined index (step :: rest) (result :: results) failure := by
  cases hrest with
  | all hsteps => exact .all (.cons hstep hsteps)
  | @upTo before done last e hbefore hfails after =>
      have hfails : ctx.Fails (index + (step :: before).length) last e := by
        rw [List.length_cons, Nat.add_comm before.length 1, ← Nat.add_assoc]
        exact hfails
      exact .upTo (.cons hstep hbefore) hfails after

theorem value_inlineSteps_cons {step result : Json} (hstep : ctx.Inlined step result)
    (rest : List Json) : (ctx.inlineSteps index (step :: rest)).value =
      (result :: (ctx.inlineSteps (index + 1) rest).value.1,
        (ctx.inlineSteps (index + 1) rest).value.2) := by
  rw [inlineSteps]
  simp only [hstep.value]

theorem value_inlineSteps_of_fails {step : Json} {e : CompileError}
    (hstep : ctx.Fails index step e) (rest : List Json) :
    (ctx.inlineSteps index (step :: rest)).value = (step :: rest, some e) := by
  rw [inlineSteps]
  simp only [hstep.value]

theorem stepsInlined (ctx : TaskContext) (index : Nat) (steps : List Json) :
    ctx.StepsInlined index steps (ctx.inlineSteps index steps).value.1
      (ctx.inlineSteps index steps).value.2 := by
  induction steps generalizing index with
  | nil => exact .all .nil
  | cons step rest ih =>
      rcases ctx.inlined_or_fails index step with ⟨result, hstep⟩ | ⟨e, hstep⟩
      · rw [value_inlineSteps_cons hstep]
        exact (ih (index + 1)).cons hstep
      · rw [value_inlineSteps_of_fails hstep]
        have hfirst : ctx.Fails (index + ([] : List Json).length) step e := hstep
        exact .upTo .nil hfirst rest

theorem value_inlineSteps_append {before done : List Json}
    (hbefore : List.Forall₂ ctx.Inlined before done) (rest : List Json) :
    (ctx.inlineSteps index (before ++ rest)).value =
      (done ++ (ctx.inlineSteps (index + before.length) rest).value.1,
        (ctx.inlineSteps (index + before.length) rest).value.2) := by
  induction hbefore generalizing index with
  | nil => rfl
  | @cons step result before done hstep hbefore ih =>
      have hindex : index + (step :: before).length = index + 1 + before.length := by
        rw [List.length_cons, Nat.add_comm before.length 1, Nat.add_assoc]
      rw [List.cons_append, value_inlineSteps_cons hstep, ih, hindex]
      rfl

/-- The steps have one outcome only. -/
theorem StepsInlined.value {steps results : List Json} {failure : Option CompileError}
    (h : ctx.StepsInlined index steps results failure) :
    (ctx.inlineSteps index steps).value = (results, failure) := by
  cases h with
  | all hsteps =>
      have hvalue : (ctx.inlineSteps index (steps ++ [])).value = _ :=
        value_inlineSteps_append hsteps []
      simpa [inlineSteps] using hvalue
  | upTo hbefore hstep after =>
      rw [value_inlineSteps_append hbefore, value_inlineSteps_of_fails hstep]

/-- Without a failure, all steps are inlined. -/
theorem forall₂_inlined {steps : List Json}
    (hsteps : (ctx.inlineSteps index steps).value.2 = none) :
    List.Forall₂ ctx.Inlined steps (ctx.inlineSteps index steps).value.1 := by
  generalize hresults : (ctx.inlineSteps index steps).value.1 = results
  have houtcome := ctx.stepsInlined index steps
  rw [hsteps, hresults] at houtcome
  cases houtcome with
  | all hinlined => exact hinlined

/-- Steps that were handled before are handled in the same way again. -/
theorem inlineSteps_again (steps : List Json) :
    ctx.inlineSteps index (ctx.inlineSteps index steps).value.1 = ctx.inlineSteps index steps := by
  induction steps generalizing index with
  | nil => rfl
  | cons step rest ih =>
      rcases ctx.inlined_or_fails index step with ⟨result, hstep⟩ | ⟨e, hstep⟩
      · rw [value_inlineSteps_cons hstep, inlineSteps, inlineSteps, hstep.inlineStep_eq]
        simp only [hstep.value, ih]
      · rw [value_inlineSteps_of_fails hstep]

/-! ## Documents -/

/-- The document is an object with this type. -/
def HasType (spec : Json) (type : String) : Prop :=
  ∃ fields, spec = .object fields ∧ Fields.get? "type" fields = some (.string type)

/-- The document has these steps in its data. -/
def HasSteps (spec : Json) (steps : List Json) : Prop :=
  ∃ fields data, spec = .object fields ∧ Fields.get? "data" fields = some (.object data) ∧
    Fields.get? "steps" data = some (.array steps)

/-- The documents differ in the steps in their data at most. -/
inductive StepsReplaced (steps results : List Json) : Json → Json → Prop
  | intro {fields data data' fields' : List (String × Json)}
      (hdata : Fields.Replaced "data" (.object data) (.object data') fields fields')
      (hsteps : Fields.Replaced "steps" (.array steps) (.array results) data data') :
      StepsReplaced steps results (.object fields) (.object fields')

variable {spec spec' : Json} {steps results : List Json}

/-- A segment that is no index leads on from objects only. -/
theorem lookup_eq_some_iff_of_index? {segment : String} (hsegment : Json.index? segment = none)
    {rest : List String} {value target : Json} :
    Json.lookup (segment :: rest) value = some target ↔ ∃ fields below,
      value = .object fields ∧ Fields.get? segment fields = some below ∧
        Json.lookup rest below = some target := by
  cases value with
  | object fields => simp [Json.lookup, Json.child?, Option.bind_eq_some_iff]
  | array items => simp [Json.lookup, Json.child?, hsegment]
  | _ => simp [Json.lookup, Json.child?]

theorem typeOf_eq_some_iff {type : String} : typeOf spec = some type ↔ HasType spec type := by
  have hlookup : ∀ value, spec.get? ⟨["type"]⟩ = some value ↔
      ∃ fields, spec = .object fields ∧ Fields.get? "type" fields = some value := by
    intro value
    rw [Json.get?, lookup_eq_some_iff_of_index? (by decide)]
    simp [Json.lookup]
  have hstring : ∀ value : Json, value.string? = some type ↔ value = .string type := by
    intro value
    cases value <;> simp [Json.string?]
  simp only [typeOf, Option.bind_eq_some_iff, hlookup, hstring, HasType]
  constructor
  · rintro ⟨_, hfields, rfl⟩
    exact hfields
  · intro hfields
    exact ⟨_, hfields, rfl⟩

theorem get?_stepsPointer_iff :
    spec.get? stepsPointer = some (.array steps) ↔ HasSteps spec steps := by
  have hindex : Json.index? "steps" = none := by decide
  rw [Json.get?, stepsPointer, lookup_eq_some_iff_of_index? (by decide)]
  simp only [lookup_eq_some_iff_of_index? hindex]
  constructor
  · rintro ⟨fields, _, rfl, hdata, data, _, rfl, hsteps, hlast⟩
    cases hlast
    exact ⟨fields, data, rfl, hdata, hsteps⟩
  · rintro ⟨fields, data, rfl, hdata, hsteps⟩
    exact ⟨fields, _, rfl, hdata, data, _, rfl, hsteps, rfl⟩

theorem StepsReplaced.hasSteps (h : StepsReplaced steps results spec spec') :
    HasSteps spec steps := by
  obtain ⟨hdata, hsteps⟩ := h
  exact ⟨_, _, rfl, hdata.get?, hsteps.get?⟩

theorem StepsReplaced.again (h : StepsReplaced steps results spec spec') :
    StepsReplaced results results spec' spec' := by
  obtain ⟨hdata, hsteps⟩ := h
  exact ⟨hdata.again, hsteps.again⟩

theorem StepsReplaced.hasType_iff (h : StepsReplaced steps results spec spec') {type : String} :
    HasType spec' type ↔ HasType spec type := by
  obtain ⟨hdata, hsteps⟩ := h
  simp [HasType, hdata.get?_of_ne]

theorem StepsReplaced.set? (h : StepsReplaced steps results spec spec') :
    spec.set? stepsPointer (.array results) = some spec' := by
  obtain ⟨hdata, hsteps⟩ := h
  rw [Json.set?, stepsPointer, Json.modify?, Json.modifyChild?, hdata.modify?]
  · rfl
  · rw [Json.modify?, Json.modifyChild?, hsteps.modify?]
    · rfl
    · rfl

theorem exists_stepsReplaced (h : HasSteps spec steps) (results : List Json) :
    ∃ spec', StepsReplaced steps results spec spec' := by
  obtain ⟨fields, data, rfl, hdata, hsteps⟩ := h
  obtain ⟨data', hdata'⟩ := Fields.exists_replaced hsteps (.array results)
  obtain ⟨fields', hfields'⟩ := Fields.exists_replaced hdata (.object data')
  exact ⟨_, hfields', hdata'⟩

/-- What becomes of a document.  Another type, or no steps, leave it as it is.  Of a task, the
steps are replaced by what becomes of them, and the first that fails gives the error. -/
inductive SourcesInlined (ctx : TaskContext) (spec : Json) :
    Json → Except CompileError Bool → Prop
  | other (htype : ¬HasType spec ctx.taskType) : SourcesInlined ctx spec spec (.ok false)
  | bare (htype : HasType spec ctx.taskType) (hsteps : ¬∃ steps, HasSteps spec steps) :
      SourcesInlined ctx spec spec (.ok true)
  | done {steps results : List Json} {spec' : Json} (htype : HasType spec ctx.taskType)
      (hspec : StepsReplaced steps results spec spec')
      (hsteps : ctx.StepsInlined 0 steps results none) : SourcesInlined ctx spec spec' (.ok true)
  | failed {steps results : List Json} {spec' : Json} {e : CompileError}
      (htype : HasType spec ctx.taskType) (hspec : StepsReplaced steps results spec spec')
      (hsteps : ctx.StepsInlined 0 steps results (some e)) :
      SourcesInlined ctx spec spec' (.error e)

theorem inlineSources_of_not_hasType (htype : ¬HasType spec ctx.taskType) :
    ctx.inlineSources spec = .plain (spec, .ok false) := by
  rw [← typeOf_eq_some_iff] at htype
  rw [inlineSources, if_pos htype]

theorem inlineSources_of_not_hasSteps (htype : HasType spec ctx.taskType)
    (hsteps : ¬∃ steps, HasSteps spec steps) :
    ctx.inlineSources spec = .plain (spec, .ok true) := by
  rw [← typeOf_eq_some_iff] at htype
  simp only [← get?_stepsPointer_iff] at hsteps
  rw [inlineSources, if_neg (not_not.mpr htype)]
  split
  · next steps hown => exact absurd ⟨steps, hown⟩ hsteps
  · rfl

theorem inlineSources_of_stepsReplaced (htype : HasType spec ctx.taskType)
    (hspec : StepsReplaced steps (ctx.inlineSteps 0 steps).value.1 spec spec') :
    ctx.inlineSources spec = ⟨(ctx.inlineSteps 0 steps).notes, spec',
      match (ctx.inlineSteps 0 steps).value.2 with
      | none => .ok true
      | some e => .error e⟩ := by
  rw [← typeOf_eq_some_iff] at htype
  have hset : (spec.set? stepsPointer (.array (ctx.inlineSteps 0 steps).value.1)).getD spec
      = spec' := by
    rw [hspec.set?, Option.getD_some]
  rw [inlineSources, if_neg (not_not.mpr htype), get?_stepsPointer_iff.mpr hspec.hasSteps]
  exact congrArg (fun result => Noted.mk (ctx.inlineSteps 0 steps).notes (result, _)) hset

/-- A document is no task, has no steps, or has steps to handle. -/
inductive SpecCase (ctx : TaskContext) (spec : Json) : Prop
  | other (htype : ¬HasType spec ctx.taskType)
  | bare (htype : HasType spec ctx.taskType) (hsteps : ¬∃ steps, HasSteps spec steps)
  | task (steps : List Json) (spec' : Json) (htype : HasType spec ctx.taskType)
      (hspec : StepsReplaced steps (ctx.inlineSteps 0 steps).value.1 spec spec')

theorem specCase (ctx : TaskContext) (spec : Json) : ctx.SpecCase spec := by
  by_cases htype : HasType spec ctx.taskType
  · by_cases hsteps : ∃ steps, HasSteps spec steps
    · obtain ⟨steps, hown⟩ := hsteps
      obtain ⟨spec', hspec⟩ := exists_stepsReplaced hown (ctx.inlineSteps 0 steps).value.1
      exact .task steps spec' htype hspec
    · exact .bare htype hsteps
  · exact .other htype

theorem sourcesInlined (ctx : TaskContext) (spec : Json) :
    ctx.SourcesInlined spec (ctx.inlineSources spec).value.1 (ctx.inlineSources spec).value.2 := by
  cases ctx.specCase spec with
  | other htype =>
      rw [inlineSources_of_not_hasType htype]
      exact .other htype
  | bare htype hsteps =>
      rw [inlineSources_of_not_hasSteps htype hsteps]
      exact .bare htype hsteps
  | task steps spec' htype hspec =>
      have hsteps := ctx.stepsInlined 0 steps
      rw [inlineSources_of_stepsReplaced htype hspec]
      cases hfailed : (ctx.inlineSteps 0 steps).value.2 with
      | none =>
          rw [hfailed] at hsteps
          exact .done htype hspec hsteps
      | some e =>
          rw [hfailed] at hsteps
          exact .failed htype hspec hsteps

/-- Only one thing can become of a document. -/
theorem SourcesInlined.value {result : Except CompileError Bool}
    (h : ctx.SourcesInlined spec spec' result) :
    (ctx.inlineSources spec).value = (spec', result) := by
  cases h with
  | other htype => rw [inlineSources_of_not_hasType htype, Noted.value_plain]
  | bare htype hsteps => rw [inlineSources_of_not_hasSteps htype hsteps, Noted.value_plain]
  | done htype hspec hsteps =>
      have hvalue := hsteps.value
      rw [inlineSources_of_stepsReplaced htype (by rw [hvalue]; exact hspec), hvalue]
  | failed htype hspec hsteps =>
      have hvalue := hsteps.value
      rw [inlineSources_of_stepsReplaced htype (by rw [hvalue]; exact hspec), hvalue]

/-- A document of another type and a task without steps stay as they are.  In any other task,
the steps before the first that fails, or all of them, get the text of their sources as their
code, nothing else changes, and the result is the error of the step that fails. -/
theorem value_inlineSources_eq_iff (ctx : TaskContext) (spec spec' : Json)
    (result : Except CompileError Bool) :
    (ctx.inlineSources spec).value = (spec', result) ↔ ctx.SourcesInlined spec spec' result := by
  constructor
  · intro hvalue
    have houtcome := ctx.sourcesInlined spec
    rw [hvalue] at houtcome
    exact houtcome
  · exact SourcesInlined.value

/-- A document that was handled before, with or without a failure, is handled in the same way
again: it stays as it is, with the same result and the same notes. -/
theorem inlineSources_again (ctx : TaskContext) (spec : Json) :
    ctx.inlineSources (ctx.inlineSources spec).value.1 = ctx.inlineSources spec := by
  cases ctx.specCase spec with
  | other htype => rw [inlineSources_of_not_hasType htype, Noted.value_plain,
      inlineSources_of_not_hasType htype]
  | bare htype hsteps => rw [inlineSources_of_not_hasSteps htype hsteps, Noted.value_plain,
      inlineSources_of_not_hasSteps htype hsteps]
  | task steps spec' htype hspec =>
      have hagain : ctx.inlineSteps 0 (ctx.inlineSteps 0 steps).value.1 = ctx.inlineSteps 0 steps :=
        inlineSteps_again steps
      have hspec' : StepsReplaced (ctx.inlineSteps 0 steps).value.1
          (ctx.inlineSteps 0 (ctx.inlineSteps 0 steps).value.1).value.1 spec' spec' := by
        rw [hagain]
        exact hspec.again
      rw [inlineSources_of_stepsReplaced htype hspec,
        inlineSources_of_stepsReplaced (hspec.hasType_iff.mpr htype) hspec', hagain]

end TaskContext

end Shipment
