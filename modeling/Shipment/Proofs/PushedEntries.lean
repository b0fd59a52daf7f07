import Shipment.Project
import Shipment.Proofs.Additions
import Shipment.Proofs.Journal

/-!
# Compiling into two lists

A compilation can push each entry into the two lists of a manifest as soon as its
document is compiled, or collect the entries of all files first.  The two give the same
result and make the same notes, also where one of the documents fails, so that what is
known of lists that were filled holds of every manifest that is compiled.
-/

namespace Shipment

namespace Noted

variable {ε α β γ : Type}

theorem map_andThen (g : β → γ) (x : Noted (Except ε α)) (f : α → Noted (Except ε β)) :
    (x.andThen f).map (·.map g) = x.andThen fun a => (f a).map (·.map g) := by
  cases hx : x.value with
  | ok a => simp [andThen, map, hx]
  | error e => simp [andThen, map, hx, Except.map]

theorem andThen_map (g : α → β) (x : Noted (Except ε α)) (f : β → Noted (Except ε γ)) :
    (x.map (·.map g)).andThen f = x.andThen fun a => f (g a) := by
  cases hx : x.value with
  | ok a => simp [andThen, map, hx, Except.map]
  | error e => simp [andThen, map, hx, Except.map]

/-- Lets each element in turn change what was made of those before it, and stops at the
first failure. -/
def foldEach (step : γ → α → Noted (Except ε γ)) : γ → List α → Noted (Except ε γ)
  | made, [] => plain (.ok made)
  | made, a :: rest => (step made a).andThen fun next => foldEach step next rest

/-- Results that are put behind each other one by one are those of a pass. -/
theorem foldEach_eq_map_forEach {step : γ → α → Noted (Except ε γ)}
    {f : α → Noted (Except ε β)} {put : γ → β → γ}
    (hstep : ∀ made a, step made a = (f a).map (·.map (put made))) (made : γ) (items : List α) :
    foldEach step made items = (forEach f items).map (·.map (List.foldl put made)) := by
  induction items generalizing made with
  | nil => rfl
  | cons item rest ih =>
      rw [foldEach, hstep, andThen_map, forEach, map_andThen]
      refine andThen_congr fun b _ => ?_
      rw [ih (put made b)]
      cases hrest : (forEach f rest).value <;> simp [map, hrest, Except.map]

end Noted

namespace Columns

theorem extend_eq_foldl (c : Columns) (entries : List Entry) :
    c.extend entries = entries.foldl (fun made entry => (made.push entry).1) c := by
  induction entries generalizing c with
  | nil => rfl
  | cons entry rest ih => exact ih _

theorem extend_append (c : Columns) (front back : List Entry) :
    c.extend (front ++ back) = (c.extend front).extend back := by
  simp only [extend_eq_foldl, List.foldl_append]

/-- Parts that are put in one after the other are put in as one. -/
theorem foldl_extend (c : Columns) (parts : List (List Entry)) :
    parts.foldl extend c = c.extend parts.flatten := by
  induction parts generalizing c with
  | nil => rfl
  | cons part rest ih => rw [List.foldl_cons, ih, List.flatten_cons, extend_append]

/-- Entries that are put into empty lists make up a manifest. -/
theorem extend_empty (entries : List Entry) :
    empty.extend entries = (Manifest.mk entries).columns :=
  Manifest.empty.extend_columns entries

end Columns

namespace Project

variable (p : Project)

/-- Compiles a document and puts its entry behind the others. -/
def pushDocument (made : Columns) (document : SourceDocument) :
    Noted (Except CompileError Columns) :=
  (p.compileDocument document).map (·.map fun entry => (made.push entry).1)

/-- Loads a file and puts the entries of its documents behind the others. -/
def pushFile (made : Columns) (path : String) : Noted (Except CompileError Columns) :=
  (SourceDocument.ofFile p.files p.root path).andThen (Noted.foldEach p.pushDocument made)

theorem pushFile_eq (made : Columns) (path : String) :
    p.pushFile made path = (p.compileFile path).map (·.map made.extend) := by
  rw [pushFile, compileFile, Noted.map_andThen]
  refine Noted.andThen_congr fun documents _ => ?_
  rw [show made.extend = _ from funext made.extend_eq_foldl]
  exact Noted.foldEach_eq_map_forEach (fun _ _ => rfl) made documents

/-- A compilation pushes the entries of the listed files, document by document, into two
empty lists, and its manifest is what they hold in the end. -/
theorem compile_eq_pushed :
    p.compile =
      (p.findFiles.andThen (Noted.foldEach p.pushFile .empty)).andThen fun filled =>
        .after .debug
          ("compiled " ++ toString filled.size ++ " documents from " ++ Text.ofBytes p.root)
          (.plain (.ok filled.manifest)) := by
  have hfiles : Noted.foldEach p.pushFile .empty = fun paths =>
      (Noted.forEach p.compileFile paths).map
        (·.map fun parts => Columns.empty.extend parts.flatten) := by
    funext paths
    rw [Noted.foldEach_eq_map_forEach p.pushFile_eq]
    simp only [← Columns.foldl_extend]
  rw [hfiles, ← Noted.map_andThen, Noted.andThen_map, compile]
  simp only [Columns.extend_empty, Manifest.size_columns, Manifest.manifest_columns]

end Project

end Shipment
