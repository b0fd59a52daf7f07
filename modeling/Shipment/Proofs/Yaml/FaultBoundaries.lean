import Shipment.Proofs.Yaml.EventBoundaries
import Shipment.Yaml.Compose
import Shipment.Yaml.LoadFault

/-!
# Faults between characters

A document takes its marks from its events, and its value is refused at one of these marks or
for the fault that cuts the document short.  So a document that cannot be read has its fault
between two characters of the text, where the fault has a place at all.
-/

namespace Shipment.Yaml

variable {source : List Char}

/-- If the fault has a place, it is between characters. -/
def LoadFault.Within (source : List Char) (fault : LoadFault) : Prop :=
  ∀ mark ∈ fault.mark?, mark.Within source

/-- The pieces of the document are between characters, and so is what cuts it short. -/
structure Document.Within (source : List Char) (doc : Document) : Prop where
  pieces : ∀ piece ∈ doc.pieces, piece.2.Within source
  failure : ∀ fault ∈ doc.failure, fault.Within source

namespace Document

/-! ## Collected documents -/

/-- The pieces collected so far are between characters. -/
def Draft.Within (source : List Char) (d : Draft) : Prop :=
  ∀ piece ∈ d.pieces, piece.2.Within source

theorem Draft.within_empty : Draft.empty.Within source := by
  simp [Draft.Within, Draft.empty]

theorem Draft.Within.add {d : Draft} (h : d.Within source) (piece : Piece) {mark : Mark}
    (hmark : mark.Within source) : (d.add piece mark).Within source :=
  List.forall_mem_cons.2 ⟨hmark, h⟩

theorem Draft.Within.define {d : Draft} (h : d.Within source) (name : Option (List Char)) :
    (d.define name).Within source := by
  cases name with
  | none => exact h
  | some _ => exact h

theorem Draft.Within.close {d : Draft} (h : d.Within source) (failure : Option LoadFault)
    (hfailure : ∀ fault ∈ failure, fault.Within source) : (d.close failure).Within source where
  pieces := fun piece hpiece => h piece (List.mem_reverse.1 hpiece)
  failure := hfailure

theorem within_collect {fault : Option Fault} {first : Bool} {d : Draft}
    {events : List (Event × Mark)} (hfault : ∀ f ∈ fault, f.mark.Within source)
    (hevents : ∀ event ∈ events, event.2.Within source) (h : d.Within source) :
    ∀ doc ∈ collect fault first d events, doc.Within source := by
  induction events generalizing first d with
  | nil =>
      cases fault with
      | some f =>
          have hcut := h.close (some (.syntaxFault f))
            (by simpa [LoadFault.Within, LoadFault.mark?] using hfault)
          simpa [collect] using hcut
      | none =>
          have hvoid := (h.add .void Mark.within_start).close none (by simp)
          cases first with
          | true => simpa [collect] using hvoid
          | false => simp [collect]
  | cons event rest ih =>
      obtain ⟨event, mark⟩ := event
      obtain ⟨hmark, hrest⟩ := List.forall_mem_cons.1 hevents
      cases event with
      | documentStart => exact ih hrest h
      | documentEnd =>
          exact List.forall_mem_cons.2 ⟨h.close none (by simp), ih hrest Draft.within_empty⟩
      | aliasTo name =>
          have hcut := h.close (some (.unknownAnchor mark))
            (by simpa [LoadFault.Within, LoadFault.mark?] using hmark)
          rw [collect]
          split
          · exact ih hrest (h.add _ hmark)
          · simpa using hcut
      | scalar anchor tag text style => exact ih hrest ((h.define _).add _ hmark)
      | sequenceStart anchor tag => exact ih hrest ((h.define _).add _ hmark)
      | sequenceEnd => exact ih hrest (h.add _ hmark)
      | mappingStart anchor tag => exact ih hrest ((h.define _).add _ hmark)
      | mappingEnd => exact ih hrest (h.add _ hmark)

end Document

theorem within_documents (source : List Char) :
    ∀ doc ∈ documents source, doc.Within source := by
  obtain ⟨hevents, hfault⟩ := readsWithin_events source
  exact Document.within_collect hfault hevents Document.Draft.within_empty

/-! ## Composed values -/

namespace Document

variable {doc : Document}

theorem Within.ending (h : doc.Within source) : doc.ending.Within source := by
  unfold Document.ending
  cases heq : doc.failure with
  | none => simp [LoadFault.Within, LoadFault.mark?]
  | some fault => exact h.failure fault heq

theorem Within.target (h : doc.Within source) (number : Nat) :
    ∀ piece ∈ doc.target number, piece.2.Within source := by
  unfold Document.target
  split
  · exact fun piece hpiece => h.pieces piece (List.mem_of_mem_drop hpiece)
  · simp

end Document

namespace Compose

/-- A composed value leaves pieces between characters, and a refused one is refused there. -/
def EndsWithin (source : List Char) : Except LoadFault (Node × Rest) → Prop
  | .ok (_, rest) => ∀ piece ∈ rest.pieces, piece.2.Within source
  | .error fault => fault.Within source

variable {doc : Document} {result : Except LoadFault (Node × Rest)}

theorem EndsWithin.fault (h : EndsWithin source result) {fault : LoadFault}
    (heq : result = .error fault) : fault.Within source := by
  subst heq
  exact h

theorem EndsWithin.rest (h : EndsWithin source result) {node : Node} {rest : Rest}
    (heq : result = .ok (node, rest)) : ∀ piece ∈ rest.pieces, piece.2.Within source := by
  subst heq
  exact h

mutual

theorem endsWithin_value (fuel depth : Nat) (path : Path) (bare : Bool) {rest : Rest}
    (hdoc : doc.Within source) (h : ∀ piece ∈ rest.pieces, piece.2.Within source) :
    EndsWithin source (value doc fuel depth path bare rest) := by
  cases fuel with
  | zero =>
      rw [value]
      exact hdoc.ending
  | succ fuel =>
      rw [value]
      split
      · exact hdoc.ending
      · next piece mark more heq =>
          rw [heq] at h
          obtain ⟨hmark, hmore⟩ := List.forall_mem_cons.1 h
          have hplaced : ∀ fault : LoadFault, fault.mark? = some mark → fault.Within source := by
            intro fault heq
            simpa [LoadFault.Within, heq] using hmark
          split
          · have hbare : EndsWithin source (value doc fuel depth path true rest) :=
              endsWithin_value fuel depth path true hdoc (heq ▸ h)
            split
            · next heq => exact hbare.fault heq
            · next heq => exact hbare.rest heq
          split
          · next number _ =>
              split
              · simp [EndsWithin, LoadFault.Within, LoadFault.mark?]
              · have htarget : EndsWithin source (value doc fuel depth (.throughAlias path) false
                    ⟨doc.target number, rest.jumps + 1⟩) :=
                  endsWithin_value fuel depth _ false hdoc (hdoc.target number)
                split
                · next heq => exact htarget.fault heq
                · exact hmore
          · split
            · exact hplaced _ rfl
            · exact hmore
          · split
            · exact hplaced _ rfl
            · exact endsWithin_items hdoc hmore
          · split
            · exact hplaced _ rfl
            · exact endsWithin_entries hdoc hmark hmore
          · exact hmore
          · exact hdoc.ending
          · exact hdoc.ending
termination_by fuel

theorem endsWithin_items {fuel depth : Nat} {path : Path} {index : Nat} {found : List Node}
    {rest : Rest} (hdoc : doc.Within source)
    (h : ∀ piece ∈ rest.pieces, piece.2.Within source) :
    EndsWithin source (items doc fuel depth path index found rest) := by
  cases fuel with
  | zero =>
      rw [items]
      exact hdoc.ending
  | succ fuel =>
      have hitem := endsWithin_value fuel depth (.item path index) false hdoc h
      rw [items]
      split
      · exact hdoc.ending
      · next heq =>
          rw [heq] at h
          exact (List.forall_mem_cons.1 h).2
      · split
        · next heq => exact hitem.fault heq
        · next heq => exact endsWithin_items hdoc (hitem.rest heq)
termination_by fuel

theorem endsWithin_entries {fuel depth : Nat} {path : Path} {start : Mark}
    {found : List (Node × Node)} {rest : Rest} (hdoc : doc.Within source)
    (hstart : start.Within source) (h : ∀ piece ∈ rest.pieces, piece.2.Within source) :
    EndsWithin source (entries doc fuel depth path start found rest) := by
  cases fuel with
  | zero =>
      rw [entries]
      exact hdoc.ending
  | succ fuel =>
      have hkey := endsWithin_value fuel depth path false hdoc h
      rw [entries]
      split
      · exact hdoc.ending
      · next heq =>
          rw [heq] at h
          exact (List.forall_mem_cons.1 h).2
      · next piece _ _ _ _ =>
          split
          · next heq => exact hkey.fault heq
          · next heq =>
              split
              · simpa [EndsWithin, LoadFault.Within, LoadFault.mark?] using hstart
              · have hvalue := endsWithin_value fuel depth (piece.valuePath path) false hdoc
                  (hkey.rest heq)
                split
                · next heq => exact hvalue.fault heq
                · next heq => exact endsWithin_entries hdoc hstart (hvalue.rest heq)
termination_by fuel

end

end Compose

/-- A document whose value is refused has its fault between characters. -/
theorem Document.Within.fault {doc : Document} {fault : LoadFault} (h : doc.Within source)
    (hfault : doc.value = .error fault) : fault.Within source := by
  have hcomposed : Compose.EndsWithin source
      (Compose.value doc doc.fuel nestingLimit .root false ⟨doc.pieces, 0⟩) :=
    Compose.endsWithin_value _ _ _ _ h h.pieces
  unfold Document.value at hfault
  split at hfault
  · next heq =>
      cases hfault
      exact hcomposed.fault heq
  · split at hfault
    · next heq =>
        cases hfault
        exact h.failure _ heq
    · cases hfault

end Shipment.Yaml
