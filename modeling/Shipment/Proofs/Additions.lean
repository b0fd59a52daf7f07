import Mathlib.Data.List.ReduceOption
import Shipment.Columns

/-!
# Manifests that were filled

Whatever is put into the two lists of a manifest, they hold the parts of the same
entries: all that came, in their order.  A step moves none of the entries that are
there, so an entry that was pushed is still at the index that it was given then.
-/

namespace Shipment

/-- The entries that a step brings. -/
def Addition.entries : Addition → List Entry
  | .push entry => [entry]
  | .extend entries => entries

namespace Manifest

variable (m : Manifest)

/-- The two lists of a manifest. -/
def columns : Columns :=
  ⟨m.specs, m.origins⟩

theorem size_columns : m.columns.size = m.size :=
  List.length_map _

theorem get?_columns (index : Nat) :
    m.columns.get? index = (m.get? index).map fun entry => (entry.origin, entry.spec) := by
  simp only [Columns.get?, columns, origins, specs, get?, List.getElem?_map]
  cases m.entries[index]? <;> rfl

theorem pairs_columns :
    m.columns.pairs = m.entries.map fun entry => (entry.origin, entry.spec) :=
  List.zip_map' ..

theorem manifest_columns : m.columns.manifest = m := by
  rw [Columns.manifest, pairs_columns, List.map_map]
  exact congrArg Manifest.mk (List.map_id _)

/-! ## One step -/

/-- A pushed entry goes into both lists, and is given the number of those before it. -/
theorem push_columns (entry : Entry) :
    m.columns.push entry = ((m.push entry).columns, m.size) := by
  simp [Columns.push, columns, specs, origins, size]

theorem extend_columns (entries : List Entry) :
    m.columns.extend entries = (m.append entries).columns := by
  induction entries generalizing m with
  | nil => simp [Columns.extend, append]
  | cons entry rest ih =>
      rw [Columns.extend, push_columns, ih]
      simp [push, append]

theorem add_columns (addition : Addition) :
    (m.columns.add addition).1 = (m.append addition.entries).columns := by
  cases addition with
  | push entry => exact congrArg Prod.fst (m.push_columns entry)
  | extend entries => exact m.extend_columns entries

theorem index_add_push (entry : Entry) :
    (m.columns.add (.push entry)).2 = some m.size := by
  rw [Columns.add, push_columns]

theorem size_append (entries : List Entry) :
    (m.append entries).size = m.size + entries.length :=
  List.length_append

/-! ## Several steps -/

variable {m}

theorem addAll_columns {additions : List Addition} :
    (m.columns.addAll additions).1 = (m.append (additions.flatMap Addition.entries)).columns := by
  induction additions generalizing m with
  | nil => simp [Columns.addAll, append]
  | cons addition rest ih =>
      simp only [Columns.addAll, List.flatMap_cons]
      rw [add_columns, ih]
      simp [append]

/-- What a step gives back does not depend on the steps behind it. -/
theorem getElem?_addAll_push (before : List Addition) (entry : Entry) (after : List Addition) :
    (m.columns.addAll (before ++ .push entry :: after)).2[before.length]? =
      some (some (m.size + (before.flatMap Addition.entries).length)) := by
  induction before generalizing m with
  | nil => simp [Columns.addAll, index_add_push]
  | cons addition rest ih =>
      simp only [List.cons_append, Columns.addAll, List.length_cons, List.getElem?_cons_succ,
        List.flatMap_cons, List.length_append]
      rw [add_columns, ih, size_append, Nat.add_assoc]

/-- The steps behind a push do not move its entry. -/
theorem get?_append_push (before : List Addition) (entry : Entry) (after : List Addition) :
    (m.append ((before ++ .push entry :: after).flatMap Addition.entries)).get?
      (m.size + (before.flatMap Addition.entries).length) = some entry := by
  rw [get?, entries_append, List.flatMap_append, List.flatMap_cons, size, ← List.length_append,
    ← List.append_assoc, List.getElem?_append_right (Nat.le_refl _), Nat.sub_self]
  rfl

/-- A push gives back the index at which its entry is found in the end. -/
theorem exists_index_of_push {additions : List Addition} {step : Nat} {entry : Entry}
    (hstep : additions[step]? = some (.push entry)) :
    ∃ index, (m.columns.addAll additions).2[step]? = some (some index) ∧
      (m.append (additions.flatMap Addition.entries)).get? index = some entry := by
  obtain ⟨hlt, hat⟩ := List.getElem?_eq_some_iff.mp hstep
  have hsplit : additions = additions.take step ++ .push entry :: additions.drop (step + 1) := by
    rw [← hat, List.getElem_cons_drop, List.take_append_drop]
  have hlength : (additions.take step).length = step := List.length_take_of_le (Nat.le_of_lt hlt)
  have hindex := getElem?_addAll_push (m := m) (additions.take step) entry
    (additions.drop (step + 1))
  have hentry := get?_append_push (m := m) (additions.take step) entry (additions.drop (step + 1))
  rw [← hsplit] at hindex hentry
  rw [hlength] at hindex
  exact ⟨_, hindex, hentry⟩

/-- The indexes that are given out lie behind what is there, and no two are the same. -/
theorem pairwise_lt_addAll {additions : List Addition} :
    (∀ index ∈ (m.columns.addAll additions).2.reduceOption, m.size ≤ index) ∧
      (m.columns.addAll additions).2.reduceOption.Pairwise (· < ·) := by
  induction additions generalizing m with
  | nil => simp [Columns.addAll, List.reduceOption]
  | cons addition rest ih =>
      -- the indexes of later steps begin where this step ends
      obtain ⟨hbehind, hincreases⟩ := ih (m := m.append addition.entries)
      rw [size_append] at hbehind
      rw [← add_columns] at hbehind hincreases
      simp only [Columns.addAll]
      cases addition with
      | extend entries =>
          exact ⟨fun index hindex => Nat.le_of_add_right_le (hbehind index hindex), hincreases⟩
      | push entry =>
          have hbehind : ∀ index ∈ ((m.columns.add (.push entry)).1.addAll rest).2.reduceOption,
              m.size < index := hbehind
          rw [index_add_push, List.reduceOption_cons_of_some]
          refine ⟨?_, List.pairwise_cons.mpr ⟨hbehind, hincreases⟩⟩
          exact List.forall_mem_cons.mpr
            ⟨Nat.le_refl _, fun index hindex => Nat.le_of_lt (hbehind index hindex)⟩

end Manifest

namespace Columns

open Manifest (addAll_columns)

/-- However two empty lists are filled, they hold the parts of the entries that came, in
their order: as many documents as origins, each with its own, and nothing behind them.
Whatever follows, a pushed entry stays at the index that it was given, and no index is
given twice. -/
theorem addAll_keeps_entries (additions : List Addition) :
    let entries := additions.flatMap Addition.entries
    let filled := empty.addAll additions
    filled.1.size = entries.length ∧ filled.1.specs = entries.map (·.spec) ∧
      filled.1.origins = entries.map (·.origin) ∧
      (∀ index : Nat,
        filled.1.get? index = entries[index]?.map fun entry => (entry.origin, entry.spec)) ∧
      filled.1.pairs = entries.map (fun entry => (entry.origin, entry.spec)) ∧
      filled.1.manifest = ⟨entries⟩ ∧
      (∀ (step : Nat) (entry : Entry), additions[step]? = some (.push entry) →
        ∃ index, filled.2[step]? = some (some index) ∧
          filled.1.get? index = some (entry.origin, entry.spec)) ∧
      filled.2.reduceOption.Nodup := by
  intro entries filled
  have hfilled : filled.1 = (Manifest.empty.append entries).columns :=
    addAll_columns (m := Manifest.empty)
  refine ⟨?_, ?_, ?_, ?_, ?_, ?_, ?_, ?_⟩
  · rw [hfilled, Manifest.size_columns]
    rfl
  · rw [hfilled]
    rfl
  · rw [hfilled]
    rfl
  · intro index
    rw [hfilled, Manifest.get?_columns]
    rfl
  · rw [hfilled, Manifest.pairs_columns]
    rfl
  · rw [hfilled, Manifest.manifest_columns]
    rfl
  · intro step entry hstep
    obtain ⟨index, hindex, hentry⟩ := Manifest.exists_index_of_push (m := Manifest.empty) hstep
    refine ⟨index, hindex, ?_⟩
    rw [hfilled, Manifest.get?_columns, hentry]
    rfl
  · exact (Manifest.pairwise_lt_addAll (m := Manifest.empty)).2.imp Nat.ne_of_lt

/-- The same entry is pushed twice, with several others between. -/
def repeated (entry : Entry) : List Addition :=
  [.push entry, .extend [entry, entry], .push entry]

theorem repeated_keeps_index :
    let entry : Entry := ⟨⟨"a.yaml", 1⟩, .object []⟩
    (repeated entry)[2]? = some (.push entry) ∧
      ∃ index, (empty.addAll (repeated entry)).2[2]? = some (some index) ∧
        (empty.addAll (repeated entry)).1.get? index = some (entry.origin, entry.spec) ∧
        index = 3 := by
  intro entry
  have hstep : (repeated entry)[2]? = some (.push entry) := rfl
  obtain ⟨-, -, -, -, -, -, hpushed, -⟩ := addAll_keeps_entries (repeated entry)
  obtain ⟨index, hindex, hfound⟩ := hpushed 2 entry hstep
  have hthree : (empty.addAll (repeated entry)).2[2]? = some (some 3) := rfl
  refine ⟨hstep, index, hindex, hfound, ?_⟩
  simpa using hindex.symm.trans hthree

end Columns

end Shipment
