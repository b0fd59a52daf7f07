import Mathlib.Data.List.Basic
import Shipment.Text.Quoted

/-!
# Lines of a text

A text that is joined from others with line feeds has the lines of each of them,
so it has as many lines as there were texts exactly if no text has a line feed of
its own.  Quoted texts and numbers have none.
-/

namespace Shipment.Text

/-- The text has more than one line. -/
def HasLineFeed (text : String) : Prop :=
  '\n' ∈ text.toList

instance (text : String) : Decidable (HasLineFeed text) :=
  inferInstanceAs (Decidable ('\n' ∈ text.toList))

theorem hasLineFeed_append {left right : String} :
    HasLineFeed (left ++ right) ↔ HasLineFeed left ∨ HasLineFeed right := by
  simp [HasLineFeed]

/-! ## Joined texts -/

section Joined

variable {α : Type} [DecidableEq α] {separator : α} {parts : List (List α)}

theorem length_splitOn_pos (separator : α) (part : List α) : 1 ≤ (part.splitOn separator).length :=
  List.length_pos_iff.mpr (List.splitOn_ne_nil separator part)

theorem length_splitOn_eq_one_iff {part : List α} :
    (part.splitOn separator).length = 1 ↔ separator ∉ part := by
  constructor
  · intro hlength hmem
    obtain ⟨front, back, rfl⟩ := List.append_of_mem hmem
    rw [List.splitOn_append_cons_self, List.length_append] at hlength
    have hfront := length_splitOn_pos separator front
    have hback := length_splitOn_pos separator back
    omega
  · intro hmem
    rw [List.splitOn_eq_singleton hmem]
    rfl

omit [DecidableEq α] in
/-- A joined list is split at the separators between its parts and inside them, and
where the parts are split besides. -/
theorem splitOnP_intercalate_eq_flatMap {p : α → Bool} (hseparator : p separator = true)
    (hparts : parts ≠ []) :
    ([separator].intercalate parts).splitOnP p = parts.flatMap (·.splitOnP p) := by
  induction parts with
  | nil => exact absurd rfl hparts
  | cons part rest ih =>
      cases rest with
      | nil => simp
      | cons next more =>
          rw [List.intercalate_cons_cons, List.flatMap_cons, ← ih (List.cons_ne_nil next more)]
          simp [List.splitOnP_append_cons, hseparator]

/-- A finer cut goes on inside the pieces of a coarser one. -/
theorem splitOnP_eq_flatMap_splitOn {p : α → Bool} (hseparator : p separator = true)
    (part : List α) : part.splitOnP p = (part.splitOn separator).flatMap (·.splitOnP p) := by
  have hpieces := List.splitOn_ne_nil separator part
  rw [← splitOnP_intercalate_eq_flatMap hseparator hpieces, List.intercalate_splitOn]

theorem splitOn_intercalate_eq_flatMap (hparts : parts ≠ []) :
    ([separator].intercalate parts).splitOn separator = parts.flatMap (·.splitOn separator) := by
  simp only [List.splitOn_eq_splitOnP]
  exact splitOnP_intercalate_eq_flatMap (beq_self_eq_true separator) hparts

theorem length_le_length_flatMap_splitOn (separator : α) (parts : List (List α)) :
    parts.length ≤ (parts.flatMap (·.splitOn separator)).length := by
  induction parts with
  | nil => exact Nat.le_refl 0
  | cons part rest ih =>
      have hpart := length_splitOn_pos separator part
      rw [List.flatMap_cons, List.length_append, List.length_cons]
      omega

theorem length_flatMap_splitOn_eq_iff :
    (parts.flatMap (·.splitOn separator)).length = parts.length ↔
      ∀ part ∈ parts, separator ∉ part := by
  induction parts with
  | nil => simp
  | cons part rest ih =>
      have hpart := length_splitOn_pos separator part
      have hrest := length_le_length_flatMap_splitOn separator rest
      rw [List.forall_mem_cons, ← ih, ← length_splitOn_eq_one_iff, List.flatMap_cons,
        List.length_append, List.length_cons]
      omega

/-- There are as many pieces as parts exactly if no part has the separator. -/
theorem length_splitOn_intercalate_eq_iff (hparts : parts ≠ []) :
    (([separator].intercalate parts).splitOn separator).length = parts.length ↔
      ∀ part ∈ parts, separator ∉ part := by
  rw [splitOn_intercalate_eq_flatMap hparts, length_flatMap_splitOn_eq_iff]

theorem splitOn_intercalate_eq_iff (hparts : parts ≠ []) :
    ([separator].intercalate parts).splitOn separator = parts ↔
      ∀ part ∈ parts, separator ∉ part := by
  constructor
  · intro heq
    exact (length_splitOn_intercalate_eq_iff hparts).mp (congrArg List.length heq)
  · intro hnone
    exact List.splitOn_intercalate separator hnone hparts

end Joined

/-! ## Quoted texts and numbers -/

theorem lineFeed_not_mem_toDigits {base : Nat} (hbase : 1 < base) (n : Nat) :
    '\n' ∉ Nat.toDigits base n := by
  induction n using Nat.strongRecOn with
  | ind n ih =>
      rw [Nat.toDigits_eq_if hbase]
      split
      · simp
      · have hrest := ih (n / base) (Nat.div_lt_self (by omega) hbase)
        simp [hrest]

theorem lineFeed_not_mem_quotedChar (c : Char) : '\n' ∉ quotedChar c := by
  have hdigits : '\n' ∉ hexDigits c.toNat := lineFeed_not_mem_toDigits (by decide) _
  unfold quotedChar
  split_ifs with _ _ _ hfeed
  all_goals simp [hdigits, eq_comm]
  exact hfeed

theorem not_hasLineFeed_quoted (text : String) : ¬HasLineFeed (quoted text) := by
  simp [HasLineFeed, quoted, lineFeed_not_mem_quotedChar]

theorem not_hasLineFeed_repr (n : Nat) : ¬HasLineFeed n.repr := by
  rw [HasLineFeed, Nat.toList_repr]
  exact lineFeed_not_mem_toDigits (by decide) n

end Shipment.Text
