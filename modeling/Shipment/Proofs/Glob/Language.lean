import Mathlib.Computability.Language
import Shipment.Glob.Matching

/-!
# The language of a glob

A glob denotes a set of texts: a piece denotes the texts that it can stand for,
a sequence their concatenations and a choice their union.  A mark that matching
carries at a position says that the text up to there is in the language of the
pieces so far, so the matcher decides membership.  The runs that it gives to `**`
have no line feed, which a text without line feeds leaves unnoticed.
-/

namespace Shipment.Glob

/-! ## Languages -/

/-- A class lists a character, alone or in a range. -/
def Lists (ranges : List CharRange) (c : Char) : Prop :=
  ∃ range ∈ ranges, range.low ≤ c ∧ c ≤ range.high

/-- The texts of one character with a property. -/
def oneChar (P : Char → Prop) : Language Char :=
  {text | ∃ c, P c ∧ text = [c]}

/-- The texts of any length whose characters all have a property. -/
def runOf (P : Char → Prop) : Language Char :=
  {text | ∀ c ∈ text, P c}

mutual

def language : Glob → Language Char
  | literal c => oneChar (· = c)
  | anyRun => runOf fun _ => True
  | nameRun => runOf (· ≠ '/')
  | nameChar => oneChar (· ≠ '/')
  | oneOf false ranges => oneChar (Lists ranges)
  | oneOf true ranges => oneChar fun c => c ≠ '/' ∧ ¬Lists ranges c
  | choice alternatives => choiceLanguage alternatives

def sequenceLanguage : List Glob → Language Char
  | [] => 1
  | piece :: rest => language piece * sequenceLanguage rest

def choiceLanguage : List (List Glob) → Language Char
  | [] => 0
  | pieces :: rest => sequenceLanguage pieces + choiceLanguage rest

end

mutual

/-- The language of a piece when `**` stands for runs of characters with a property. -/
def languageOver (P : Char → Prop) : Glob → Language Char
  | literal c => oneChar (· = c)
  | anyRun => runOf P
  | nameRun => runOf (· ≠ '/')
  | nameChar => oneChar (· ≠ '/')
  | oneOf false ranges => oneChar (Lists ranges)
  | oneOf true ranges => oneChar fun c => c ≠ '/' ∧ ¬Lists ranges c
  | choice alternatives => choiceLanguageOver P alternatives

def sequenceLanguageOver (P : Char → Prop) : List Glob → Language Char
  | [] => 1
  | piece :: rest => languageOver P piece * sequenceLanguageOver P rest

def choiceLanguageOver (P : Char → Prop) : List (List Glob) → Language Char
  | [] => 0
  | pieces :: rest => sequenceLanguageOver P pieces + choiceLanguageOver P rest

end

mutual

/-- A glob denotes runs of any characters. -/
theorem languageOver_any (piece : Glob) : languageOver (fun _ => True) piece = language piece := by
  match piece with
  | literal _ | anyRun | nameRun | nameChar | oneOf false _ | oneOf true _ => rfl
  | choice alternatives => exact choiceLanguageOver_any alternatives

theorem sequenceLanguageOver_any (pieces : List Glob) :
    sequenceLanguageOver (fun _ => True) pieces = sequenceLanguage pieces := by
  match pieces with
  | [] => rfl
  | piece :: rest =>
      rw [sequenceLanguageOver, sequenceLanguage, languageOver_any piece,
        sequenceLanguageOver_any rest]

theorem choiceLanguageOver_any (alternatives : List (List Glob)) :
    choiceLanguageOver (fun _ => True) alternatives = choiceLanguage alternatives := by
  match alternatives with
  | [] => rfl
  | pieces :: rest =>
      rw [choiceLanguageOver, choiceLanguage, sequenceLanguageOver_any pieces,
        choiceLanguageOver_any rest]

end

theorem mem_runOf {P : Char → Prop} {text : List Char} :
    text ∈ runOf P ↔ ∀ c ∈ text, P c := Iff.rfl

theorem lists_cons {range : CharRange} {rest : List CharRange} {c : Char} :
    Lists (range :: rest) c ↔ range.low ≤ c ∧ c ≤ range.high ∨ Lists rest c := by
  simp [Lists]

theorem lists_append {front back : List CharRange} {c : Char} :
    Lists (front ++ back) c ↔ Lists front c ∨ Lists back c := by
  simp [Lists, or_and_right, exists_or]

theorem oneChar_eq_iff {P Q : Char → Prop} : oneChar P = oneChar Q ↔ ∀ c, P c ↔ Q c := by
  constructor
  · intro hsame c
    have hmem (R : Char → Prop) : [c] ∈ oneChar R ↔ R c :=
      ⟨fun ⟨_, hd, heq⟩ => (List.cons.inj heq).1 ▸ hd, fun hc => ⟨c, hc, rfl⟩⟩
    rw [← hmem P, ← hmem Q, hsame]
  · intro hsame
    rw [funext fun c => propext (hsame c)]

/-- Classes stand for the same texts if they list the same characters, where a negated
class leaves the slash out of account. -/
theorem language_oneOf_eq_iff {negated : Bool} {ranges others : List CharRange} :
    language (.oneOf negated ranges) = language (.oneOf negated others) ↔
      ∀ c, negated = true ∧ c = '/' ∨ (Lists ranges c ↔ Lists others c) := by
  cases negated with
  | false => simp [language, oneChar_eq_iff]
  | true =>
      rw [language, language, oneChar_eq_iff]
      refine forall_congr' fun c => ?_
      by_cases hslash : c = '/'
      · simp [hslash]
      · simp [hslash, not_iff_not]

theorem nil_notMem_mul_oneChar {L : Language Char} {P : Char → Prop} :
    [] ∉ L * oneChar P := by
  rintro ⟨start, -, last, ⟨c, -, rfl⟩, happend⟩
  simp at happend

theorem append_mem_mul_oneChar {L : Language Char} {P : Char → Prop} {start : List Char}
    {c : Char} : start ++ [c] ∈ L * oneChar P ↔ start ∈ L ∧ P c := by
  constructor
  · rintro ⟨other, hother, last, ⟨d, hd, rfl⟩, happend⟩
    obtain ⟨rfl, hlast⟩ := List.append_inj' happend rfl
    obtain rfl : d = c := by simpa using hlast
    exact ⟨hother, hd⟩
  · rintro ⟨hstart, hc⟩
    exact Language.append_mem_mul hstart ⟨c, hc, rfl⟩

theorem mem_oneChar_mul {L : Language Char} {c : Char} {text : List Char} :
    text ∈ oneChar (· = c) * L ↔ ∃ rest ∈ L, text = c :: rest := by
  rw [Language.mem_mul]
  constructor
  · rintro ⟨_, ⟨_, rfl, rfl⟩, rest, hrest, rfl⟩
    exact ⟨rest, hrest, rfl⟩
  · rintro ⟨rest, hrest, rfl⟩
    exact ⟨[c], ⟨c, rfl, rfl⟩, rest, hrest, rfl⟩

/-- A text is in a language before a run if one of its starts is in the language
and the rest of it is such a run. -/
theorem mem_mul_runOf {L : Language Char} {P : Char → Prop} {text : List Char} :
    text ∈ L * runOf P ↔
      ∃ m ≤ text.length, text.take m ∈ L ∧ ∀ c ∈ text.drop m, P c := by
  rw [Language.mem_mul]
  constructor
  · rintro ⟨start, hstart, run, hrun, rfl⟩
    exact ⟨start.length, by simp, by simpa using hstart, by simpa using mem_runOf.mp hrun⟩
  · rintro ⟨m, -, hstart, hrun⟩
    exact ⟨_, hstart, _, hrun, List.take_append_drop m text⟩

theorem languageOver_oneOf (P : Char → Prop) (negated : Bool) (ranges : List CharRange) :
    languageOver P (.oneOf negated ranges) = language (.oneOf negated ranges) := by
  cases negated <;> rfl

/-! ## Marks -/

/-- The marked positions are those where the text up to there is in a language. -/
structure Marks (text : List Char) (marks : List Bool) (L : Language Char) : Prop where
  length_eq : marks.length = text.length + 1
  marked_iff : ∀ n ≤ text.length, marks[n]? = some true ↔ text.take n ∈ L

theorem marks_start (text : List Char) : Marks text (startMarks text) 1 where
  length_eq := by simp [startMarks]
  marked_iff n hn := by
    rw [Language.mem_one]
    cases n with
    | zero => simp [startMarks]
    | succ n =>
        have hne : text.take (n + 1) ≠ [] := by
          rw [Ne, List.take_eq_nil_iff]
          rintro (hzero | rfl)
          · omega
          · simp at hn
        simp [startMarks, hne, List.getElem?_replicate]

section

variable {text : List Char} {marks : List Bool} {L M : Language Char} {p : Char → Bool}
  {P : Char → Prop}

theorem Marks.step (hmarks : Marks text marks L) (hp : ∀ c, p c = true ↔ P c) :
    Marks text (stepMarks p text marks) (L * oneChar P) where
  length_eq := by simp [stepMarks, hmarks.length_eq]
  marked_iff n hn := by
    cases n with
    | zero => simp [stepMarks, nil_notMem_mul_oneChar]
    | succ n =>
        have hlt : n < text.length := hn
        have hnext : n < marks.length := by
          rw [hmarks.length_eq]
          omega
        have hmark := hmarks.marked_iff n hlt.le
        rw [List.getElem?_eq_getElem hnext, Option.some.injEq] at hmark
        rw [List.take_add_one, List.getElem?_eq_getElem hlt, Option.toList_some,
          append_mem_mul_oneChar, ← hmark, ← hp]
        simp [stepMarks, hlt, hnext]

theorem length_runMarks (p : Char → Bool) (reached : Bool)
    (hlength : marks.length = text.length + 1) :
    (runMarks p reached text marks).length = text.length + 1 := by
  induction text generalizing marks reached with
  | nil =>
      cases marks with
      | nil => simp at hlength
      | cons mark marks => simp [runMarks]
  | cons c rest ih =>
      cases marks with
      | nil => simp at hlength
      | cons mark marks => simpa [runMarks] using ih _ (by simpa using hlength)

/-- A run reaches a position from the left or from a mark at or before it. -/
theorem getElem?_runMarks {reached : Bool} (hlength : marks.length = text.length + 1) {n : Nat}
    (hn : n ≤ text.length) :
    (runMarks p reached text marks)[n]? = some true ↔
      (reached = true ∧ ∀ c ∈ text.take n, p c = true) ∨
        ∃ m ≤ n, marks[m]? = some true ∧ ∀ c ∈ (text.take n).drop m, p c = true := by
  induction text generalizing marks reached n with
  | nil =>
      obtain ⟨mark, rfl⟩ := List.length_eq_one_iff.mp hlength
      obtain rfl : n = 0 := by simpa using hn
      simp [runMarks, or_comm]
  | cons c rest ih =>
      cases marks with
      | nil => simp at hlength
      | cons mark marks =>
          cases n with
          | zero => simp [runMarks, or_comm]
          | succ n =>
              have hlength' : marks.length = rest.length + 1 := by simpa using hlength
              have hn' : n ≤ rest.length := by simpa using hn
              rw [runMarks, List.getElem?_cons_succ, ih hlength' hn']
              simp only [Bool.and_eq_true, Bool.or_eq_true, List.take_succ_cons,
                List.forall_mem_cons]
              constructor
              · rintro (⟨⟨rfl | rfl, hc⟩, hall⟩ | ⟨m, hm, hmark, hall⟩)
                · exact Or.inr ⟨0, by omega, by simp, by simpa using ⟨hc, hall⟩⟩
                · exact Or.inl ⟨rfl, hc, hall⟩
                · exact Or.inr ⟨m + 1, by omega, by simpa using hmark, by simpa using hall⟩
              · rintro (⟨rfl, hc, hall⟩ | ⟨m, hm, hmark, hall⟩)
                · exact Or.inl ⟨⟨Or.inr rfl, hc⟩, hall⟩
                · cases m with
                  | zero =>
                      rw [List.drop_zero, List.forall_mem_cons] at hall
                      exact Or.inl ⟨⟨Or.inl (by simpa using hmark), hall.1⟩, hall.2⟩
                  | succ m =>
                      exact Or.inr ⟨m, by omega, by simpa using hmark, by simpa using hall⟩

theorem Marks.run (hmarks : Marks text marks L) (hp : ∀ c ∈ text, p c = true ↔ P c) :
    Marks text (runMarks p false text marks) (L * runOf P) where
  length_eq := length_runMarks p false hmarks.length_eq
  marked_iff n hn := by
    rw [getElem?_runMarks hmarks.length_eq hn, mem_mul_runOf, List.length_take_of_le hn]
    simp only [Bool.false_eq_true, false_and, false_or]
    refine exists_congr fun m => and_congr_right fun hm => ?_
    rw [hmarks.marked_iff m (hm.trans hn), List.take_take, Nat.min_eq_left hm]
    refine and_congr_right fun _ => forall₂_congr fun c hc => hp c ?_
    exact List.mem_of_mem_take (List.mem_of_mem_drop hc)

theorem Marks.union {others : List Bool} (hmarks : Marks text marks L)
    (hothers : Marks text others M) : Marks text (List.zipWith (· || ·) marks others) (L + M) where
  length_eq := by simp [hmarks.length_eq, hothers.length_eq]
  marked_iff n hn := by
    have hmark : n < marks.length := by
      rw [hmarks.length_eq]
      omega
    have hother : n < others.length := by
      rw [hothers.length_eq]
      omega
    rw [Language.mem_add, ← hmarks.marked_iff n hn, ← hothers.marked_iff n hn]
    simp [hmark, hother]

theorem Marks.none (hmarks : Marks text marks L) : Marks text (marks.map fun _ => false) 0 where
  length_eq := by simpa using hmarks.length_eq
  marked_iff n hn := by simp [Language.notMem_zero, List.getElem?_replicate]

theorem inClass_false {ranges : List CharRange} {c : Char} :
    inClass false ranges c = true ↔ Lists ranges c := by
  simp [inClass, Lists]

theorem inClass_true {ranges : List CharRange} {c : Char} :
    inClass true ranges c = true ↔ c ≠ '/' ∧ ¬Lists ranges c := by
  rw [← inClass_false]
  simp [inClass]

end

/-! ## Matching -/

section

variable {P : Char → Prop} {text : List Char}

mutual

/-- Matching a piece carries the marks of a language to those of its product
with the language of the piece. -/
theorem Marks.advance {marks : List Bool} {L : Language Char} (hmarks : Marks text marks L)
    (htext : ∀ c ∈ text, c ≠ '\n' ↔ P c) (piece : Glob) :
    Marks text (advance text marks piece) (L * languageOver P piece) := by
  match piece with
  | literal c => exact hmarks.step fun d => beq_iff_eq
  | anyRun => exact hmarks.run fun c hc => bne_iff_ne.trans (htext c hc)
  | nameRun => exact hmarks.run fun c _ => bne_iff_ne
  | nameChar => exact hmarks.step fun c => bne_iff_ne
  | oneOf false ranges => exact hmarks.step fun c => inClass_false
  | oneOf true ranges => exact hmarks.step fun c => inClass_true
  | choice alternatives => exact hmarks.advanceAny htext alternatives

theorem Marks.advanceAll {marks : List Bool} {L : Language Char} (hmarks : Marks text marks L)
    (htext : ∀ c ∈ text, c ≠ '\n' ↔ P c) (pieces : List Glob) :
    Marks text (advanceAll text marks pieces) (L * sequenceLanguageOver P pieces) := by
  match pieces with
  | [] =>
      rw [sequenceLanguageOver, mul_one]
      exact hmarks
  | piece :: rest =>
      rw [sequenceLanguageOver, ← mul_assoc]
      exact (hmarks.advance htext piece).advanceAll htext rest

theorem Marks.advanceAny {marks : List Bool} {L : Language Char} (hmarks : Marks text marks L)
    (htext : ∀ c ∈ text, c ≠ '\n' ↔ P c) (alternatives : List (List Glob)) :
    Marks text (advanceAny text marks alternatives) (L * choiceLanguageOver P alternatives) := by
  match alternatives with
  | [] =>
      rw [choiceLanguageOver, mul_zero]
      exact hmarks.none
  | pieces :: rest =>
      rw [choiceLanguageOver, mul_add]
      exact (hmarks.advanceAll htext pieces).union (hmarks.advanceAny htext rest)

end

/-- The pieces match a text if it is in their language over a property that, among the
characters of the text, the line feed alone lacks. -/
theorem matchesAll_iff_over (htext : ∀ c ∈ text, c ≠ '\n' ↔ P c) {pieces : List Glob} :
    matchesAll pieces text = true ↔ text ∈ sequenceLanguageOver P pieces := by
  have hmarks := (marks_start text).advanceAll htext pieces
  rw [one_mul] at hmarks
  have hlast := hmarks.marked_iff text.length le_rfl
  rw [List.take_length] at hlast
  rw [matchesAll, ← hlast, List.getLastD_eq_getLast?, List.getLast?_eq_getElem?,
    hmarks.length_eq, Nat.add_sub_cancel]
  cases (Glob.advanceAll text (startMarks text) pieces)[text.length]? <;> simp

end

/-- The pieces match a text without a line feed if it is in their language. -/
theorem matchesAll_iff {text : List Char} (htext : '\n' ∉ text) {pieces : List Glob} :
    matchesAll pieces text = true ↔ text ∈ sequenceLanguage pieces := by
  rw [← sequenceLanguageOver_any]
  refine matchesAll_iff_over fun c hc => ?_
  have hne : c ≠ '\n' := fun heq => htext (heq ▸ hc)
  simpa using hne

/-- The texts that pieces match: a run that `**` stands for has no line feed. -/
def lineLanguage (pieces : List Glob) : Language Char :=
  sequenceLanguageOver (· ≠ '\n') pieces

theorem matchesAll_iff_mem_lineLanguage {text : List Char} {pieces : List Glob} :
    matchesAll pieces text = true ↔ text ∈ lineLanguage pieces :=
  matchesAll_iff_over fun _ _ => Iff.rfl

theorem sequenceLanguageOver_append (P : Char → Prop) (front back : List Glob) :
    sequenceLanguageOver P (front ++ back) =
      sequenceLanguageOver P front * sequenceLanguageOver P back := by
  induction front with
  | nil => rw [List.nil_append, sequenceLanguageOver, one_mul]
  | cons piece rest ih =>
      rw [List.cons_append, sequenceLanguageOver, sequenceLanguageOver, ih, mul_assoc]

theorem choiceLanguageOver_append (P : Char → Prop) (front back : List (List Glob)) :
    choiceLanguageOver P (front ++ back) =
      choiceLanguageOver P front + choiceLanguageOver P back := by
  induction front with
  | nil => rw [List.nil_append, choiceLanguageOver, zero_add]
  | cons pieces rest ih =>
      rw [List.cons_append, choiceLanguageOver, choiceLanguageOver, ih, add_assoc]

/-- Where no piece stands for a line feed, the pieces match no text that has one. -/
theorem lineFeed_notMem_of_mem_lineLanguage {pieces : List Glob} {text : List Char}
    (hpieces : ∀ piece ∈ pieces, piece = .anyRun ∨ ∃ c, c ≠ '\n' ∧ piece = .literal c)
    (htext : text ∈ lineLanguage pieces) : '\n' ∉ text := by
  induction pieces generalizing text with
  | nil =>
      obtain rfl := Language.mem_one _ |>.mp htext
      exact List.not_mem_nil
  | cons piece rest ih =>
      obtain ⟨hpiece, hrest⟩ := List.forall_mem_cons.mp hpieces
      obtain ⟨front, hfront, back, hback, rfl⟩ := Language.mem_mul.mp htext
      rw [List.mem_append, not_or]
      refine ⟨?_, ih hrest hback⟩
      obtain rfl | ⟨c, hc, rfl⟩ := hpiece
      · exact fun hfeed => hfront _ hfeed rfl
      · obtain ⟨_, rfl, rfl⟩ := hfront
        simpa [eq_comm] using hc

end Shipment.Glob
