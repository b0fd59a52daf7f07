import Shipment.Proofs.Glob.Grammar

/-!
# Where a glob cannot be read

A text that the rules do not take to its end has a first construct that cannot be
completed, and this construct alone decides the error.  In front of it there are
complete constructs, and braces and commas of choices that are still open, of which
only the number of open braces matters.
-/

namespace Shipment.Glob

/-! ## Faults -/

/-- Members and ranges at the start of a class that goes on behind them. -/
inductive ReadsSome : List Char → List CharRange → List Char → Prop
  | none (text : List Char) : ReadsSome text [] text
  | single {text next rest : List Char} {c : Char} {ranges : List CharRange}
      (hmember : ReadsMember text c next) (hdash : next.head? ≠ some '-')
      (hmore : ReadsSome next ranges rest) : ReadsSome text (⟨c, c⟩ :: ranges) rest
  | range {text next rest : List Char} {low high : Char} {ranges : List CharRange}
      (hmember : ReadsMember text low ('-' :: high :: next)) (hhigh : high ≠ ']')
      (hle : low ≤ high) (hmore : ReadsSome next ranges rest) :
      ReadsSome text (⟨low, high⟩ :: ranges) rest

/-- Why a class with these members cannot be completed: it is closed before its first
member, the text ends inside it, also behind a backslash or a dash, or its next range ends
below its start. -/
inductive ClassFault : List CharRange → List Char → GlobError → Prop
  | closed (rest : List Char) : ClassFault [] (']' :: rest) .unclosedClass
  | ended (found : List CharRange) : ClassFault found [] .unclosedClass
  | escape (found : List CharRange) : ClassFault found ['\\'] .unclosedClass
  | dash (found : List CharRange) {text : List Char} {c : Char}
      (hmember : ReadsMember text c ['-']) : ClassFault found text .unclosedClass
  | range (found : List CharRange) {text rest : List Char} {low high : Char}
      (hmember : ReadsMember text low ('-' :: high :: rest)) (hhigh : high ≠ ']')
      (hlt : high < low) : ClassFault found text (.invalidRange low high)

/-- The bracket that opens a class, with the mark of a negated one. -/
inductive OpensClass : List Char → List Char → Prop
  | plain {body : List Char} (hmark : ∀ c, body.head? = some c → isNegation c = false) :
      OpensClass ('[' :: body) body
  | negated {body : List Char} {mark : Char} (hmark : isNegation mark = true) :
      OpensClass ('[' :: mark :: body) body

/-- Why the construct at the start of a text inside so many braces cannot be completed: the
text ends behind a backslash, or inside the braces, or the construct is a class that cannot. -/
inductive Fault : Nat → List Char → GlobError → Prop
  | escape (depth : Nat) : Fault depth ['\\'] .trailingEscape
  | ended (depth : Nat) : Fault (depth + 1) [] .unclosedBrace
  | inClass (depth : Nat) {text body rest : List Char} {found : List CharRange} {e : GlobError}
      (hopen : OpensClass text body) (hsome : ReadsSome body found rest)
      (hfault : ClassFault found rest e) : Fault depth text e

/-- A complete construct, or one of the braces and commas of a choice, with the number of
open braces before and behind it. -/
inductive Passes : Nat → List Char → Nat → List Char → Prop
  | piece {depth : Nat} {text rest : List Char} {piece : Glob}
      (hpiece : ReadsPiece (depth != 0) text piece rest) : Passes depth text depth rest
  | brace (depth : Nat) (rest : List Char) : Passes depth ('\x7b' :: rest) (depth + 1) rest
  | comma (depth : Nat) (rest : List Char) : Passes (depth + 1) (',' :: rest) (depth + 1) rest
  | close (depth : Nat) (rest : List Char) : Passes (depth + 1) ('\x7d' :: rest) depth rest

/-- Read from left to right inside so many braces, the text comes to this fault. -/
inductive Breaks : Nat → List Char → GlobError → Prop
  | here {depth : Nat} {text : List Char} {e : GlobError} (hfault : Fault depth text e) :
      Breaks depth text e
  | later {depth next : Nat} {text rest : List Char} {e : GlobError}
      (hpass : Passes depth text next rest) (hrest : Breaks next rest e) : Breaks depth text e

/-! ## A fault is the reader's error -/

section Refused

variable {stack : List OpenChoice} {pieces : List Glob} {negated : Bool}
  {text rest : List Char} {e : GlobError}

theorem readMembers_of_readsSome {ranges : List CharRange} (hsome : ReadsSome text ranges rest)
    (found : List CharRange) :
    readMembers stack pieces negated found text =
      readMembers stack pieces negated (ranges.reverse ++ found) rest := by
  induction hsome generalizing found with
  | none text => rfl
  | single hmember hdash hmore ih =>
      rw [readMembers_single hmember hdash, ih]
      simp
  | range hmember hhigh hle hmore ih =>
      rw [readMembers_range hmember hhigh hle, ih]
      simp

theorem readMembers_of_classFault {found : List CharRange}
    (hfault : ClassFault found.reverse text e) :
    readMembers stack pieces negated found text = .error e := by
  generalize hmembers : found.reverse = members at hfault
  cases hfault with
  | closed rest =>
      obtain rfl := List.reverse_eq_nil_iff.mp hmembers
      simp [readMembers]
  | ended => rw [readMembers]
  | escape => rw [readMembers]
  | dash _ hmember =>
      cases hmember with
      | escaped => simp [readMembers]
      | plain hc => simp [readMembers, hc]
  | range _ hmember hhigh hlt =>
      cases hmember with
      | escaped => simp [readMembers, addRange, hhigh, hlt]
      | plain hc => simp [readMembers, addRange, hhigh, hlt, hc]

theorem OpensClass.readPieces_eq {body : List Char} (hopen : OpensClass text body)
    (stack : List OpenChoice) (pieces : List Glob) :
    ∃ negated, readPieces stack pieces text = readMembers stack pieces negated [] body := by
  cases hopen with
  | plain hmark =>
      refine ⟨false, ?_⟩
      rw [readPieces]
      · rintro more rfl
        exact absurd (hmark '!' rfl) (by decide)
      · rintro more rfl
        exact absurd (hmark '^' rfl) (by decide)
  | negated hmark =>
      refine ⟨true, ?_⟩
      rcases eq_of_isNegation hmark with rfl | rfl
      · rw [readPieces]
      · rw [readPieces]

theorem readPieces_of_fault (hfault : Fault stack.length text e) :
    readPieces stack pieces text = .error e := by
  generalize hdepth : stack.length = depth at hfault
  cases hfault with
  | escape => rw [readPieces]
  | ended =>
      obtain ⟨top, outer, rfl⟩ := List.exists_cons_of_length_eq_add_one hdepth
      rfl
  | inClass _ hopen hsome hclass =>
      obtain ⟨negated, hread⟩ := hopen.readPieces_eq stack pieces
      rw [hread, readMembers_of_readsSome hsome]
      exact readMembers_of_classFault (by simpa using hclass)

/-- What follows a complete construct is read on its own, whatever was read before. -/
theorem Passes.exists_readPieces_eq {next : Nat} (hpass : Passes stack.length text next rest)
    (pieces : List Glob) :
    ∃ (stack' : List OpenChoice) (pieces' : List Glob), stack'.length = next ∧
      readPieces stack pieces text = readPieces stack' pieces' rest := by
  generalize hdepth : stack.length = depth at hpass
  cases hpass with
  | piece hpiece =>
      refine ⟨stack, _, hdepth, readPieces_of_readsPiece hpiece ?_ pieces⟩
      rw [← hdepth]
      cases stack <;> rfl
  | brace => exact ⟨⟨pieces, []⟩ :: stack, [], by simp [hdepth], by rw [readPieces]⟩
  | comma =>
      obtain ⟨top, outer, rfl⟩ := List.exists_cons_of_length_eq_add_one hdepth
      exact ⟨⟨top.before, pieces.reverse :: top.closed⟩ :: outer, [], hdepth, by rw [readPieces]⟩
  | close =>
      obtain ⟨top, outer, rfl⟩ := List.exists_cons_of_length_eq_add_one hdepth
      exact ⟨outer, _, by simpa using hdepth, by rw [readPieces]⟩

theorem readPieces_of_breaks {depth : Nat} (hbreaks : Breaks depth text e)
    (hdepth : stack.length = depth) : readPieces stack pieces text = .error e := by
  induction hbreaks generalizing stack pieces with
  | here hfault => exact readPieces_of_fault (hdepth ▸ hfault)
  | later hpass hrest ih =>
      subst hdepth
      obtain ⟨stack', pieces', hnext, hread⟩ := hpass.exists_readPieces_eq pieces
      rw [hread]
      exact ih hnext

end Refused

/-! ## The reader's error is a fault -/

/-- A class with the members `found` comes to this fault, inside it or behind it. -/
def BreaksClass (depth : Nat) (found : List CharRange) (text : List Char) (e : GlobError) : Prop :=
  (∃ more rest, ReadsSome text more rest ∧ ClassFault (found.reverse ++ more) rest e) ∨
    ∃ ranges rest, ReadsMembers text ranges rest ∧ (found ≠ [] ∨ ranges ≠ []) ∧ Breaks depth rest e

namespace BreaksClass

variable {depth : Nat} {found : List CharRange} {text rest : List Char} {e : GlobError} {c : Char}

theorem here (hfault : ClassFault found.reverse text e) : BreaksClass depth found text e :=
  Or.inl ⟨[], text, .none text, by simpa using hfault⟩

theorem behind {ranges : List CharRange} (hmembers : ReadsMembers text ranges rest)
    (hsome : found ≠ [] ∨ ranges ≠ []) (hrest : Breaks depth rest e) :
    BreaksClass depth found text e :=
  Or.inr ⟨ranges, rest, hmembers, hsome, hrest⟩

theorem single (hmember : ReadsMember text c rest) (hdash : rest.head? ≠ some '-')
    (hrest : BreaksClass depth (⟨c, c⟩ :: found) rest e) : BreaksClass depth found text e := by
  obtain ⟨more, after, hmore, hfault⟩ | ⟨ranges, after, hmore, -, hafter⟩ := hrest
  · exact Or.inl ⟨_, after, .single hmember hdash hmore, by simpa using hfault⟩
  · exact .behind (.single hmember hdash hmore) (Or.inr (List.cons_ne_nil _ _)) hafter

theorem range {high : Char} (hmember : ReadsMember text c ('-' :: high :: rest))
    (hhigh : high ≠ ']') (hle : c ≤ high)
    (hrest : BreaksClass depth (⟨c, high⟩ :: found) rest e) : BreaksClass depth found text e := by
  obtain ⟨more, after, hmore, hfault⟩ | ⟨ranges, after, hmore, -, hafter⟩ := hrest
  · exact Or.inl ⟨_, after, .range hmember hhigh hle hmore, by simpa using hfault⟩
  · exact .behind (.range hmember hhigh hle hmore) (Or.inr (List.cons_ne_nil _ _)) hafter

/-- A member without a range behind it; behind a dash the text may end. -/
theorem member (hmember : ReadsMember text c rest)
    (hrange : ∀ high more, rest = '-' :: high :: more → False)
    (hread : BreaksClass depth (⟨c, c⟩ :: found) rest e)
    (hended : rest = ['-'] → e = .unclosedClass) : BreaksClass depth found text e := by
  by_cases hdash : rest.head? = some '-'
  · obtain ⟨more, rfl⟩ := List.head?_eq_some_iff.mp hdash
    cases more with
    | nil =>
        rw [hended rfl]
        exact .here (.dash _ hmember)
    | cons high more => exact (hrange high more rfl).elim
  · exact .single hmember hdash hread

/-- A class that has been opened is a construct. -/
theorem breaks {body : List Char} (hopen : OpensClass text body)
    (hclass : BreaksClass depth [] body e) : Breaks depth text e := by
  obtain ⟨more, rest, hmore, hfault⟩ | ⟨ranges, rest, hmembers, hsome, hrest⟩ := hclass
  · exact .here (.inClass depth hopen hmore hfault)
  · have hranges := hsome.resolve_left (by simp)
    cases hopen with
    | plain hmark => exact .later (.piece (.oneOf _ hmark hmembers hranges)) hrest
    | negated hmark => exact .later (.piece (.noneOf _ hmark hmembers hranges)) hrest

end BreaksClass

theorem addRange_eq_error {found : List CharRange} {low high : Char} {e : GlobError}
    (herror : addRange found low high = .error e) :
    high ≠ ']' ∧ high < low ∧ e = .invalidRange low high := by
  unfold addRange at herror
  split at herror
  · cases herror
  · next hhigh =>
      split at herror
      · next hlt =>
          cases herror
          exact ⟨hhigh, hlt, rfl⟩
      · cases herror

/-- A member with a dash and another character behind it. -/
theorem BreaksClass.of_addRange {stack : List OpenChoice} {pieces : List Glob} {negated : Bool}
    {found : List CharRange} {text rest : List Char} {low high : Char} {e : GlobError}
    (hmember : ReadsMember text low ('-' :: high :: rest))
    (hread : (match addRange found low high with
      | .error e => Except.error e
      | .ok (true, found) => readPieces stack (.oneOf negated found.reverse :: pieces) rest
      | .ok (false, found) => readMembers stack pieces negated found rest) = .error e)
    (hpieces : ∀ {pieces}, readPieces stack pieces rest = .error e → Breaks stack.length rest e)
    (hmembers : ∀ {found}, readMembers stack pieces negated found rest = .error e →
      BreaksClass stack.length found rest e) :
    BreaksClass stack.length found text e := by
  split at hread
  · next hrange =>
      obtain ⟨hhigh, hlt, rfl⟩ := addRange_eq_error hrange
      cases hread
      exact .here (.range _ hmember hhigh hlt)
  · next hrange =>
      obtain ⟨rfl, rfl⟩ := addRange_eq_closed hrange
      exact .behind (.dash hmember) (Or.inr (List.cons_ne_nil _ _)) (hpieces hread)
  · next hrange =>
      obtain ⟨hhigh, hle, rfl⟩ := addRange_eq_open hrange
      exact .range hmember hhigh hle (hmembers hread)

mutual

theorem breaks_of_readPieces {stack : List OpenChoice} {pieces : List Glob} {text : List Char}
    {e : GlobError} (hread : readPieces stack pieces text = .error e) :
    Breaks stack.length text e := by
  have hpiece : ∀ {piece rest}, ReadsPiece (!stack.isEmpty) text piece rest →
      Breaks stack.length rest e → Breaks stack.length text e := by
    intro piece rest hpiece hrest
    have hinside : (stack.length != 0) = !stack.isEmpty := by cases stack <;> rfl
    exact .later (.piece (hinside ▸ hpiece)) hrest
  unfold readPieces at hread
  split at hread
  · split at hread
    · cases hread
    · next hstack =>
        cases hread
        cases stack with
        | nil => exact absurd rfl hstack
        | cons top outer => exact .here (.ended _)
  · cases hread
    exact .here (.escape _)
  · exact hpiece (.escaped _ _ _) (breaks_of_readPieces hread)
  · exact hpiece (.anyRun _ _) (breaks_of_readPieces hread)
  · next rest hrest =>
      refine hpiece (.nameRun _ fun hhead => ?_) (breaks_of_readPieces hread)
      obtain ⟨more, hmore⟩ := List.head?_eq_some_iff.mp hhead
      exact hrest more hmore
  · exact hpiece (.nameChar _ _) (breaks_of_readPieces hread)
  · exact BreaksClass.breaks (.negated rfl) (breaks_of_readMembers hread)
  · exact BreaksClass.breaks (.negated rfl) (breaks_of_readMembers hread)
  · next rest hexclamation hcaret =>
      have hmark := isNegation_head?_eq_false hexclamation hcaret
      exact BreaksClass.breaks (.plain hmark) (breaks_of_readMembers hread)
  · exact .later (.brace _ _) (breaks_of_readPieces hread)
  · split at hread
    · exact hpiece (.plain rfl (by simp) _) (breaks_of_readPieces hread)
    · exact .later (.comma _ _) (breaks_of_readPieces hread)
  · split at hread
    · exact hpiece (.plain rfl (by simp) _) (breaks_of_readPieces hread)
    · exact .later (.close _ _) (breaks_of_readPieces hread)
  · next c rest hlast hescape _ _ _ _ _ _ _ _ _ =>
      have hbackslash := ne_backslash hlast hescape
      refine hpiece (.plain ?_ (fun _ => ?_) _) (breaks_of_readPieces hread)
      · simp_all [isSpecial]
      · simp_all [isSeparator]
termination_by text.length

theorem breaks_of_readMembers {stack : List OpenChoice} {pieces : List Glob} {negated : Bool}
    {found : List CharRange} {text : List Char} {e : GlobError}
    (hread : readMembers stack pieces negated found text = .error e) :
    BreaksClass stack.length found text e := by
  unfold readMembers at hread
  split at hread
  · cases hread
    exact .here (.ended _)
  · cases hread
    exact .here (.escape _)
  · next c high rest =>
      exact .of_addRange (.escaped c _) hread breaks_of_readPieces
        fun hmore => breaks_of_readMembers hmore
  · next c rest hrange =>
      refine .member (.escaped c _) hrange (breaks_of_readMembers hread) ?_
      rintro rfl
      simpa [readMembers, eq_comm] using hread
  · next rest =>
      split at hread
      · next hfound =>
          cases hread
          obtain rfl := List.isEmpty_iff.mp hfound
          exact .here (.closed _)
      · next hfound =>
          exact .behind (.close _) (Or.inl (by simpa using hfound)) (breaks_of_readPieces hread)
  · next c high rest _ hbackslash hbracket =>
      exact .of_addRange (.plain ⟨hbackslash, hbracket⟩ _) hread breaks_of_readPieces
        fun hmore => breaks_of_readMembers hmore
  · next c rest hlast _ hescape hbracket hrange =>
      refine .member (.plain ⟨ne_backslash hlast hescape, hbracket⟩ _) hrange
        (breaks_of_readMembers hread) ?_
      rintro rfl
      simpa [readMembers, eq_comm] using hread
termination_by text.length

end

/-- The reader's error is the fault that the text comes to first. -/
theorem readPieces_eq_error_iff {stack : List OpenChoice} {pieces : List Glob} {text : List Char}
    {e : GlobError} :
    readPieces stack pieces text = .error e ↔ Breaks stack.length text e :=
  ⟨breaks_of_readPieces, fun hbreaks => readPieces_of_breaks hbreaks rfl⟩

theorem read_eq_error_iff {text : List Char} {e : GlobError} :
    read text = .error e ↔ Breaks 0 text e :=
  readPieces_eq_error_iff

end Shipment.Glob
