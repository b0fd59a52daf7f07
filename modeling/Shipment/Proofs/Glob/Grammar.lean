import Shipment.Glob.Pattern

/-!
# The grammar of globs

What a glob text denotes is given by rules that read it from left to right: a
construct takes its characters off the front of the text and leaves the rest.
The reader follows these rules with a stack of open braces, and it accepts
exactly the texts that the rules take to their end.
-/

namespace Shipment.Glob

/-! ## The rules -/

/-- One character of a class; a backslash makes the next character one. -/
inductive ReadsMember : List Char → Char → List Char → Prop
  | escaped (c : Char) (rest : List Char) : ReadsMember ('\\' :: c :: rest) c rest
  | plain {c : Char} (hc : c ≠ '\\' ∧ c ≠ ']') (rest : List Char) : ReadsMember (c :: rest) c rest

/-- The members of a class up to the bracket that closes it.  The upper end of
a range is taken as it stands; a dash before the closing bracket is a member. -/
inductive ReadsMembers : List Char → List CharRange → List Char → Prop
  | close (rest : List Char) : ReadsMembers (']' :: rest) [] rest
  | dash {text rest : List Char} {c : Char} (hmember : ReadsMember text c ('-' :: ']' :: rest)) :
      ReadsMembers text [⟨c, c⟩, ⟨'-', '-'⟩] rest
  | single {text next rest : List Char} {c : Char} {ranges : List CharRange}
      (hmember : ReadsMember text c next) (hdash : next.head? ≠ some '-')
      (hmore : ReadsMembers next ranges rest) : ReadsMembers text (⟨c, c⟩ :: ranges) rest
  | range {text next rest : List Char} {low high : Char} {ranges : List CharRange}
      (hmember : ReadsMember text low ('-' :: high :: next)) (hhigh : high ≠ ']')
      (hle : low ≤ high) (hmore : ReadsMembers next ranges rest) :
      ReadsMembers text (⟨low, high⟩ :: ranges) rest

/-- The characters that begin a construct wherever they stand. -/
def isSpecial (c : Char) : Bool :=
  c == '*' || c == '?' || c == '[' || c == '\x7b' || c == '\\'

/-- The characters that end an alternative. -/
def isSeparator (c : Char) : Bool :=
  c == ',' || c == '\x7d'

def isNegation (c : Char) : Bool :=
  c == '!' || c == '^'

theorem eq_of_isNegation {c : Char} (hmark : isNegation c = true) : c = '!' ∨ c = '^' := by
  rwa [isNegation, Bool.or_eq_true, beq_iff_eq, beq_iff_eq] at hmark

/-- The cases for the two negations leave no class that starts with one. -/
theorem isNegation_head?_eq_false {text : List Char}
    (hexclamation : ∀ more, text = '!' :: more → False)
    (hcaret : ∀ more, text = '^' :: more → False) :
    ∀ c, text.head? = some c → isNegation c = false := by
  intro c hc
  obtain ⟨more, hmore⟩ := List.head?_eq_some_iff.mp hc
  rw [isNegation, Bool.or_eq_false_iff, beq_eq_false_iff_ne, beq_eq_false_iff_ne]
  constructor
  · rintro rfl
    exact hexclamation more hmore
  · rintro rfl
    exact hcaret more hmore

mutual

/-- One piece.  The flag says whether the text stands inside braces. -/
inductive ReadsPiece : Bool → List Char → Glob → List Char → Prop
  | anyRun (inside : Bool) (rest : List Char) : ReadsPiece inside ('*' :: '*' :: rest) .anyRun rest
  | nameRun (inside : Bool) {rest : List Char} (hrest : rest.head? ≠ some '*') :
      ReadsPiece inside ('*' :: rest) .nameRun rest
  | nameChar (inside : Bool) (rest : List Char) : ReadsPiece inside ('?' :: rest) .nameChar rest
  | oneOf (inside : Bool) {text rest : List Char} {ranges : List CharRange}
      (hmark : ∀ c, text.head? = some c → isNegation c = false)
      (hmembers : ReadsMembers text ranges rest) (hranges : ranges ≠ []) :
      ReadsPiece inside ('[' :: text) (.oneOf false ranges) rest
  | noneOf (inside : Bool) {text rest : List Char} {mark : Char} {ranges : List CharRange}
      (hmark : isNegation mark = true)
      (hmembers : ReadsMembers text ranges rest) (hranges : ranges ≠ []) :
      ReadsPiece inside ('[' :: mark :: text) (.oneOf true ranges) rest
  | choice (inside : Bool) {text rest : List Char} {alternatives : List (List Glob)}
      (halternatives : ReadsAlternatives text alternatives rest) :
      ReadsPiece inside ('\x7b' :: text) (.choice alternatives) rest
  | escaped (inside : Bool) (c : Char) (rest : List Char) :
      ReadsPiece inside ('\\' :: c :: rest) (.literal c) rest
  | plain {inside : Bool} {c : Char} (hspecial : isSpecial c = false)
      (hseparator : inside = true → isSeparator c = false) (rest : List Char) :
      ReadsPiece inside (c :: rest) (.literal c) rest

/-- Pieces, up to the end of the text, or inside braces up to a separator. -/
inductive Reads : Bool → List Char → List Glob → List Char → Prop
  | finish : Reads false [] [] []
  | stop {c : Char} (hc : isSeparator c = true) (rest : List Char) :
      Reads true (c :: rest) [] (c :: rest)
  | cons {inside : Bool} {text next rest : List Char} {piece : Glob} {pieces : List Glob}
      (hpiece : ReadsPiece inside text piece next) (hpieces : Reads inside next pieces rest) :
      Reads inside text (piece :: pieces) rest

/-- The alternatives of a choice and the brace that closes it. -/
inductive ReadsAlternatives : List Char → List (List Glob) → List Char → Prop
  | last {text rest : List Char} {pieces : List Glob}
      (hpieces : Reads true text pieces ('\x7d' :: rest)) : ReadsAlternatives text [pieces] rest
  | more {text next rest : List Char} {pieces : List Glob} {alternatives : List (List Glob)}
      (hpieces : Reads true text pieces (',' :: next))
      (hmore : ReadsAlternatives next alternatives rest) :
      ReadsAlternatives text (pieces :: alternatives) rest

end

/-! ## The reader accepts what the rules read -/

section Accepted

variable {text rest : List Char} {c : Char}

/-- A dash before the closing bracket is a member and the class ends. -/
theorem readMembers_dash (hmember : ReadsMember text c ('-' :: ']' :: rest))
    (stack : List OpenChoice) (pieces : List Glob) (negated : Bool) (found : List CharRange) :
    readMembers stack pieces negated found text =
      readPieces stack (.oneOf negated (⟨'-', '-'⟩ :: ⟨c, c⟩ :: found).reverse :: pieces) rest := by
  cases hmember with
  | escaped => simp [readMembers, addRange]
  | plain hc => simp [readMembers, addRange, hc]

theorem readMembers_range {high : Char} (hmember : ReadsMember text c ('-' :: high :: rest))
    (hhigh : high ≠ ']') (hle : c ≤ high) (stack : List OpenChoice) (pieces : List Glob)
    (negated : Bool) (found : List CharRange) :
    readMembers stack pieces negated found text =
      readMembers stack pieces negated (⟨c, high⟩ :: found) rest := by
  have hlt : ¬high < c := Char.not_lt.mpr hle
  cases hmember with
  | escaped => simp [readMembers, addRange, hhigh, hlt]
  | plain hc => simp [readMembers, addRange, hhigh, hlt, hc]

theorem readMembers_single (hmember : ReadsMember text c rest) (hdash : rest.head? ≠ some '-')
    (stack : List OpenChoice) (pieces : List Glob) (negated : Bool) (found : List CharRange) :
    readMembers stack pieces negated found text =
      readMembers stack pieces negated (⟨c, c⟩ :: found) rest := by
  cases hmember with
  | escaped =>
      rw [readMembers]
      rintro high more rfl
      exact hdash rfl
  | plain hc =>
      rw [readMembers]
      · exact fun heq _ => hc.1 heq
      · exact fun _ _ _ heq _ => hc.1 heq
      · exact fun _ _ heq _ => hc.1 heq
      · exact hc.2
      · rintro high more rfl
        exact hdash rfl

theorem readMembers_of_readsMembers {ranges : List CharRange}
    (hreads : ReadsMembers text ranges rest) (stack : List OpenChoice) (pieces : List Glob)
    (negated : Bool) (found : List CharRange) (hsome : found ≠ [] ∨ ranges ≠ []) :
    readMembers stack pieces negated found text =
      readPieces stack (.oneOf negated (found.reverse ++ ranges) :: pieces) rest := by
  induction hreads generalizing found with
  | close rest =>
      have hfound : found.isEmpty = false := by simpa using hsome
      simp [readMembers, hfound]
  | dash hmember => simp [readMembers_dash hmember]
  | single hmember hdash hmore ih =>
      rw [readMembers_single hmember hdash, ih _ (Or.inl (List.cons_ne_nil _ _))]
      simp
  | range hmember hhigh hle hmore ih =>
      rw [readMembers_range hmember hhigh hle, ih _ (Or.inl (List.cons_ne_nil _ _))]
      simp

/-- A character that begins nothing where it stands is read as itself. -/
theorem readPieces_plain {stack : List OpenChoice} (hspecial : isSpecial c = false)
    (hseparator : stack ≠ [] → isSeparator c = false) (pieces : List Glob) :
    readPieces stack pieces (c :: rest) = readPieces stack (.literal c :: pieces) rest := by
  simp only [isSpecial, Bool.or_eq_false_iff, beq_eq_false_iff_ne] at hspecial
  obtain ⟨⟨⟨⟨hstar, hquestion⟩, hbracket⟩, hbrace⟩, hbackslash⟩ := hspecial
  by_cases hcomma : c = ','
  · subst hcomma
    cases stack with
    | nil => rw [readPieces]
    | cons top outer => exact absurd (hseparator (List.cons_ne_nil _ _)) (by decide)
  by_cases hclose : c = '\x7d'
  · subst hclose
    cases stack with
    | nil => rw [readPieces]
    | cons top outer => exact absurd (hseparator (List.cons_ne_nil _ _)) (by decide)
  rw [readPieces]
  all_goals simp_all

mutual

theorem readPieces_of_readsPiece {inside : Bool} {text rest : List Char} {piece : Glob}
    (hreads : ReadsPiece inside text piece rest) {stack : List OpenChoice}
    (hstack : stack.isEmpty = !inside) (pieces : List Glob) :
    readPieces stack pieces text = readPieces stack (piece :: pieces) rest := by
  match hreads with
  | .anyRun _ _ => rw [readPieces]
  | .nameRun _ hrest =>
      rw [readPieces]
      rintro more rfl
      exact hrest rfl
  | .nameChar _ _ => rw [readPieces]
  | .oneOf _ hmark hmembers hranges =>
      rw [readPieces, readMembers_of_readsMembers hmembers _ _ _ _ (Or.inr hranges)]
      · rfl
      · rintro more rfl
        exact absurd (hmark '!' rfl) (by decide)
      · rintro more rfl
        exact absurd (hmark '^' rfl) (by decide)
  | .noneOf _ hmark hmembers hranges =>
      rcases eq_of_isNegation hmark with rfl | rfl
      · rw [readPieces, readMembers_of_readsMembers hmembers _ _ _ _ (Or.inr hranges)]
        rfl
      · rw [readPieces, readMembers_of_readsMembers hmembers _ _ _ _ (Or.inr hranges)]
        rfl
  | .choice _ halternatives =>
      rw [readPieces, readPieces_of_readsAlternatives halternatives]
      rfl
  | .escaped _ _ _ => rw [readPieces]
  | .plain hspecial hseparator _ =>
      refine readPieces_plain hspecial (fun hne => hseparator ?_) pieces
      cases inside with
      | true => rfl
      | false => exact absurd (List.isEmpty_iff.mp hstack) hne

theorem readPieces_of_reads {inside : Bool} {text rest : List Char} {more : List Glob}
    (hreads : Reads inside text more rest) {stack : List OpenChoice}
    (hstack : stack.isEmpty = !inside) (pieces : List Glob) :
    readPieces stack pieces text = readPieces stack (more.reverse ++ pieces) rest := by
  match hreads with
  | .finish => rfl
  | .stop _ _ => rfl
  | .cons hpiece hpieces =>
      rw [readPieces_of_readsPiece hpiece hstack, readPieces_of_reads hpieces hstack]
      simp

theorem readPieces_of_readsAlternatives {text rest : List Char} {alternatives : List (List Glob)}
    (hreads : ReadsAlternatives text alternatives rest) (before : List Glob)
    (closed : List (List Glob)) (stack : List OpenChoice) :
    readPieces (⟨before, closed⟩ :: stack) [] text =
      readPieces stack (.choice (closed.reverse ++ alternatives) :: before) rest := by
  match hreads with
  | .last hpieces =>
      rw [readPieces_of_reads hpieces rfl, readPieces]
      simp
  | .more hpieces hmore =>
      rw [readPieces_of_reads hpieces rfl, readPieces, readPieces_of_readsAlternatives hmore]
      simp

end

end Accepted

/-! ## The rules read what the reader accepts -/

/-- A piece read in front of an alternative belongs to it. -/
theorem ReadsAlternatives.cons {text next rest : List Char} {piece : Glob} {pieces : List Glob}
    {others : List (List Glob)} (hpiece : ReadsPiece true text piece next)
    (hothers : ReadsAlternatives next (pieces :: others) rest) :
    ReadsAlternatives text ((piece :: pieces) :: others) rest := by
  cases hothers with
  | last hpieces => exact .last (.cons hpiece hpieces)
  | more hpieces hmore => exact .more (.cons hpiece hpieces) hmore

/-- The rules take a text to its end, with pieces read before it: the innermost
open brace is closed first, and what it gives is a piece of the next one. -/
def Finishes (result : List Glob) : List OpenChoice → List Glob → List Char → Prop
  | [], pieces, text => ∃ more, Reads false text more [] ∧ result = pieces.reverse ++ more
  | top :: outer, pieces, text =>
    ∃ more others rest, ReadsAlternatives text (more :: others) rest ∧
      Finishes result outer
        (.choice (top.closed.reverse ++ (pieces.reverse ++ more) :: others) :: top.before) rest

theorem Finishes.piece {result : List Glob} {stack : List OpenChoice} {pieces : List Glob}
    {text rest : List Char} {piece : Glob}
    (hpiece : ReadsPiece (!stack.isEmpty) text piece rest)
    (hrest : Finishes result stack (piece :: pieces) rest) : Finishes result stack pieces text := by
  cases stack with
  | nil =>
      obtain ⟨more, hmore, rfl⟩ := hrest
      exact ⟨piece :: more, .cons hpiece hmore, by simp⟩
  | cons top outer =>
      obtain ⟨more, others, after, hothers, houter⟩ := hrest
      exact ⟨piece :: more, others, after, hothers.cons hpiece, by simpa using houter⟩

theorem Finishes.brace {result : List Glob} {stack : List OpenChoice} {pieces : List Glob}
    {rest : List Char} (hrest : Finishes result (⟨pieces, []⟩ :: stack) [] rest) :
    Finishes result stack pieces ('\x7b' :: rest) := by
  obtain ⟨more, others, after, hothers, houter⟩ := hrest
  exact .piece (.choice _ hothers) houter

theorem Finishes.comma {result : List Glob} {top : OpenChoice} {outer : List OpenChoice}
    {pieces : List Glob} {rest : List Char}
    (hrest : Finishes result (⟨top.before, pieces.reverse :: top.closed⟩ :: outer) [] rest) :
    Finishes result (top :: outer) pieces (',' :: rest) := by
  obtain ⟨more, others, after, hothers, houter⟩ := hrest
  exact ⟨[], more :: others, after, .more (.stop rfl rest) hothers, by simpa using houter⟩

theorem Finishes.close {result : List Glob} {top : OpenChoice} {outer : List OpenChoice}
    {pieces : List Glob} {rest : List Char}
    (hrest : Finishes result outer
      (.choice (pieces.reverse :: top.closed).reverse :: top.before) rest) :
    Finishes result (top :: outer) pieces ('\x7d' :: rest) :=
  ⟨[], [], rest, .last (.stop rfl rest), by simpa using hrest⟩

/-- The rules take the rest of a class, of which some members have been read,
and the text after it to its end. -/
def FinishesClass (result : List Glob) (stack : List OpenChoice) (pieces : List Glob)
    (negated : Bool) (found : List CharRange) (text : List Char) : Prop :=
  ∃ ranges rest, ReadsMembers text ranges rest ∧ (found ≠ [] ∨ ranges ≠ []) ∧
    Finishes result stack (.oneOf negated (found.reverse ++ ranges) :: pieces) rest

namespace FinishesClass

variable {result : List Glob} {stack : List OpenChoice} {pieces : List Glob} {negated : Bool}
  {found : List CharRange} {text rest : List Char} {c : Char}

theorem close (hfound : found ≠ [])
    (hrest : Finishes result stack (.oneOf negated found.reverse :: pieces) rest) :
    FinishesClass result stack pieces negated found (']' :: rest) :=
  ⟨[], rest, .close rest, Or.inl hfound, by simpa using hrest⟩

theorem single (hmember : ReadsMember text c rest) (hdash : rest.head? ≠ some '-')
    (hrest : FinishesClass result stack pieces negated (⟨c, c⟩ :: found) rest) :
    FinishesClass result stack pieces negated found text := by
  obtain ⟨ranges, after, hmore, -, hafter⟩ := hrest
  exact ⟨⟨c, c⟩ :: ranges, after, .single hmember hdash hmore, Or.inr (List.cons_ne_nil _ _),
    by simpa using hafter⟩

theorem dash (hmember : ReadsMember text c ('-' :: ']' :: rest))
    (hrest : Finishes result stack
      (.oneOf negated (⟨'-', '-'⟩ :: ⟨c, c⟩ :: found).reverse :: pieces) rest) :
    FinishesClass result stack pieces negated found text :=
  ⟨[⟨c, c⟩, ⟨'-', '-'⟩], rest, .dash hmember, Or.inr (List.cons_ne_nil _ _),
    by simpa using hrest⟩

theorem range {high : Char} (hmember : ReadsMember text c ('-' :: high :: rest))
    (hhigh : high ≠ ']') (hle : c ≤ high)
    (hrest : FinishesClass result stack pieces negated (⟨c, high⟩ :: found) rest) :
    FinishesClass result stack pieces negated found text := by
  obtain ⟨ranges, after, hmore, -, hafter⟩ := hrest
  exact ⟨⟨c, high⟩ :: ranges, after, .range hmember hhigh hle hmore,
    Or.inr (List.cons_ne_nil _ _), by simpa using hafter⟩

/-- A class that has been opened is a piece. -/
theorem piece (mark : List Char)
    (hopen : ∀ {ranges : List CharRange} {rest : List Char}, ReadsMembers text ranges rest →
      ranges ≠ [] → ReadsPiece (!stack.isEmpty) (mark ++ text) (.oneOf negated ranges) rest)
    (hclass : FinishesClass result stack pieces negated [] text) :
    Finishes result stack pieces (mark ++ text) := by
  obtain ⟨ranges, after, hmore, hsome, hafter⟩ := hclass
  exact .piece (hopen hmore (hsome.resolve_left (by simp))) hafter

end FinishesClass

theorem addRange_eq_closed {found more : List CharRange} {low high : Char}
    (hmore : addRange found low high = .ok (true, more)) :
    high = ']' ∧ more = ⟨'-', '-'⟩ :: ⟨low, low⟩ :: found := by
  unfold addRange at hmore
  split at hmore
  · next hhigh =>
      cases hmore
      exact ⟨hhigh, rfl⟩
  · split at hmore <;> cases hmore

theorem addRange_eq_open {found more : List CharRange} {low high : Char}
    (hmore : addRange found low high = .ok (false, more)) :
    high ≠ ']' ∧ low ≤ high ∧ more = ⟨low, high⟩ :: found := by
  unfold addRange at hmore
  split at hmore
  · cases hmore
  · next hhigh =>
      split at hmore
      · cases hmore
      · next hle =>
          cases hmore
          exact ⟨hhigh, Char.not_lt.mp hle, rfl⟩

/-- Outside braces a separator is a character like any other. -/
theorem Finishes.separator {result : List Glob} {pieces : List Glob} {c : Char} {rest : List Char}
    (hc : isSpecial c = false) (hrest : Finishes result [] (.literal c :: pieces) rest) :
    Finishes result [] pieces (c :: rest) :=
  .piece (.plain hc (by simp) rest) hrest

/-- A member without a range behind it; a dash at the end of the text leaves the
class open, which the reader refuses. -/
theorem FinishesClass.of_readMembers {stack : List OpenChoice} {pieces result : List Glob}
    {negated : Bool} {found : List CharRange} {text rest : List Char} {c : Char}
    (hmember : ReadsMember text c rest)
    (hrange : ∀ high more, rest = '-' :: high :: more → False)
    (hread : readMembers stack pieces negated (⟨c, c⟩ :: found) rest = .ok result)
    (hmembers : FinishesClass result stack pieces negated (⟨c, c⟩ :: found) rest) :
    FinishesClass result stack pieces negated found text := by
  refine .single hmember (fun hdash => ?_) hmembers
  obtain ⟨more, rfl⟩ := List.head?_eq_some_iff.mp hdash
  cases more with
  | nil => simp [readMembers] at hread
  | cons high more => exact hrange high more rfl

/-- A member with a dash and another character behind it. -/
theorem FinishesClass.of_addRange {stack : List OpenChoice} {pieces result : List Glob}
    {negated : Bool} {found : List CharRange} {text rest : List Char} {low high : Char}
    (hmember : ReadsMember text low ('-' :: high :: rest))
    (hread : (match addRange found low high with
      | .error e => Except.error e
      | .ok (true, found) => readPieces stack (.oneOf negated found.reverse :: pieces) rest
      | .ok (false, found) => readMembers stack pieces negated found rest) = .ok result)
    (hpieces : ∀ {pieces}, readPieces stack pieces rest = .ok result →
      Finishes result stack pieces rest)
    (hmembers : ∀ {found}, readMembers stack pieces negated found rest = .ok result →
      FinishesClass result stack pieces negated found rest) :
    FinishesClass result stack pieces negated found text := by
  split at hread
  · cases hread
  · next hrange =>
      obtain ⟨rfl, rfl⟩ := addRange_eq_closed hrange
      exact .dash hmember (hpieces hread)
  · next hrange =>
      obtain ⟨hhigh, hle, rfl⟩ := addRange_eq_open hrange
      exact .range hmember hhigh hle (hmembers hread)

/-- The cases for a backslash leave no text that starts with one. -/
theorem ne_backslash {c : Char} {rest : List Char} (hlast : c = '\\' → rest = [] → False)
    (hescape : ∀ d more, c = '\\' → rest = d :: more → False) : c ≠ '\\' := by
  intro hc
  cases rest with
  | nil => exact hlast hc rfl
  | cons d more => exact hescape d more hc rfl

mutual

theorem finishes_of_readPieces {stack : List OpenChoice} {pieces result : List Glob}
    {text : List Char} (hread : readPieces stack pieces text = .ok result) :
    Finishes result stack pieces text := by
  unfold readPieces at hread
  split at hread
  · split at hread
    · next hstack =>
        cases hread
        obtain rfl := List.isEmpty_iff.mp hstack
        exact ⟨[], .finish, by simp⟩
    · cases hread
  · cases hread
  · exact .piece (.escaped _ _ _) (finishes_of_readPieces hread)
  · exact .piece (.anyRun _ _) (finishes_of_readPieces hread)
  · next rest hrest =>
      refine .piece (.nameRun _ fun hhead => ?_) (finishes_of_readPieces hread)
      obtain ⟨more, hmore⟩ := List.head?_eq_some_iff.mp hhead
      exact hrest more hmore
  · exact .piece (.nameChar _ _) (finishes_of_readPieces hread)
  · exact FinishesClass.piece ['[', '!'] (.noneOf _ rfl) (finishes_of_readMembers hread)
  · exact FinishesClass.piece ['[', '^'] (.noneOf _ rfl) (finishes_of_readMembers hread)
  · next rest hexclamation hcaret =>
      have hmark := isNegation_head?_eq_false hexclamation hcaret
      exact FinishesClass.piece ['['] (.oneOf _ hmark) (finishes_of_readMembers hread)
  · exact (finishes_of_readPieces hread).brace
  · split at hread
    · exact .separator rfl (finishes_of_readPieces hread)
    · exact (finishes_of_readPieces hread).comma
  · split at hread
    · exact .separator rfl (finishes_of_readPieces hread)
    · exact (finishes_of_readPieces hread).close
  · next c rest hlast hescape _ _ _ _ _ _ _ _ _ =>
      have hbackslash := ne_backslash hlast hescape
      refine .piece (.plain ?_ (fun _ => ?_) _) (finishes_of_readPieces hread)
      · simp_all [isSpecial]
      · simp_all [isSeparator]
termination_by text.length

theorem finishes_of_readMembers {stack : List OpenChoice} {pieces result : List Glob}
    {negated : Bool} {found : List CharRange} {text : List Char}
    (hread : readMembers stack pieces negated found text = .ok result) :
    FinishesClass result stack pieces negated found text := by
  unfold readMembers at hread
  split at hread
  · cases hread
  · cases hread
  · next c high rest =>
      exact .of_addRange (.escaped c _) hread finishes_of_readPieces finishes_of_readMembers
  · next c rest hrange =>
      exact .of_readMembers (.escaped c _) hrange hread (finishes_of_readMembers hread)
  · split at hread
    · cases hread
    · next hfound => exact .close (by simpa using hfound) (finishes_of_readPieces hread)
  · next c high rest _ hbackslash hbracket =>
      exact .of_addRange (.plain ⟨hbackslash, hbracket⟩ _) hread finishes_of_readPieces
        finishes_of_readMembers
  · next c rest hlast _ hescape hbracket hrange =>
      exact .of_readMembers (.plain ⟨ne_backslash hlast hescape, hbracket⟩ _) hrange hread
        (finishes_of_readMembers hread)
termination_by text.length

end

/-- What the rules take to its end is read, whatever was read before it. -/
theorem readPieces_of_finishes {stack : List OpenChoice} {pieces result : List Glob}
    {text : List Char} (hfinishes : Finishes result stack pieces text) :
    readPieces stack pieces text = .ok result := by
  induction stack generalizing pieces text with
  | nil =>
      obtain ⟨more, hmore, rfl⟩ := hfinishes
      rw [readPieces_of_reads hmore rfl, readPieces]
      simp
  | cons top outer ih =>
      obtain ⟨more, others, rest, hothers, houter⟩ := hfinishes
      rw [← ih houter]
      cases hothers with
      | last hpieces =>
          rw [readPieces_of_reads hpieces rfl, readPieces]
          simp
      | more hpieces hmore =>
          rw [readPieces_of_reads hpieces rfl, readPieces, readPieces_of_readsAlternatives hmore]
          simp

/-- The reader gives the pieces that the rules take the whole text to. -/
theorem read_eq_ok_iff {text : List Char} {pieces : List Glob} :
    read text = .ok pieces ↔ Reads false text pieces [] := by
  constructor
  · intro hread
    obtain ⟨more, hmore, rfl⟩ := finishes_of_readPieces hread
    simpa using hmore
  · intro hreads
    rw [read, readPieces_of_reads hreads rfl, readPieces]
    simp

end Shipment.Glob
