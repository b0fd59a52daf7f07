import Mathlib.Data.Char
import Shipment.Glob.Expression
import Shipment.Proofs.Glob.Faults
import Shipment.Proofs.Glob.Language

/-!
# Expressions of globs are well formed

Regular expressions have a syntax and a meaning of their own, which know nothing of
globs.  The expression of a glob follows this syntax, whatever characters the glob has,
and it stands for the texts that the pieces of the glob match.
-/

namespace Shipment

/-! ## Regular expressions -/

namespace Expression

/-- The characters that do not stand for themselves outside of classes. -/
def special : List Char :=
  ['\\', '.', '+', '*', '?', '(', ')', '|', '[', ']', '\x7b', '\x7d', '^', '$']

/-- The characters that do not stand for themselves everywhere in a class. -/
def classSpecial : List Char :=
  ['\\', '[', ']', '^', '-', '&', '~']

/-- A backslash makes these characters stand for themselves: ASCII characters that are
neither letters nor digits nor angle brackets. -/
def Escapable (c : Char) : Prop :=
  c.toNat < 128 ∧ c.isAlphanum = false ∧ c ≠ '<' ∧ c ≠ '>'

/-- One character in a class. -/
inductive Member : List Char → Char → Prop
  | plain {c : Char} (hc : c ∉ classSpecial) : Member [c] c
  | escaped {c : Char} (hc : Escapable c) : Member ['\\', c] c

/-- The characters and ranges of a class. -/
inductive Members : List Char → List CharRange → Prop
  | nil : Members [] []
  | single {own more : List Char} {c : Char} {ranges : List CharRange} (hown : Member own c)
      (hmore : Members more ranges) : Members (own ++ more) (⟨c, c⟩ :: ranges)
  | range {first last more : List Char} {low high : Char} {ranges : List CharRange}
      (hfirst : Member first low) (hlast : Member last high) (hle : low ≤ high)
      (hmore : Members more ranges) :
      Members ((first ++ '-' :: last) ++ more) (⟨low, high⟩ :: ranges)

mutual

/-- What a star may follow, with the texts that it stands for. -/
inductive Atom : List Char → Language Char → Prop
  | plain {c : Char} (hc : c ∉ special) : Atom [c] (Glob.oneChar (· = c))
  | escaped {c : Char} (hc : Escapable c) : Atom ['\\', c] (Glob.oneChar (· = c))
  | dot : Atom ['.'] (Glob.oneChar (· ≠ '\n'))
  | oneOf {body : List Char} {ranges : List CharRange} (hbody : Members body ranges)
      (hranges : ranges ≠ []) : Atom ('[' :: body ++ [']']) (Glob.oneChar (Glob.Lists ranges))
  | noneOf {body : List Char} {ranges : List CharRange} (hbody : Members body ranges)
      (hranges : ranges ≠ []) :
      Atom ('[' :: '^' :: body ++ [']']) (Glob.oneChar fun c => ¬Glob.Lists ranges c)
  | group {body : List Char} {L : Language Char} (hbody : Alternation body L) :
      Atom ('(' :: '?' :: ':' :: body ++ [')']) L

inductive Piece : List Char → Language Char → Prop
  | once {own : List Char} {L : Language Char} (hown : Atom own L) : Piece own L
  | star {own : List Char} {L : Language Char} (hown : Atom own L) :
      Piece (own ++ ['*']) (KStar.kstar L)

/-- Pieces, one after another. -/
inductive Branch : List Char → Language Char → Prop
  | nil : Branch [] 1
  | cons {own more : List Char} {L M : Language Char} (hown : Piece own L)
      (hmore : Branch more M) : Branch (own ++ more) (L * M)

/-- Branches with bars between them. -/
inductive Alternation : List Char → Language Char → Prop
  | one {own : List Char} {L : Language Char} (hown : Branch own L) : Alternation own L
  | more {own more : List Char} {L M : Language Char} (hown : Branch own L)
      (hmore : Alternation more M) : Alternation (own ++ '|' :: more) (L + M)

end

/-- An expression that is bound to the start and the end of a text.  The anchors belong to one
branch, so no bar may stand between them. -/
inductive Whole : List Char → Language Char → Prop
  | anchored {body : List Char} {L : Language Char} (hbody : Branch body L) :
      Whole ('^' :: body ++ ['$']) L

end Expression

namespace Glob

open Expression (Member Members Atom Piece Branch Alternation Whole)

/-! ## Characters -/

theorem escapable_of_isMeta {c : Char} (hc : isMeta c = true) : Expression.Escapable c := by
  unfold isMeta at hc
  split at hc
  all_goals first
    | exact ⟨by decide, by decide, by decide, by decide⟩
    | cases hc

theorem notMem_special {c : Char} (hc : isMeta c = false) : c ∉ Expression.special := by
  have hspecial : Expression.special.all isMeta = true := by decide
  exact fun hmem => Bool.noConfusion ((List.all_eq_true.mp hspecial c hmem).symm.trans hc)

theorem atom_literalText (c : Char) : Atom (literalText c) (oneChar (· = c)) := by
  unfold literalText
  by_cases hc : isMeta c = true
  · rw [if_pos hc]
    exact .escaped (escapable_of_isMeta hc)
  · rw [if_neg hc]
    exact .plain (notMem_special (Bool.eq_false_iff.mpr hc))

theorem notMem_classSpecial {c : Char} (hc : isClassMeta c = false) :
    c ∉ Expression.classSpecial := by
  have hspecial : Expression.classSpecial.all isClassMeta = true := by decide
  exact fun hmem => Bool.noConfusion ((List.all_eq_true.mp hspecial c hmem).symm.trans hc)

theorem isMeta_of_isClassMeta {c : Char} (hc : isClassMeta c = true) : isMeta c = true := by
  unfold isClassMeta at hc
  split at hc
  all_goals first
    | rfl
    | cases hc

theorem member_memberText (c : Char) : Member (memberText c) c := by
  unfold memberText
  by_cases hc : isClassMeta c = true
  · rw [if_pos hc]
    exact .escaped (escapable_of_isMeta (isMeta_of_isClassMeta hc))
  · rw [if_neg hc]
    exact .plain (notMem_classSpecial (Bool.eq_false_iff.mpr hc))

/-- A run of characters is a repetition of one character. -/
theorem kstar_oneChar (P : Char → Prop) : KStar.kstar (oneChar P) = runOf P := by
  ext text
  rw [mem_runOf, Language.mem_kstar]
  constructor
  · rintro ⟨parts, rfl, hparts⟩ c hc
    obtain ⟨part, hpart, hc⟩ := List.mem_flatten.mp hc
    obtain ⟨d, hd, rfl⟩ := hparts part hpart
    obtain rfl := List.mem_singleton.mp hc
    exact hd
  · intro htext
    refine ⟨text.map fun c => [c], ?_, ?_⟩
    · rw [← List.flatMap_def, List.flatMap_singleton']
    · intro part hpart
      obtain ⟨c, hc, rfl⟩ := List.mem_map.mp hpart
      exact ⟨c, htext c hc, rfl⟩

/-- The class of all characters but the slash and the members. -/
theorem atom_noneOf {body : List Char} {ranges : List CharRange} (hbody : Members body ranges) :
    Atom ('[' :: '^' :: ('/' :: body) ++ [']'])
      (oneChar fun c => c ≠ '/' ∧ ¬Lists ranges c) := by
  have hslash : Members ('/' :: body) (⟨'/', '/'⟩ :: ranges) :=
    .single (.plain (by decide)) hbody
  have hlists : (fun c => c ≠ '/' ∧ ¬Lists ranges c) =
      fun c => ¬Lists (⟨'/', '/'⟩ :: ranges) c := by
    funext c
    have hslash : ('/' ≤ c ∧ c ≤ '/') = (c = '/') :=
      propext (le_antisymm_iff.symm.trans eq_comm)
    rw [lists_cons, not_or, hslash]
  rw [hlists]
  exact .noneOf hslash (List.cons_ne_nil _ _)

theorem atom_notSlash : Atom "[^/]".toList (oneChar (· ≠ '/')) := by
  have hnone : (fun c => c ≠ '/') = fun c => c ≠ '/' ∧ ¬Lists [] c := by
    funext c
    simp [Lists]
  rw [hnone]
  exact atom_noneOf .nil

/-! ## What is written for a construct -/

@[simp]
theorem written_nil (rest : Except GlobError (List Char)) : written [] rest = rest := by
  cases rest <;> rfl

theorem written_written (text more : List Char) (rest : Except GlobError (List Char)) :
    written text (written more rest) = written (text ++ more) rest := by
  cases rest <;> simp [written, Except.map]

section Classes

variable {depth : Nat} {nonempty : Bool} {text rest : List Char} {c : Char}

theorem membersFrom_dash (hmember : ReadsMember text c ('-' :: ']' :: rest)) :
    membersFrom depth nonempty text =
      written (memberText c ++ memberText '-') (written [']'] (expressionFrom depth rest)) := by
  rw [written_written]
  cases hmember with
  | escaped => simp [membersFrom, rangeText]
  | plain hc => simp [membersFrom, rangeText, hc]

theorem membersFrom_range {high : Char} (hmember : ReadsMember text c ('-' :: high :: rest))
    (hhigh : high ≠ ']') (hle : c ≤ high) :
    membersFrom depth nonempty text =
      written (memberText c ++ '-' :: memberText high) (membersFrom depth true rest) := by
  have hlt : ¬high < c := Char.not_lt.mpr hle
  cases hmember with
  | escaped => simp [membersFrom, rangeText, hhigh, hlt]
  | plain hc => simp [membersFrom, rangeText, hhigh, hlt, hc]

theorem membersFrom_single (hmember : ReadsMember text c rest) (hdash : rest.head? ≠ some '-') :
    membersFrom depth nonempty text = written (memberText c) (membersFrom depth true rest) := by
  cases hmember with
  | escaped =>
      rw [membersFrom]
      rintro high more rfl
      exact hdash rfl
  | plain hc =>
      rw [membersFrom]
      · exact fun heq _ => hc.1 heq
      · exact fun _ _ _ heq _ => hc.1 heq
      · exact fun _ _ heq _ => hc.1 heq
      · exact hc.2
      · rintro high more rfl
        exact hdash rfl

/-- The members of a class are written as members, and the bracket behind them. -/
theorem ReadsMembers.exists_members {ranges : List CharRange}
    (hmembers : ReadsMembers text ranges rest) (depth : Nat) {nonempty : Bool}
    (hsome : nonempty = true ∨ ranges ≠ []) :
    ∃ own, Members own ranges ∧ membersFrom depth nonempty text =
      written own (written [']'] (expressionFrom depth rest)) := by
  induction hmembers generalizing nonempty with
  | close rest =>
      have hnonempty : nonempty = true := by simpa using hsome
      exact ⟨[], .nil, by simp [membersFrom, hnonempty]⟩
  | @dash _ _ c hmember =>
      have hown : Members (memberText c ++ (memberText '-' ++ [])) [⟨c, c⟩, ⟨'-', '-'⟩] :=
        .single (member_memberText c) (.single (member_memberText '-') .nil)
      exact ⟨_, hown, by rw [membersFrom_dash hmember, List.append_nil]⟩
  | @single _ _ _ c _ hmember hdash _ ih =>
      obtain ⟨own, hown, hwritten⟩ := ih (Or.inl rfl)
      refine ⟨memberText c ++ own, .single (member_memberText c) hown, ?_⟩
      rw [membersFrom_single hmember hdash, hwritten, written_written]
  | @range _ _ _ low high _ hmember hhigh hle _ ih =>
      obtain ⟨own, hown, hwritten⟩ := ih (Or.inl rfl)
      refine ⟨_, .range (member_memberText low) (member_memberText high) hle hown, ?_⟩
      rw [membersFrom_range hmember hhigh hle, hwritten, written_written]

end Classes

theorem expressionFrom_class {depth : Nat} {body : List Char}
    (hmark : ∀ c, body.head? = some c → isNegation c = false) :
    expressionFrom depth ('[' :: body) = written ['['] (membersFrom depth false body) := by
  rw [expressionFrom]
  · rintro more rfl
    exact absurd (hmark '!' rfl) (by decide)
  · rintro more rfl
    exact absurd (hmark '^' rfl) (by decide)

theorem expressionFrom_negatedClass {depth : Nat} {mark : Char} {body : List Char}
    (hmark : isNegation mark = true) :
    expressionFrom depth ('[' :: mark :: body) =
      written "[^/".toList (membersFrom depth false body) := by
  rcases eq_of_isNegation hmark with rfl | rfl
  · rw [expressionFrom]
  · rw [expressionFrom]

theorem expressionFrom_plain {depth : Nat} {c : Char} {rest : List Char}
    (hspecial : isSpecial c = false) (hseparator : (depth != 0) = true → isSeparator c = false) :
    expressionFrom depth (c :: rest) = written (literalText c) (expressionFrom depth rest) := by
  simp only [isSpecial, Bool.or_eq_false_iff, beq_eq_false_iff_ne] at hspecial
  obtain ⟨⟨⟨⟨hstar, hquestion⟩, hbracket⟩, hbrace⟩, hbackslash⟩ := hspecial
  cases depth with
  | zero =>
      by_cases hcomma : c = ','
      · subst hcomma
        rw [expressionFrom]
      by_cases hclose : c = '\x7d'
      · subst hclose
        rw [expressionFrom]
      rw [expressionFrom]
      all_goals simp_all
  | succ outer =>
      have hordinary := hseparator rfl
      simp only [isSeparator, Bool.or_eq_false_iff, beq_eq_false_iff_ne] at hordinary
      rw [expressionFrom]
      all_goals simp_all

mutual

/-- A construct is written as a piece of an expression, with the language of its own. -/
theorem ReadsPiece.exists_piece {inside : Bool} {text rest : List Char} {piece : Glob}
    (hpiece : ReadsPiece inside text piece rest) {depth : Nat} (hdepth : (depth != 0) = inside) :
    ∃ own, Piece own (languageOver (· ≠ '\n') piece) ∧
      expressionFrom depth text = written own (expressionFrom depth rest) := by
  match hpiece with
  | .anyRun _ _ =>
      refine ⟨".*".toList, ?_, by rw [expressionFrom]⟩
      rw [languageOver, ← kstar_oneChar]
      exact .star .dot
  | .nameRun _ hrest =>
      refine ⟨"[^/]*".toList, ?_, ?_⟩
      · rw [languageOver, ← kstar_oneChar]
        exact .star atom_notSlash
      · rw [expressionFrom]
        rintro more rfl
        exact hrest rfl
  | .nameChar _ _ => exact ⟨"[^/]".toList, .once atom_notSlash, by rw [expressionFrom]⟩
  | .oneOf _ hmark hmembers hranges =>
      obtain ⟨own, hown, hwritten⟩ :=
        hmembers.exists_members depth (Or.inr hranges : false = true ∨ _)
      refine ⟨_, .once (.oneOf hown hranges), ?_⟩
      rw [expressionFrom_class hmark, hwritten, written_written, written_written]
      rfl
  | .noneOf _ hmark hmembers hranges =>
      obtain ⟨own, hown, hwritten⟩ :=
        hmembers.exists_members depth (Or.inr hranges : false = true ∨ _)
      refine ⟨_, .once (atom_noneOf hown), ?_⟩
      rw [expressionFrom_negatedClass hmark, hwritten, written_written, written_written]
      rfl
  | .choice _ halternatives =>
      obtain ⟨own, hown, hwritten⟩ := halternatives.exists_alternation depth
      refine ⟨_, .once (.group hown), ?_⟩
      rw [expressionFrom, hwritten, written_written, written_written]
      rfl
  | .escaped _ c _ => exact ⟨literalText c, .once (atom_literalText c), by rw [expressionFrom]⟩
  | .plain (c := c) hspecial hseparator _ =>
      refine ⟨literalText c, .once (atom_literalText c), expressionFrom_plain hspecial ?_⟩
      exact fun hinside => hseparator (hdepth ▸ hinside)

theorem Reads.exists_branch {inside : Bool} {text rest : List Char} {pieces : List Glob}
    (hpieces : Reads inside text pieces rest) (depth : Nat) (hdepth : (depth != 0) = inside) :
    ∃ own, Branch own (lineLanguage pieces) ∧
      expressionFrom depth text = written own (expressionFrom depth rest) := by
  match hpieces with
  | .finish => exact ⟨[], .nil, (written_nil _).symm⟩
  | .stop _ _ => exact ⟨[], .nil, (written_nil _).symm⟩
  | .cons hpiece hmore =>
      obtain ⟨first, hfirst, hwritten⟩ := hpiece.exists_piece hdepth
      obtain ⟨own, hown, hrest⟩ := hmore.exists_branch depth hdepth
      exact ⟨first ++ own, .cons hfirst hown, by rw [hwritten, hrest, written_written]⟩

theorem ReadsAlternatives.exists_alternation {text rest : List Char}
    {alternatives : List (List Glob)} (hreads : ReadsAlternatives text alternatives rest)
    (depth : Nat) :
    ∃ own, Alternation own (choiceLanguageOver (· ≠ '\n') alternatives) ∧
      expressionFrom (depth + 1) text = written own (written [')'] (expressionFrom depth rest)) := by
  match hreads with
  | .last hpieces =>
      obtain ⟨own, hown, hwritten⟩ := hpieces.exists_branch (depth + 1) rfl
      refine ⟨own, ?_, by rw [hwritten, expressionFrom]⟩
      rw [choiceLanguageOver, choiceLanguageOver, add_zero]
      exact .one hown
  | .more hpieces hmore =>
      obtain ⟨first, hfirst, hwritten⟩ := hpieces.exists_branch (depth + 1) rfl
      obtain ⟨own, hown, hrest⟩ := hmore.exists_alternation depth
      refine ⟨first ++ '|' :: own, .more hfirst hown, ?_⟩
      rw [hwritten, expressionFrom, hrest]
      simp [written_written]

end

/-- The expression of a glob that can be read stands for the texts that its pieces match. -/
theorem Reads.exists_expression {text : List Char} {pieces : List Glob}
    (hpieces : Reads false text pieces []) :
    ∃ body, expression text = .ok body ∧ Whole body (lineLanguage pieces) := by
  obtain ⟨own, hown, hwritten⟩ := hpieces.exists_branch 0 rfl
  refine ⟨'^' :: own ++ ['$'], ?_, .anchored hown⟩
  rw [expression, hwritten, expressionFrom]
  simp [written, Except.map]

/-! ## Globs without an expression -/

section Refused

variable {depth : Nat} {text rest : List Char} {e : GlobError}

theorem written_error (text : List Char) (e : GlobError) : written text (.error e) = .error e :=
  rfl

theorem ReadsSome.exists_membersFrom_eq {ranges : List CharRange}
    (hsome : ReadsSome text ranges rest) (depth : Nat) (nonempty : Bool) :
    ∃ own, membersFrom depth nonempty text =
      written own (membersFrom depth (nonempty || !ranges.isEmpty) rest) := by
  induction hsome generalizing nonempty with
  | none text => exact ⟨[], by simp⟩
  | @single _ _ _ c _ hmember hdash _ ih =>
      obtain ⟨own, hwritten⟩ := ih true
      refine ⟨memberText c ++ own, ?_⟩
      rw [membersFrom_single hmember hdash, hwritten, written_written]
      simp
  | @range _ _ _ low high _ hmember hhigh hle _ ih =>
      obtain ⟨own, hwritten⟩ := ih true
      refine ⟨(memberText low ++ '-' :: memberText high) ++ own, ?_⟩
      rw [membersFrom_range hmember hhigh hle, hwritten, written_written]
      simp

theorem membersFrom_of_classFault {ranges : List CharRange} (hfault : ClassFault ranges text e) :
    membersFrom depth (!ranges.isEmpty) text = .error e := by
  cases hfault with
  | closed rest => simp [membersFrom]
  | ended => rw [membersFrom]
  | escape => rw [membersFrom]
  | dash _ hmember =>
      cases hmember with
      | escaped => simp [membersFrom, written_error]
      | plain hc => simp [membersFrom, written_error, hc]
  | range _ hmember hhigh hlt =>
      cases hmember with
      | escaped => simp [membersFrom, rangeText, hhigh, hlt]
      | plain hc => simp [membersFrom, rangeText, hhigh, hlt, hc]

theorem OpensClass.exists_expressionFrom_eq {body : List Char} (hopen : OpensClass text body)
    (depth : Nat) :
    ∃ own, expressionFrom depth text = written own (membersFrom depth false body) := by
  cases hopen with
  | plain hmark => exact ⟨_, expressionFrom_class hmark⟩
  | negated hmark => exact ⟨_, expressionFrom_negatedClass hmark⟩

theorem expressionFrom_of_fault (hfault : Fault depth text e) :
    expressionFrom depth text = .error e := by
  cases hfault with
  | escape => rw [expressionFrom]
  | ended => rfl
  | inClass _ hopen hsome hclass =>
      obtain ⟨opening, hopening⟩ := hopen.exists_expressionFrom_eq depth
      obtain ⟨own, hown⟩ := hsome.exists_membersFrom_eq depth false
      rw [hopening, hown, Bool.false_or, membersFrom_of_classFault hclass, written_error,
        written_error]

theorem Passes.exists_expressionFrom_eq {next : Nat} (hpass : Passes depth text next rest) :
    ∃ own, expressionFrom depth text = written own (expressionFrom next rest) := by
  cases hpass with
  | piece hpiece =>
      obtain ⟨own, -, hwritten⟩ := hpiece.exists_piece rfl
      exact ⟨own, hwritten⟩
  | brace => exact ⟨_, by rw [expressionFrom]⟩
  | comma => exact ⟨_, by rw [expressionFrom]⟩
  | close => exact ⟨_, by rw [expressionFrom]⟩

theorem expressionFrom_of_breaks (hbreaks : Breaks depth text e) :
    expressionFrom depth text = .error e := by
  induction hbreaks with
  | here hfault => exact expressionFrom_of_fault hfault
  | later hpass _ ih =>
      obtain ⟨own, hwritten⟩ := hpass.exists_expressionFrom_eq
      rw [hwritten, ih, written_error]

/-- A glob has no expression for the reason that it cannot be read. -/
theorem expression_eq_error_iff : expression text = .error e ↔ Breaks 0 text e := by
  constructor
  · intro herror
    rw [← read_eq_error_iff]
    cases hread : read text with
    | ok pieces =>
        obtain ⟨body, hbody, -⟩ := (read_eq_ok_iff.mp hread).exists_expression
        cases herror.symm.trans hbody
    | error other =>
        have hother := expressionFrom_of_breaks (read_eq_error_iff.mp hread)
        rw [expression, hother] at herror
        cases herror
        rfl
  · intro hbreaks
    rw [expression, expressionFrom_of_breaks hbreaks]
    rfl

end Refused

end Glob

end Shipment
