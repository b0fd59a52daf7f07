import Mathlib.Algebra.GroupWithZero.Nat
import Shipment.Proofs.Glob.Endings
import Shipment.Proofs.Ignore

/-!
# Separators in globs

A pattern without `**` and without braces stands for one path component between each
two of its slashes.  Its wildcards and negated classes leave the slash out, so a path
that it matches has as many slashes as the pattern, unless a class has a range that
runs over the slash: the slash is then a character of the class like any other.
-/

namespace Shipment

namespace Glob

/-- The class names a character, as a member or as an end of a range. -/
def Names (ranges : List CharRange) (c : Char) : Prop :=
  ∃ range ∈ ranges, range.low = c ∨ range.high = c

theorem names_cons {range : CharRange} {rest : List CharRange} {c : Char} :
    Names (range :: rest) c ↔ (range.low = c ∨ range.high = c) ∨ Names rest c := by
  simp [Names]

/-- A piece of one path component: no run over slashes and no choice. -/
def InComponent : Glob → Prop
  | anyRun => False
  | choice _ => False
  | _ => True

/-- The slashes of a piece of one path component. -/
def slashes : Glob → Nat
  | literal c => if c = '/' then 1 else 0
  | _ => 0

/-! ## Slashes of the pattern -/

section Reading

variable {text rest : List Char}

theorem ReadsMember.count_slash {c : Char} (hmember : ReadsMember text c rest) (hc : c ≠ '/') :
    text.count '/' = rest.count '/' := by
  cases hmember with
  | escaped => simp [hc]
  | plain => simp [hc]

theorem ReadsMembers.count_slash {ranges : List CharRange}
    (hmembers : ReadsMembers text ranges rest) (hnames : ¬Names ranges '/') :
    text.count '/' = rest.count '/' := by
  induction hmembers with
  | close rest => simp
  | dash hmember =>
      have hc := fun heq => hnames (names_cons.mpr (Or.inl (Or.inl heq)))
      rw [hmember.count_slash hc]
      simp
  | single hmember hdash hmore ih =>
      rw [names_cons, not_or, not_or] at hnames
      rw [hmember.count_slash hnames.1.1, ih hnames.2]
  | range hmember hhigh hle hmore ih =>
      rw [names_cons, not_or, not_or] at hnames
      rw [hmember.count_slash hnames.1.1, ← ih hnames.2]
      simp [hnames.1.2]

theorem ReadsPiece.count_slash {inside : Bool} {piece : Glob}
    (hpiece : ReadsPiece inside text piece rest) (hcomponent : InComponent piece)
    (hnames : ∀ negated ranges, piece = .oneOf negated ranges → ¬Names ranges '/') :
    text.count '/' = slashes piece + rest.count '/' := by
  match hpiece with
  | .anyRun _ _ => exact hcomponent.elim
  | .nameRun _ _ => simp [slashes]
  | .nameChar _ _ => simp [slashes]
  | .oneOf _ _ hmembers _ => simp [slashes, hmembers.count_slash (hnames _ _ rfl)]
  | @ReadsPiece.noneOf _ _ _ mark _ hmark hmembers _ =>
      have hslash : mark ≠ '/' := by
        rintro rfl
        exact absurd hmark (by decide)
      simp [slashes, hslash, hmembers.count_slash (hnames _ _ rfl)]
  | .choice _ _ => exact hcomponent.elim
  | .escaped _ c _ => simp [slashes, List.count_cons, Nat.add_comm]
  | .plain _ _ _ => simp [slashes, List.count_cons, Nat.add_comm]

/-- The pieces have the slashes of the text that they are read from. -/
theorem Reads.count_slash {pieces : List Glob} (hpieces : Reads false text pieces [])
    (hcomponent : ∀ piece ∈ pieces, InComponent piece)
    (hnames : ∀ negated ranges, .oneOf negated ranges ∈ pieces → ¬Names ranges '/') :
    text.count '/' = (pieces.map slashes).sum := by
  induction pieces generalizing text with
  | nil =>
      cases hpieces
      rfl
  | cons piece pieces ih =>
      cases hpieces with
      | cons hpiece hmore =>
          obtain ⟨hown, hothers⟩ := List.forall_mem_cons.mp hcomponent
          have hrest := ih hmore hothers fun negated ranges hmem =>
            hnames negated ranges (List.mem_cons_of_mem _ hmem)
          have hfirst := hpiece.count_slash hown fun negated ranges heq =>
            hnames negated ranges (heq ▸ List.mem_cons_self)
          rw [hfirst, hrest, List.map_cons, List.sum_cons]

theorem ReadsPiece.suffix {inside : Bool} {piece : Glob}
    (hpiece : ReadsPiece inside text piece rest) : rest <:+ text := by
  obtain ⟨front, last, rfl, -⟩ := hpiece.exists_last
  exact ⟨front ++ [last], by simp⟩

/-- A piece that goes beyond one path component is written with two stars or a brace. -/
theorem Reads.inComponent {pieces : List Glob} (hpieces : Reads false text pieces [])
    (hstars : ¬['*', '*'] <:+: text) (hbrace : '\x7b' ∉ text) :
    ∀ piece ∈ pieces, InComponent piece := by
  induction pieces generalizing text with
  | nil => simp
  | cons piece pieces ih =>
      cases hpieces with
      | @cons _ _ next _ _ _ hpiece hmore =>
          have hsuffix : next <:+ text := hpiece.suffix
          refine List.forall_mem_cons.mpr ⟨?_, ih hmore ?_ ?_⟩
          · cases hpiece with
            | anyRun => exact hstars ⟨[], next, rfl⟩
            | choice => exact hbrace List.mem_cons_self
            | _ => trivial
          · exact fun hwithin => hstars (List.IsInfix.trans hwithin hsuffix.isInfix)
          · exact fun hmem => hbrace (hsuffix.mem hmem)

end Reading

/-! ## Slashes of the paths -/

section Matching

variable {P : Char → Prop}

theorem count_slash_of_mem_languageOver {piece : Glob} (hcomponent : InComponent piece)
    (hlists : ∀ ranges, piece = .oneOf false ranges → ¬Lists ranges '/') {text : List Char}
    (htext : text ∈ languageOver P piece) : text.count '/' = slashes piece := by
  have hone : ∀ {c : Char}, c ≠ '/' → List.count '/' [c] = 0 := by
    intro c hc
    simp [hc]
  match piece, htext with
  | .literal c, htext =>
      obtain ⟨d, hd, rfl⟩ := htext
      simp [slashes, List.count_cons, hd]
  | .anyRun, _ => exact hcomponent.elim
  | .nameRun, htext => exact List.count_eq_zero.mpr fun hmem => htext _ hmem rfl
  | .nameChar, htext =>
      obtain ⟨c, hc, rfl⟩ := htext
      exact hone hc
  | .oneOf false ranges, htext =>
      obtain ⟨c, hc, rfl⟩ := htext
      exact hone fun hslash => hlists ranges rfl (hslash ▸ hc)
  | .oneOf true ranges, htext =>
      obtain ⟨c, hc, rfl⟩ := htext
      exact hone hc.1
  | .choice _, _ => exact hcomponent.elim

/-- A path that is matched has the slashes of the pieces, as long as no class lists the slash. -/
theorem count_slash_of_mem_sequence {pieces : List Glob}
    (hcomponent : ∀ piece ∈ pieces, InComponent piece)
    (hlists : ∀ ranges, .oneOf false ranges ∈ pieces → ¬Lists ranges '/') {text : List Char}
    (htext : text ∈ sequenceLanguageOver P pieces) :
    text.count '/' = (pieces.map slashes).sum := by
  induction pieces generalizing text with
  | nil =>
      obtain rfl := (Language.mem_one _).mp htext
      rfl
  | cons piece pieces ih =>
      obtain ⟨front, hfront, back, hback, rfl⟩ := Language.mem_mul.mp htext
      obtain ⟨hown, hothers⟩ := List.forall_mem_cons.mp hcomponent
      have hfirst := count_slash_of_mem_languageOver hown
        (fun ranges heq => hlists ranges (heq ▸ List.mem_cons_self)) hfront
      have hrest := ih hothers (fun ranges hmem => hlists ranges (List.mem_cons_of_mem _ hmem)) hback
      rw [List.count_append, hfirst, hrest, List.map_cons, List.sum_cons]

/-- A class that lists the slash and another character stands for either in a path. -/
theorem exists_count_slash_ne {pieces : List Glob} {ranges : List CharRange}
    (hclass : .oneOf false ranges ∈ pieces) (hlists : Lists ranges '/')
    (hnames : ¬Names ranges '/') {text : List Char}
    (htext : text ∈ sequenceLanguageOver P pieces) (count : Nat) :
    ∃ other ∈ sequenceLanguageOver P pieces, other.count '/' ≠ count := by
  obtain ⟨before, after, rfl⟩ := List.append_of_mem hclass
  rw [sequenceLanguageOver_append, sequenceLanguageOver] at htext ⊢
  obtain ⟨front, hfront, tail, htail, -⟩ := Language.mem_mul.mp htext
  obtain ⟨-, -, back, hback, -⟩ := Language.mem_mul.mp htail
  have hput : ∀ c, Lists ranges c → front ++ ([c] ++ back) ∈
      sequenceLanguageOver P before * (languageOver P (.oneOf false ranges) *
        sequenceLanguageOver P after) :=
    fun c hc => Language.append_mem_mul hfront (Language.append_mem_mul ⟨c, hc, rfl⟩ hback)
  obtain ⟨range, hrange, hlow, hhigh⟩ := hlists
  have hne : range.low ≠ '/' := fun heq => hnames ⟨range, hrange, Or.inl heq⟩
  have hlisted : Lists ranges range.low := ⟨range, hrange, Char.le_refl _, Char.le_trans hlow hhigh⟩
  -- the slash makes one more than the lower end of the range in its place
  by_cases hcount : (front ++ (['/'] ++ back)).count '/' = count
  · refine ⟨_, hput _ hlisted, ?_⟩
    rw [← hcount]
    simp [hne]
  · exact ⟨_, hput '/' ⟨range, hrange, hlow, hhigh⟩, hcount⟩

end Matching

end Glob

namespace IgnoreRule

theorem fullText_eq_self {raw : List Char} (hstart : raw.head? = some '/')
    (hend : raw.getLast? ≠ some '/') : fullText raw = raw := by
  obtain ⟨rest, rfl⟩ := List.head?_eq_some_iff.mp hstart
  have hslash : endsWith ['/'] ('/' :: rest) = false := by
    rw [endsWith, Bool.eq_false_iff, ne_eq, List.isSuffixOf_iff_suffix]
    rintro ⟨front, hfront⟩
    exact hend (by rw [← hfront, List.getLast?_append]; rfl)
  simp [fullText, startsWith, hslash]

/-- An anchored pattern without `**`, braces and a slash at its end, in which no class names
the slash: every path that it matches has as many slashes as the pattern exactly if no class
lists the slash by a range over it, or if the pattern matches nothing at all. -/
theorem matches_count_slash_iff {raw : List Char} {rule : IgnoreRule}
    (hcompile : compile raw = .ok rule) (hstart : raw.head? = some '/')
    (hend : raw.getLast? ≠ some '/') (hstars : ¬['*', '*'] <:+: raw) (hbrace : '\x7b' ∉ raw)
    (hnames : ∀ negated ranges, .oneOf negated ranges ∈ rule.pieces → ¬Glob.Names ranges '/') :
    (∀ path, rule.matchesPath path = true → path.count '/' = raw.count '/') ↔
      (∀ ranges, .oneOf false ranges ∈ rule.pieces → ¬Glob.Lists ranges '/') ∨
        ∀ path, rule.matchesPath path = false := by
  have hread := read_of_compile hcompile
  rw [fullText_eq_self hstart hend, Glob.read_eq_ok_iff] at hread
  have hcomponent := hread.inComponent hstars hbrace
  constructor
  · intro hcount
    by_contra hneither
    push Not at hneither
    obtain ⟨⟨ranges, hclass, hlists⟩, path, hpath⟩ := hneither
    rw [ne_eq, Bool.not_eq_false, matchesPath_iff_mem_lineLanguage] at hpath
    obtain ⟨other, hother, hne⟩ := Glob.exists_count_slash_ne hclass hlists
      (hnames _ _ hclass) hpath (raw.count '/')
    exact hne (hcount other (matchesPath_iff_mem_lineLanguage.mpr hother))
  · rintro (hlists | hnone) path hpath
    · rw [hread.count_slash hcomponent hnames]
      rw [matchesPath_iff_mem_lineLanguage] at hpath
      exact Glob.count_slash_of_mem_sequence hcomponent hlists hpath
    · cases (hnone path).symm.trans hpath

/-- The rule of the pattern `/a[.-0]b`. -/
def dotToZero : IgnoreRule :=
  ⟨"/a[.-0]b", [.literal '/', .literal 'a', .oneOf false [⟨'.', '0'⟩], .literal 'b']⟩

/-- The range from the dot to the zero runs over the slash, so the pattern with one slash
matches a path with two. -/
theorem dotToZero_crosses_slash :
    compile "/a[.-0]b".toList = .ok dotToZero ∧
      dotToZero.matchesPath "/a/b".toList = true ∧
      ¬∀ path, dotToZero.matchesPath path = true → path.count '/' = "/a[.-0]b".toList.count '/' := by
  have hcompile : compile "/a[.-0]b".toList = .ok dotToZero := by cbv
  have hmatches : dotToZero.matchesPath "/a/b".toList = true := by cbv
  refine ⟨hcompile, hmatches, fun hkept => ?_⟩
  have hnames : ∀ negated ranges, .oneOf negated ranges ∈ dotToZero.pieces →
      ¬Glob.Names ranges '/' := by
    simp [dotToZero, Glob.Names]
  obtain hlists | hnone := (matches_count_slash_iff hcompile (by decide) (by decide) (by decide)
    (by decide) hnames).mp hkept
  · exact hlists [⟨'.', '0'⟩] (by simp [dotToZero]) ⟨⟨'.', '0'⟩, by simp, by decide, by decide⟩
  · cases (hnone _).symm.trans hmatches

end IgnoreRule

end Shipment
