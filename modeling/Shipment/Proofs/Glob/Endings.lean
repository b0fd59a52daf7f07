import Shipment.Proofs.Glob.Grammar

/-!
# Where a construct ends

A construct of a glob takes its characters off the front of the text, and the last of
them says which construct it was.  A slash ends nothing but the literal slash, so a
text that goes on with two stars behind a slash is read with these two as its last
pieces.
-/

namespace Shipment.Glob

variable {text rest : List Char}

theorem ReadsMember.exists_front {c : Char} (hmember : ReadsMember text c rest) :
    ∃ front, text = front ++ rest := by
  cases hmember with
  | escaped => exact ⟨['\\', c], rfl⟩
  | plain => exact ⟨[c], rfl⟩

/-- A class ends with its closing bracket. -/
theorem ReadsMembers.exists_bracket {ranges : List CharRange}
    (hmembers : ReadsMembers text ranges rest) : ∃ front, text = front ++ ']' :: rest := by
  induction hmembers with
  | close rest => exact ⟨[], rfl⟩
  | dash hmember =>
      obtain ⟨front, rfl⟩ := hmember.exists_front
      exact ⟨front ++ ['-'], by simp⟩
  | single hmember _ _ ih =>
      obtain ⟨front, rfl⟩ := hmember.exists_front
      obtain ⟨more, rfl⟩ := ih
      exact ⟨front ++ more, by simp⟩
  | @range _ _ _ _ high _ hmember _ _ _ ih =>
      obtain ⟨front, rfl⟩ := hmember.exists_front
      obtain ⟨more, rfl⟩ := ih
      exact ⟨front ++ '-' :: high :: more, by simp⟩

mutual

/-- A construct has a last character, which says something about the construct. -/
theorem ReadsPiece.exists_last {inside : Bool} {text rest : List Char} {piece : Glob}
    (hpiece : ReadsPiece inside text piece rest) :
    ∃ front last, text = front ++ last :: rest ∧ (last = '/' → piece = .literal '/') ∧
      (last = '*' → '/' ∉ front) := by
  match hpiece with
  | .anyRun _ _ => exact ⟨['*'], '*', rfl, by simp, by simp⟩
  | .nameRun _ _ => exact ⟨[], '*', rfl, by simp, by simp⟩
  | .nameChar _ _ => exact ⟨[], '?', rfl, by simp, by simp⟩
  | .oneOf _ _ hmembers _ =>
      obtain ⟨front, rfl⟩ := hmembers.exists_bracket
      exact ⟨'[' :: front, ']', rfl, by simp, by simp⟩
  | .noneOf _ _ hmembers _ =>
      obtain ⟨front, rfl⟩ := hmembers.exists_bracket
      exact ⟨'[' :: _ :: front, ']', rfl, by simp, by simp⟩
  | .choice _ halternatives =>
      obtain ⟨front, rfl⟩ := halternatives.exists_brace
      exact ⟨'\x7b' :: front, '\x7d', rfl, by simp, by simp⟩
  | .escaped _ c _ => exact ⟨['\\'], c, rfl, by rintro rfl; rfl, by simp⟩
  | .plain _ _ _ => exact ⟨[], _, rfl, by rintro rfl; rfl, by simp⟩

theorem Reads.exists_front {inside : Bool} {text rest : List Char} {pieces : List Glob}
    (hpieces : Reads inside text pieces rest) : ∃ front, text = front ++ rest := by
  match hpieces with
  | .finish => exact ⟨[], rfl⟩
  | .stop _ _ => exact ⟨[], rfl⟩
  | .cons hpiece hmore =>
      obtain ⟨front, last, rfl, -⟩ := hpiece.exists_last
      obtain ⟨more, rfl⟩ := hmore.exists_front
      exact ⟨front ++ last :: more, by simp⟩

/-- A choice ends with its closing brace. -/
theorem ReadsAlternatives.exists_brace {text rest : List Char} {alternatives : List (List Glob)}
    (halternatives : ReadsAlternatives text alternatives rest) :
    ∃ front, text = front ++ '\x7d' :: rest := by
  match halternatives with
  | .last hpieces => exact hpieces.exists_front
  | .more hpieces hmore =>
      obtain ⟨front, rfl⟩ := hpieces.exists_front
      obtain ⟨more, rfl⟩ := hmore.exists_brace
      exact ⟨front ++ ',' :: more, by simp⟩

end

theorem reads_stars {pieces : List Glob} (hpieces : Reads false ['*', '*'] pieces []) :
    pieces = [.anyRun] := by
  have hread := read_eq_ok_iff.mpr hpieces
  rw [read, readPieces, readPieces] at hread
  simpa using hread.symm

/-- The first construct of a text that goes on with two stars behind a slash: it leaves
such a text again, or it is the slash. -/
theorem ReadsPiece.leaves_slash_stars {inside : Bool} {piece : Glob} {front next : List Char}
    (hpiece : ReadsPiece inside (front ++ ['/', '*', '*']) piece next) :
    (∃ more, more.length < front.length ∧ next = more ++ ['/', '*', '*']) ∨
      piece = .literal '/' ∧ next = ['*', '*'] := by
  obtain ⟨before, last, htext, hslash, hstar⟩ := hpiece.exists_last
  rw [List.append_cons before, List.append_eq_append_iff] at htext
  obtain ⟨taken, hbefore, hstars⟩ | ⟨more, rfl, rfl⟩ := htext
  · cases taken with
    | nil =>
        rw [List.append_nil] at hbefore
        exact Or.inl ⟨[], by simp [← hbefore], hstars.symm⟩
    | cons c more =>
        obtain ⟨rfl, hmore⟩ := List.cons.inj hstars
        obtain rfl | ⟨stars, star, rfl⟩ := List.eq_nil_or_concat more
        · obtain ⟨-, hlast⟩ := List.append_inj' hbefore rfl
          exact Or.inr ⟨hslash (List.cons.inj hlast).1, hmore.symm⟩
        -- a construct that ends with a star does not begin in front of the slash
        · have hlast : before ++ [last] = (front ++ '/' :: stars) ++ [star] := by
            simpa using hbefore
          obtain ⟨rfl, hsame⟩ := List.append_inj' hlast rfl
          have hmem : star ∈ ['*', '*'] := by
            rw [hmore]
            simp
          have hlastStar : last = '*' := (List.cons.inj hsame).1.trans (by simpa using hmem)
          exact absurd (by simp) (hstar hlastStar)
  · exact Or.inl ⟨more, by simp; omega, rfl⟩

/-- Two stars behind a slash are read as the literal slash and a run of any characters. -/
theorem Reads.exists_append_slash_anyRun {pieces : List Glob} {front : List Char}
    (hpieces : Reads false (front ++ ['/', '*', '*']) pieces []) :
    ∃ more, pieces = more ++ [.literal '/', .anyRun] := by
  generalize htext : front ++ ['/', '*', '*'] = text at hpieces
  cases hpieces with
  | finish => simp at htext
  | cons hpiece hmore =>
      rw [← htext] at hpiece
      obtain ⟨more, hlt, rfl⟩ | ⟨rfl, rfl⟩ := hpiece.leaves_slash_stars
      · obtain ⟨others, rfl⟩ := hmore.exists_append_slash_anyRun
        exact ⟨_ :: others, rfl⟩
      · rw [reads_stars hmore]
        exact ⟨[], rfl⟩
termination_by front.length

end Shipment.Glob
