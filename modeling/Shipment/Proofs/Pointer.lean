import Shipment.Pointer
import Shipment.Proofs.Basic

/-!
# Pointers and their text

The text of a pointer gives its segments back, whatever characters they hold:
escaping leaves no slash inside a segment, and the reader undoes each escape
where it meets it.  A text that is read is the text of the pointer it is read as,
so no two texts are read alike.  A text is not read if it starts with something
other than a slash or has a tilde that starts no escape.
-/

namespace Shipment.Pointer

@[simp]
theorem pop_push (p : Pointer) (segment : String) : (p.push segment).pop = (some segment, p) := by
  simp [push, pop]

@[simp]
theorem escape_nil : escape [] = [] := rfl

@[simp]
theorem escape_cons (c : Char) (segment : List Char) :
    escape (c :: segment) = escapedChar c ++ escape segment := rfl

/-- A segment without slashes and tildes is written as it stands. -/
theorem escape_eq_self {segment : List Char} (hsegment : ∀ c ∈ segment, c ≠ '~' ∧ c ≠ '/') :
    escape segment = segment := by
  induction segment with
  | nil => rfl
  | cons c rest ih =>
      obtain ⟨htilde, hslash⟩ := hsegment c List.mem_cons_self
      rw [escape_cons, ih (fun d hd => hsegment d (List.mem_cons_of_mem c hd))]
      simp [escapedChar, htilde, hslash]

theorem escape_eq_self_of_isDigit {segment : List Char}
    (hdigits : ∀ c ∈ segment, c.isDigit = true) : escape segment = segment := by
  refine escape_eq_self fun c hc => ?_
  have hdigit := hdigits c hc
  constructor
  all_goals
    rintro rfl
    simp at hdigit

@[simp]
theorem textOf_nil : textOf [] = [] := rfl

@[simp]
theorem textOf_cons (segment : String) (rest : List String) :
    textOf (segment :: rest) = '/' :: (escape segment.toList ++ textOf rest) := rfl

theorem toList_text (p : Pointer) : p.text.toList = textOf p.segments := by
  simp [text]

theorem readFrom_slash (offset : Nat) (current rest : List Char) :
    readFrom offset current ('/' :: rest) =
      (readFrom (offset + 1) [] rest).map (String.ofList current.reverse :: ·) := by
  simp [readFrom]

theorem readFrom_of_ne {c : Char} (htilde : c ≠ '~') (hslash : c ≠ '/') (offset : Nat)
    (current rest : List Char) :
    readFrom offset current (c :: rest) =
      readFrom (offset + c.utf8Size) (c :: current) rest := by
  rw [readFrom]
  · simp [htilde, hslash]
  all_goals
    rintro _ rfl
    exact absurd rfl htilde

/-- The reader takes back one character of a segment. -/
theorem readFrom_escapedChar (c : Char) (offset : Nat) (current tail : List Char) :
    readFrom offset current (escapedChar c ++ tail) =
      readFrom (offset + Text.byteLength (escapedChar c)) (c :: current) tail := by
  by_cases htilde : c = '~'
  · subst htilde
    rfl
  by_cases hslash : c = '/'
  · subst hslash
    rfl
  simp [escapedChar, htilde, hslash, readFrom_of_ne]

theorem readFrom_escape (segment : List Char) (offset : Nat) (current tail : List Char) :
    readFrom offset current (escape segment ++ tail) =
      readFrom (offset + Text.byteLength (escape segment)) (segment.reverse ++ current) tail := by
  induction segment generalizing offset current with
  | nil => simp
  | cons c rest ih =>
      rw [escape_cons, List.append_assoc, readFrom_escapedChar, ih, Text.byteLength_append]
      simp [Nat.add_assoc]

/-- Reading goes on through the segment at hand and the segments after it. -/
theorem readFrom_textOf (segment : List Char) (rest : List String) (offset : Nat)
    (current : List Char) :
    readFrom offset current (escape segment ++ textOf rest) =
      .ok (String.ofList (current.reverse ++ segment) :: rest) := by
  induction rest generalizing segment offset current with
  | nil =>
      rw [readFrom_escape]
      simp [readFrom]
  | cons next more ih =>
      rw [readFrom_escape, textOf_cons, readFrom_slash, ih]
      simp [Except.map]

/-- The text of a pointer is read as that pointer. -/
theorem parse_text (p : Pointer) : parse p.text = .ok p := by
  obtain ⟨segments⟩ := p
  simp only [parse, toList_text]
  cases segments with
  | nil => rfl
  | cons segment rest => simp [readFrom_textOf]

/-- Different pointers have different texts. -/
theorem segments_eq_iff {p : Pointer} {segments : List String} :
    p.segments = segments ↔ p.text = text ⟨segments⟩ := by
  constructor
  · rintro rfl
    rfl
  · intro htext
    have hparse := parse_text p
    rw [htext, parse_text] at hparse
    cases hparse
    rfl

/-! ## Texts that are read -/

/-- What is read is the rest of the segment at hand and the segments after it. -/
theorem eq_of_readFrom_eq_ok {offset : Nat} {current rest : List Char} {segments : List String}
    (hread : readFrom offset current rest = .ok segments) :
    ∃ segment more, segments = String.ofList (current.reverse ++ segment) :: more ∧
      rest = escape segment ++ textOf more := by
  fun_induction readFrom offset current rest generalizing segments with
  | case1 offset current =>
      cases hread
      exact ⟨[], [], by simp, rfl⟩
  | case2 offset current rest ih =>
      obtain ⟨segment, more, rfl, rfl⟩ := ih hread
      exact ⟨'~' :: segment, more, by simp, rfl⟩
  | case3 offset current rest ih =>
      obtain ⟨segment, more, rfl, rfl⟩ := ih hread
      exact ⟨'/' :: segment, more, by simp, rfl⟩
  | case4 => cases hread
  | case5 offset current rest _ _ _ ih =>
      obtain ⟨others, hothers, rfl⟩ := map_eq_ok.mp hread
      obtain ⟨segment, more, rfl, rfl⟩ := ih hothers
      exact ⟨[], String.ofList segment :: more, by simp, by simp⟩
  | case6 offset current c rest _ _ htilde hslash ih =>
      obtain ⟨segment, more, rfl, rfl⟩ := ih hread
      exact ⟨c :: segment, more, by simp, by simp [escapedChar, htilde, hslash]⟩

/-- A text is read as a pointer exactly if it is the text of that pointer. -/
theorem parse_eq_ok_iff {text : String} {p : Pointer} : parse text = .ok p ↔ p.text = text := by
  constructor
  · intro hparse
    apply String.toList_inj.mp
    rw [toList_text]
    rw [parse] at hparse
    split at hparse
    · next hnil =>
        cases hparse
        exact hnil.symm
    · next c rest htext =>
        split at hparse
        · next hslash =>
            split at hparse
            · next segments hread =>
                cases hparse
                obtain ⟨segment, more, rfl, rfl⟩ := eq_of_readFrom_eq_ok hread
                simp [htext, hslash]
            · cases hparse
        · cases hparse
  · rintro rfl
    exact parse_text p

/-! ## Texts that are not read -/

/-- A tilde that is not the start of an escape. -/
def HasStrayTilde (text : List Char) : Prop :=
  ∃ before after, text = before ++ '~' :: after ∧ after.head? ≠ some '0' ∧ after.head? ≠ some '1'

/-- The first tilde that is not the start of an escape stands behind `before`. -/
def FirstStrayTilde (text before : List Char) : Prop :=
  ¬HasStrayTilde before ∧
    ∃ after, text = before ++ '~' :: after ∧ after.head? ≠ some '0' ∧ after.head? ≠ some '1'

theorem hasStrayTilde_cons {c : Char} {rest : List Char} :
    HasStrayTilde (c :: rest) ↔
      c = '~' ∧ rest.head? ≠ some '0' ∧ rest.head? ≠ some '1' ∨ HasStrayTilde rest := by
  constructor
  · rintro ⟨before, after, htext, hafter⟩
    cases before with
    | nil =>
        obtain ⟨rfl, rfl⟩ := List.cons.inj htext
        exact Or.inl ⟨rfl, hafter⟩
    | cons first before =>
        obtain ⟨rfl, rfl⟩ := List.cons.inj htext
        exact Or.inr ⟨before, after, rfl, hafter⟩
  · rintro (⟨rfl, hrest⟩ | ⟨before, after, rfl, hafter⟩)
    · exact ⟨[], rest, rfl, hrest⟩
    · exact ⟨c :: before, after, rfl, hafter⟩

@[simp]
theorem not_hasStrayTilde_nil : ¬HasStrayTilde [] := by
  simp [HasStrayTilde]

theorem HasStrayTilde.append_left {text : List Char} (htext : HasStrayTilde text)
    (front : List Char) : HasStrayTilde (front ++ text) := by
  obtain ⟨before, after, rfl, hafter⟩ := htext
  exact ⟨front ++ before, after, by simp, hafter⟩

theorem firstStrayTilde_cons_of_stray {rest : List Char} (hzero : rest.head? ≠ some '0')
    (hone : rest.head? ≠ some '1') {before : List Char} :
    FirstStrayTilde ('~' :: rest) before ↔ before = [] := by
  constructor
  · rintro ⟨hbefore, after, htext, -⟩
    cases before with
    | nil => rfl
    | cons first before =>
        obtain ⟨rfl, rfl⟩ := List.cons.inj htext
        refine absurd (hasStrayTilde_cons.mpr (Or.inl ⟨rfl, ?_⟩)) hbefore
        cases before with
        | nil => simp
        | cons second before => exact ⟨hzero, hone⟩
  · rintro rfl
    exact ⟨not_hasStrayTilde_nil, rest, rfl, hzero, hone⟩

theorem firstStrayTilde_cons {c : Char} {rest : List Char}
    (hc : ¬(c = '~' ∧ rest.head? ≠ some '0' ∧ rest.head? ≠ some '1')) {before : List Char} :
    FirstStrayTilde (c :: rest) before ↔
      ∃ more, before = c :: more ∧ FirstStrayTilde rest more := by
  constructor
  · rintro ⟨hbefore, after, htext, hafter⟩
    cases before with
    | nil =>
        obtain ⟨rfl, rfl⟩ := List.cons.inj htext
        exact absurd ⟨rfl, hafter⟩ hc
    | cons first more =>
        obtain ⟨rfl, rfl⟩ := List.cons.inj htext
        rw [hasStrayTilde_cons, not_or] at hbefore
        exact ⟨more, rfl, hbefore.2, after, rfl, hafter⟩
  · rintro ⟨more, rfl, hmore, after, rfl, hafter⟩
    refine ⟨?_, after, rfl, hafter⟩
    rw [hasStrayTilde_cons, not_or]
    refine ⟨?_, hmore⟩
    -- a tilde at the end of `c :: more` is stray in the whole text as well
    rintro ⟨rfl, hhead⟩
    cases more with
    | nil => simp at hc
    | cons second more => exact hc ⟨rfl, hhead⟩

theorem firstStrayTilde_at {c : Char} {rest : List Char}
    (hc : ¬(c = '~' ∧ rest.head? ≠ some '0' ∧ rest.head? ≠ some '1')) (offset stop : Nat) :
    (∃ before, FirstStrayTilde (c :: rest) before ∧ stop = offset + Text.byteLength before) ↔
      ∃ before, FirstStrayTilde rest before ∧
        stop = offset + c.utf8Size + Text.byteLength before := by
  constructor
  · rintro ⟨before, hbefore, rfl⟩
    obtain ⟨more, rfl, hmore⟩ := (firstStrayTilde_cons hc).mp hbefore
    exact ⟨more, hmore, by simp [Nat.add_assoc]⟩
  · rintro ⟨more, hmore, rfl⟩
    exact ⟨c :: more, (firstStrayTilde_cons hc).mpr ⟨more, rfl, hmore⟩, by simp [Nat.add_assoc]⟩

/-- The reader stops at the first stray tilde. -/
theorem readFrom_eq_error_iff {offset : Nat} {current rest : List Char} {stop : Nat} :
    readFrom offset current rest = .error stop ↔
      ∃ before, FirstStrayTilde rest before ∧ stop = offset + Text.byteLength before := by
  fun_induction readFrom offset current rest with
  | case1 => simp [FirstStrayTilde]
  | case2 offset current rest ih =>
      rw [ih, firstStrayTilde_at (by simp), firstStrayTilde_at (by simp)]
      rfl
  | case3 offset current rest ih =>
      rw [ih, firstStrayTilde_at (by simp), firstStrayTilde_at (by simp)]
      rfl
  | case4 offset current rest hzero hone =>
      have hrest : rest.head? ≠ some '0' ∧ rest.head? ≠ some '1' := by
        cases rest with
        | nil => simp
        | cons c more =>
            refine ⟨?_, ?_⟩
            · rintro ⟨⟩
              exact hzero _ rfl rfl
            · rintro ⟨⟩
              exact hone _ rfl rfl
      simp [firstStrayTilde_cons_of_stray hrest.1 hrest.2, eq_comm]
  | case5 offset current rest _ _ _ ih =>
      rw [map_eq_error, ih, firstStrayTilde_at (by simp)]
      rfl
  | case6 offset current c rest _ _ htilde hslash ih =>
      rw [ih, firstStrayTilde_at (by simp [htilde])]

theorem exists_firstStrayTilde {text : List Char} :
    (∃ before, FirstStrayTilde text before) ↔ HasStrayTilde text := by
  constructor
  · rintro ⟨before, -, hafter⟩
    exact ⟨before, hafter⟩
  · intro htext
    induction text with
    | nil => exact absurd htext not_hasStrayTilde_nil
    | cons c rest ih =>
        by_cases hc : c = '~' ∧ rest.head? ≠ some '0' ∧ rest.head? ≠ some '1'
        · obtain ⟨rfl, hzero, hone⟩ := hc
          exact ⟨[], (firstStrayTilde_cons_of_stray hzero hone).mpr rfl⟩
        · have hrest : HasStrayTilde rest := (hasStrayTilde_cons.mp htext).resolve_left hc
          obtain ⟨more, hmore⟩ := ih hrest
          exact ⟨c :: more, (firstStrayTilde_cons hc).mpr ⟨more, rfl, hmore⟩⟩

/-- A text is not read if it lacks the slash at its start, or else for the first
stray tilde in it. -/
theorem parse_eq_error_iff {text : String} {cause : PointerError} :
    parse text = .error cause ↔
      text ≠ "" ∧ text.toList.head? ≠ some '/' ∧ cause = .missingLeadingSlash text ∨
        text.toList.head? = some '/' ∧ ∃ before, FirstStrayTilde text.toList before ∧
          cause = .invalidEscape text (Text.byteLength before) := by
  rw [parse, ← String.toList_inj.ne]
  cases htext : text.toList with
  | nil => simp
  | cons c rest =>
      by_cases hslash : c = '/'
      · subst hslash
        have hread (stop : Nat) : readFrom 1 [] rest = .error stop ↔
            ∃ before, FirstStrayTilde ('/' :: rest) before ∧ stop = 0 + Text.byteLength before := by
          rw [firstStrayTilde_at (by simp), readFrom_eq_error_iff]
          rfl
        have hmatch : (∃ stop, readFrom 1 [] rest = .error stop ∧
              cause = .invalidEscape text stop) ↔
            ∃ before, FirstStrayTilde ('/' :: rest) before ∧
              cause = .invalidEscape text (Text.byteLength before) := by
          simp only [hread, Nat.zero_add]
          constructor
          · rintro ⟨stop, ⟨before, hbefore, rfl⟩, hcause⟩
            exact ⟨before, hbefore, hcause⟩
          · rintro ⟨before, hbefore, hcause⟩
            exact ⟨_, ⟨before, hbefore, rfl⟩, hcause⟩
        simp only [List.head?_cons, ne_eq, not_true_eq_false, false_and, and_false, true_and,
          false_or, if_true, ← hmatch]
        cases hresult : readFrom 1 [] rest <;> simp [eq_comm]
      · simp [hslash, eq_comm]

/-- A text that is the text of a pointer has no stray tilde. -/
theorem not_hasStrayTilde_text (p : Pointer) : ¬HasStrayTilde p.text.toList := by
  intro hstray
  obtain ⟨before, hbefore⟩ := exists_firstStrayTilde.mpr hstray
  have hhead : p.text.toList.head? = some '/' := by
    rw [toList_text] at hstray ⊢
    obtain ⟨segments⟩ := p
    cases segments with
    | nil => exact absurd hstray not_hasStrayTilde_nil
    | cons segment more => rfl
  have herror := parse_eq_error_iff.mpr (Or.inr ⟨hhead, before, hbefore, rfl⟩)
  rw [parse_text] at herror
  cases herror

end Shipment.Pointer
