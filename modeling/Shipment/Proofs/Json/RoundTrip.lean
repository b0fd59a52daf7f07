import Shipment.Proofs.Json.Reading
import Shipment.Proofs.Json.Written

/-!
# Reading compact text

The compact text of a value without floats is read as the value again, as long as the
value is one that can be read at all: it is not nested too deep, and the keys of its
objects are in order.
-/

namespace Shipment.Json

open Grammar (ReadsChars Stops unit? isWhole_toDigits stops_cons takeWhile_cut dropWhile_cut)

variable {text rest chars : List Char} {depth fuel : Nat}

/-! ## Strings -/

theorem hexUnit_of_unit? {a b c d : Char} {n : Nat} (hunit : unit? a b c d = some n)
    (rest : List Char) : hexUnit (a :: b :: c :: d :: rest) = .ok (n, rest) := by
  unfold unit? at hunit
  split at hunit
  · next ha hb hc hd =>
      cases hunit
      simp [hexUnit, ha, hb, hc, hd]
  · cases hunit

theorem escape_of_letter {letter c : Char} (hletter : escapeLetter? letter = some c)
    (rest : List Char) : escape (letter :: rest) = .ok (c, rest) := by
  unfold escape
  split
  · next heq => cases heq
  · next heq =>
      cases heq
      cases hletter
  · next heq =>
      cases heq
      rw [hletter]

theorem stringBody_backslash {c : Char} (hescape : escape text = .ok (c, rest)) :
    stringBody ('\\' :: text) = (stringBody rest).map fun found => (c :: found.1, found.2) := by
  rw [stringBody, if_neg (by decide), if_pos rfl]
  split
  · next heq => cases hescape.symm.trans heq
  · next heq =>
      cases hescape.symm.trans heq
      rfl

/-- A string is read as the characters that the grammar finds in it. -/
theorem stringBody_of_readsChars (hchars : ReadsChars text chars rest) :
    stringBody text = .ok (chars, rest) := by
  induction hchars with
  | close rest => rw [stringBody, if_pos rfl]
  | plain hcontrol hquote hbackslash _ ih =>
      rw [stringBody, if_neg hquote, if_neg hbackslash, if_neg (not_lt.mpr hcontrol), ih]
      rfl
  | letter hletter _ ih =>
      rw [stringBody_backslash (escape_of_letter hletter _), ih]
      rfl
  | @unit a b c d n text chars rest hunit hscalar _ ih =>
      have hescape : escape ('u' :: a :: b :: c :: d :: text) = .ok (Char.ofNat n, text) := by
        rw [escape, unicodeEscape, hexUnit_of_unit? hunit]
        exact if_pos hscalar
      rw [stringBody_backslash hescape, ih]
      rfl
  | @pair a b c d a' b' c' d' high low text chars rest hhigh hhighRange hlow hlowRange _ ih =>
      have hescape : escape ('u' :: a :: b :: c :: d :: '\\' :: 'u' :: a' :: b' :: c' :: d' :: text) =
          .ok (Char.ofNat ((high - 0xD800) * 0x400 + (low - 0xDC00) + 0x10000), text) := by
        rw [escape, unicodeEscape, hexUnit_of_unit? hhigh]
        simp only
        rw [if_neg (by omega), if_pos (by omega), secondHalf, hexUnit_of_unit? hlow]
        exact if_pos hlowRange
      rw [stringBody_backslash hescape, ih]
      rfl

theorem compactText_string_append (s : String) (rest : List Char) :
    compactText (string s) ++ rest = '"' :: (s.toList.flatMap escapedChar ++ '"' :: rest) := by
  simp [compactText, scalarText, stringText]

/-- A written string is read again. -/
theorem stringBody_flatMap (s : String) (rest : List Char) :
    stringBody (s.toList.flatMap escapedChar ++ '"' :: rest) = .ok (s.toList, rest) :=
  stringBody_of_readsChars (readsChars_flatMap s.toList rest)

/-! ## Integers -/

theorem le_ofDigitChars (digits : List Char) (acc : Nat) :
    acc ≤ Nat.ofDigitChars 10 digits acc := by
  induction digits generalizing acc with
  | nil => simp
  | cons c more ih =>
      rw [Nat.ofDigitChars_cons]
      exact le_trans (by omega) (ih _)

theorem isDigit_of_stops (hrest : Stops rest) :
    ∀ c, rest.head? = some c → Digits.isDigit c = false := by
  intro c hc
  by_contra hdigit
  have hnumber := Grammar.isNumberChar_of_isDigit (eq_true_of_ne_false hdigit)
  rw [hrest c hc] at hnumber
  cases hnumber

/-- Digits are taken as long as the number fits. -/
theorem takeDigits_append {digits : List Char} (hdigits : ∀ c ∈ digits, c.isDigit = true)
    (hrest : Stops rest) {acc taken : Nat}
    (hfits : Nat.ofDigitChars 10 digits acc < Digits.wordCount) :
    takeDigits acc taken (digits ++ rest) =
      (Nat.ofDigitChars 10 digits acc, taken + digits.length, rest) := by
  induction digits generalizing acc taken with
  | nil =>
      cases rest with
      | nil => simp [takeDigits]
      | cons c more => simp [takeDigits, isDigit_of_stops hrest c rfl]
  | cons c more ih =>
      obtain ⟨hc, hmore⟩ := List.forall_mem_cons.mp hdigits
      have hnext : acc * 10 + digitValue c = 10 * acc + (c.toNat - '0'.toNat) := by
        rw [Nat.mul_comm]
        rfl
      rw [Nat.ofDigitChars_cons] at hfits ⊢
      have hsmall : acc * 10 + digitValue c < Digits.wordCount := by
        rw [hnext]
        exact lt_of_le_of_lt (le_ofDigitChars more _) hfits
      have hdigit : (Digits.isDigit c && decide (acc * 10 + digitValue c < Digits.wordCount)) =
          true := by
        rw [Grammar.isDigit_eq, hc, decide_eq_true hsmall]
        rfl
      rw [List.cons_append, takeDigits, if_pos hdigit, hnext, ih hmore hfits, List.length_cons,
        Nat.add_right_comm, Nat.add_assoc]

theorem afterWhole_of_stops (hrest : Stops rest) (negative : Bool) (digits : Nat) :
    afterWhole negative digits 0 rest = .ok (finishInteger negative digits, rest) := by
  unfold afterWhole
  split
  · cases hrest _ rfl
  · cases hrest _ rfl
  · cases hrest _ rfl
  · rfl

theorem numeral_toDigits {n : Nat} (hn : n < Digits.wordCount) (hrest : Stops rest)
    (negative : Bool) :
    numeral negative (Nat.toDigits 10 n ++ rest) = .ok (finishInteger negative n, rest) := by
  have hvalue := Nat.ofDigitChars_ten_toDigits (n := n)
  have hwhole := isWhole_toDigits n
  generalize Nat.toDigits 10 n = digits at hvalue hwhole
  cases hwhole with
  | zero =>
      obtain rfl : n = 0 := hvalue.symm
      have hstart : startsWithDigit rest = false := by
        cases rest with
        | nil => rfl
        | cons c more => exact isDigit_of_stops hrest c rfl
      rw [List.singleton_append, numeral, if_neg (by decide), if_pos rfl, hstart]
      exact afterWhole_of_stops hrest negative 0
  | @digits c more hc hzero hmore =>
      have htake : takeDigits 0 0 (c :: more ++ rest) =
          (Nat.ofDigitChars 10 (c :: more) 0, 0 + (c :: more).length, rest) :=
        takeDigits_append (List.forall_mem_cons.mpr ⟨hc, hmore⟩) hrest (hvalue ▸ hn)
      have hdigit : (!Digits.isDigit c) ≠ true := by
        rw [Grammar.isDigit_eq, hc]
        decide
      -- what follows is no digit, so none is left over for a float
      have hextra : rest.takeWhile Digits.isDigit = [] :=
        takeWhile_cut (List.forall_mem_nil _) (isDigit_of_stops hrest)
      have hleft : rest.dropWhile Digits.isDigit = rest :=
        dropWhile_cut (List.forall_mem_nil _) (isDigit_of_stops hrest)
      rw [List.cons_append] at htake ⊢
      rw [numeral, if_neg hdigit, if_neg hzero, htake]
      simp only [hextra, hleft, hvalue]
      exact afterWhole_of_stops hrest negative n

/-- A number without a sign begins with its first digit. -/
theorem scalar_of_isDigit {c : Char} (hc : c.isDigit = true) (text : List Char) :
    scalar (c :: text) =
      (numeral false (c :: text)).map fun found => (number found.1, found.2) := by
  unfold scalar
  split
  iterate 5
    · next heq =>
        cases heq
        cases hc
  · next heq => cases heq
  · next heq =>
      cases heq
      exact if_pos hc

/-- A written integer is read again. -/
theorem scalar_integerText (n : Integer64) (hrest : Stops rest) :
    scalar (Number.integerText n.toInt ++ rest) = .ok (number (.integer n), rest) := by
  obtain ⟨hlow, hhigh⟩ := n.toInt_bounds
  have hcounts : Digits.wordCount = 2 ^ 64 ∧ Digits.negativeCount = 2 ^ 63 := by decide
  unfold Number.integerText
  split
  · next hneg =>
      have hsign : finishInteger true n.toInt.natAbs = .integer n := by
        have hsmall : ¬(n.toInt.natAbs = 0 ∨ Digits.negativeCount < n.toInt.natAbs) := by omega
        have hvalue : -(n.toInt.natAbs : Int) = n.toInt := by omega
        rw [finishInteger, if_neg (by decide), if_neg hsmall, hvalue, Number.ofInt64,
          Integer64.ofInt64_ofInt hneg]
      rw [List.cons_append, scalar, numeral_toDigits (by omega) hrest, hsign]
      rfl
  · next hneg =>
      have hsign : finishInteger false n.toInt.natAbs = .integer n := by
        rw [finishInteger, if_pos (by decide), Number.ofUInt64,
          Integer64.unsigned_ofNat (Int.not_lt.mp hneg)]
      have hread := numeral_toDigits (n := n.toInt.natAbs) (by omega) hrest false
      obtain ⟨hne, hdigits⟩ := Grammar.isDigits_toDigits n.toInt.natAbs
      obtain ⟨c, more, htext⟩ := List.exists_cons_of_ne_nil hne
      rw [htext] at hread hdigits ⊢
      rw [List.cons_append] at hread ⊢
      rw [scalar_of_isDigit (hdigits c List.mem_cons_self), hread, hsign]
      rfl

/-! ## Lists -/

/-- The text begins with a character that is no space and no closing bracket. -/
def BeginsValue (text : List Char) : Prop :=
  ∃ c more, text = c :: more ∧ isSpace c = false ∧ c ≠ ']'

theorem BeginsValue.append (hbegins : BeginsValue text) (rest : List Char) :
    BeginsValue (text ++ rest) := by
  obtain ⟨c, more, rfl, hspace, hclose⟩ := hbegins
  exact ⟨c, more ++ rest, rfl, hspace, hclose⟩

theorem BeginsValue.length_pos (hbegins : BeginsValue text) : 0 < text.length := by
  obtain ⟨c, more, rfl, -⟩ := hbegins
  exact Nat.succ_pos _

/-- The compact text of the value is read as the value, and what follows it is left, if
that does not look like more of a number. -/
structure ReadsBack (depth : Nat) (found : Json) : Prop where
  begins : BeginsValue (compactText found)
  read : ∀ fuel rest, (compactText found).length ≤ fuel → Stops rest →
    value fuel depth (compactText found ++ rest) = .ok (found, rest)

theorem skipSpaces_cons {c : Char} (hspace : isSpace c = false) (text : List Char) :
    skipSpaces (c :: text) = c :: text := by
  simp [skipSpaces, hspace]

theorem nextItem_true (hbegins : BeginsValue text) : nextItem true text = .ok (.item text) := by
  obtain ⟨c, more, rfl, hspace, hclose⟩ := hbegins
  rw [nextItem, skipSpaces_cons hspace]
  split
  · next heq => cases heq
  · next heq =>
      cases heq
      exact absurd rfl hclose
  · next heq =>
      cases heq
      rfl

theorem nextItem_comma (hbegins : BeginsValue text) :
    nextItem false (',' :: text) = .ok (.item text) := by
  obtain ⟨c, more, rfl, hspace, hclose⟩ := hbegins
  rw [nextItem, skipSpaces_cons (by decide)]
  split
  · next heq => cases heq
  · next heq => cases heq
  · next heq =>
      cases heq
      rw [if_neg (by decide), if_pos rfl, skipSpaces_cons hspace]
      split
      · next heq => cases heq
      · next heq =>
          cases heq
          exact absurd rfl hclose
      · rfl

section

variable {α : Type} {closing : Char} {write : α → List Char} {elements : List α}

theorem stops_followed (hclosing : Grammar.isNumberChar closing = false) (rest : List Char) :
    Stops (followed [] [closing] write elements ++ rest) := by
  cases elements with
  | nil => exact stops_cons hclosing
  | cons element more => exact stops_cons (by decide)

theorem followed_length_pos : 0 < (followed [] [closing] write elements).length := by
  cases elements <;> exact Nat.succ_pos _

end

/-- One item is read, and then those behind it. -/
theorem items_cons {first : Bool} {item : Json} {more : List Json} {left : List Char}
    (hitem : ReadsBack depth item) (hfuel : (compactText item).length ≤ fuel)
    (hnext : nextItem first text = .ok (.item (compactText item ++ rest))) (hrest : Stops rest)
    (hmore : items fuel depth false rest = .ok (more, left)) :
    items (fuel + 1) depth first text = .ok (item :: more, left) := by
  rw [items, hnext]
  simp only [hitem.read fuel rest hfuel hrest, hmore]
  rfl

section Items

variable {items : List Json} (hitems : ∀ item ∈ items, ReadsBack depth item)

include hitems

/-- Items behind others are read up to the closing bracket. -/
theorem items_followed (hfuel : (followed [] [']'] compactText items).length ≤ fuel)
    (rest : List Char) :
    Json.items fuel depth false (followed [] [']'] compactText items ++ rest) =
      .ok (items, rest) := by
  obtain ⟨fuel, rfl⟩ := Nat.exists_eq_add_one.mpr (lt_of_lt_of_le followed_length_pos hfuel)
  induction items generalizing fuel with
  | nil => rfl
  | cons item more ih =>
      obtain ⟨hitem, hmore⟩ := List.forall_mem_cons.mp hitems
      simp only [followed, List.nil_append, List.length_cons, List.length_append] at hfuel
      -- the comma pays for this call, and the text of the item for the one behind it
      have hpos := hitem.begins.length_pos
      obtain ⟨left, rfl⟩ := Nat.exists_eq_add_one.mpr (show 0 < fuel by omega)
      rw [followed, List.nil_append, List.cons_append, List.append_assoc]
      exact items_cons hitem (by omega) (nextItem_comma (hitem.begins.append _))
        (stops_followed (by decide) rest) (ih hmore left (by omega))

theorem items_listed (hfuel : (listed [] [] ']' compactText items).length ≤ fuel)
    (rest : List Char) :
    Json.items fuel depth true (listed [] [] ']' compactText items ++ rest) = .ok (items, rest) := by
  cases items with
  | nil =>
      obtain ⟨fuel, rfl⟩ := Nat.exists_eq_add_one.mpr hfuel
      rfl
  | cons item more =>
      obtain ⟨hitem, hmore⟩ := List.forall_mem_cons.mp hitems
      simp only [listed, List.nil_append, List.length_append] at hfuel
      have hpos := hitem.begins.length_pos
      have hrest : 0 < (followed [] [']'] compactText more).length := followed_length_pos
      obtain ⟨fuel, rfl⟩ := Nat.exists_eq_add_one.mpr (show 0 < fuel by omega)
      rw [listed, List.nil_append, List.nil_append, List.append_assoc]
      exact items_cons hitem (by omega) (nextItem_true (hitem.begins.append _))
        (stops_followed (by decide) rest) (items_followed hmore (by omega) rest)

end Items

/-! ## Objects -/

/-- The compact text of a field. -/
def fieldText : String × Json → List Char :=
  memberText [':'] compactText

theorem fieldText_append (field : String × Json) (rest : List Char) :
    fieldText field ++ rest =
      '"' :: (field.1.toList.flatMap escapedChar ++ '"' :: ':' :: (compactText field.2 ++ rest)) := by
  simp [fieldText, memberText, stringText]

/-- One field is read behind its opening quote, and then those behind it. -/
theorem members_cons {first : Bool} {field : String × Json} {more : List (String × Json)}
    {left : List Char} (hvalue : ReadsBack depth field.2) (hfuel : (fieldText field).length ≤ fuel)
    (hnext : nextKey first text = .ok (.item (fieldText field ++ rest).tail)) (hrest : Stops rest)
    (hmore : members fuel depth false rest = .ok (more, left)) :
    members (fuel + 1) depth first text = .ok (field :: more, left) := by
  have hlength : (compactText field.2).length ≤ fuel := by
    simp only [fieldText, memberText, List.length_append] at hfuel
    omega
  have hcolon : colon (':' :: (compactText field.2 ++ rest)) = .ok (compactText field.2 ++ rest) :=
    rfl
  rw [members, hnext, fieldText_append, List.tail_cons]
  simp only [stringBody_flatMap, hcolon, hvalue.read fuel rest hlength hrest, hmore]
  simp [Except.map]

section Members

variable {fields : List (String × Json)} (hfields : ∀ field ∈ fields, ReadsBack depth field.2)

include hfields

/-- Fields behind others are read up to the closing brace. -/
theorem members_followed (hfuel : (followed [] ['\x7d'] fieldText fields).length ≤ fuel)
    (rest : List Char) :
    members fuel depth false (followed [] ['\x7d'] fieldText fields ++ rest) =
      .ok (fields, rest) := by
  obtain ⟨fuel, rfl⟩ := Nat.exists_eq_add_one.mpr (lt_of_lt_of_le followed_length_pos hfuel)
  induction fields generalizing fuel with
  | nil => rfl
  | cons field more ih =>
      obtain ⟨hvalue, hmore⟩ := List.forall_mem_cons.mp hfields
      simp only [followed, List.nil_append, List.length_cons, List.length_append] at hfuel
      have hpos : 0 < (fieldText field).length := by simp [fieldText, memberText, stringText]
      obtain ⟨left, rfl⟩ := Nat.exists_eq_add_one.mpr (show 0 < fuel by omega)
      rw [followed, List.nil_append, List.cons_append, List.append_assoc]
      refine members_cons hvalue (by omega) ?_ (stops_followed (by decide) rest)
        (ih hmore left (by omega))
      rw [fieldText_append]
      rfl

theorem members_listed (hfuel : (listed [] [] '\x7d' fieldText fields).length ≤ fuel)
    (rest : List Char) :
    members fuel depth true (listed [] [] '\x7d' fieldText fields ++ rest) = .ok (fields, rest) := by
  cases fields with
  | nil =>
      obtain ⟨fuel, rfl⟩ := Nat.exists_eq_add_one.mpr hfuel
      rfl
  | cons field more =>
      obtain ⟨hvalue, hmore⟩ := List.forall_mem_cons.mp hfields
      simp only [listed, List.nil_append, List.length_append] at hfuel
      have hpos : 0 < (fieldText field).length := by simp [fieldText, memberText, stringText]
      have hrest : 0 < (followed [] ['\x7d'] fieldText more).length := followed_length_pos
      obtain ⟨fuel, rfl⟩ := Nat.exists_eq_add_one.mpr (show 0 < fuel by omega)
      rw [listed, List.nil_append, List.nil_append, List.append_assoc]
      refine members_cons hvalue (by omega) ?_ (stops_followed (by decide) rest)
        (members_followed hmore (by omega) rest)
      rw [fieldText_append]
      rfl

end Members

/-! ## Values -/

/-- Somewhere in the value there is a float. -/
inductive HoldsFloat : Json → Prop
  | float (x : Binary64) : HoldsFloat (number (.float x))
  | item {items : List Json} {item : Json} (hitem : item ∈ items) (hfloat : HoldsFloat item) :
      HoldsFloat (array items)
  | field {fields : List (String × Json)} {field : String × Json} (hfield : field ∈ fields)
      (hfloat : HoldsFloat field.2) : HoldsFloat (object fields)

@[simp]
theorem not_holdsFloat_string (s : String) : ¬HoldsFloat (string s) := nofun

@[simp]
theorem holdsFloat_array {items : List Json} :
    HoldsFloat (array items) ↔ ∃ item ∈ items, HoldsFloat item := by
  constructor
  · rintro ⟨⟩
    exact ⟨_, ‹_›, ‹_›⟩
  · rintro ⟨item, hitem, hfloat⟩
    exact .item hitem hfloat

@[simp]
theorem holdsFloat_object {fields : List (String × Json)} :
    HoldsFloat (object fields) ↔ ∃ field ∈ fields, HoldsFloat field.2 := by
  constructor
  · rintro ⟨⟩
    exact ⟨_, ‹_›, ‹_›⟩
  · rintro ⟨field, hfield, hfloat⟩
    exact .field hfield hfloat

/-- The character is the first one of some scalar. -/
def OpensScalar (c : Char) : Prop :=
  isSpace c = false ∧ c ≠ ']' ∧ c ≠ '[' ∧ c ≠ '\x7b'

instance (c : Char) : Decidable (OpensScalar c) :=
  inferInstanceAs (Decidable (_ ∧ _))

theorem opensScalar_of_isNumberChar {c : Char} (hc : Grammar.isNumberChar c = true) :
    OpensScalar c := by
  refine ⟨?_, ?_, ?_, ?_⟩
  · by_contra hspace
    rw [Grammar.isNumberChar_of_isSpace (eq_true_of_ne_false hspace)] at hc
    cases hc
  all_goals
    rintro rfl
    cases hc

theorem readsBack_scalar {found : Json} {c : Char} {more : List Char}
    (hcompact : compactText found = c :: more) (hopens : OpensScalar c)
    (hread : ∀ rest, Stops rest → scalar (compactText found ++ rest) = .ok (found, rest)) :
    ReadsBack depth found := by
  obtain ⟨hspace, hclose, hlist, hobject⟩ := hopens
  refine ⟨⟨c, more, hcompact, hspace, hclose⟩, fun fuel rest hfuel hrest => ?_⟩
  rw [hcompact] at hfuel
  obtain ⟨fuel, rfl⟩ := Nat.exists_eq_add_one.mpr (lt_of_lt_of_le (Nat.succ_pos _) hfuel)
  rw [← hread rest hrest, hcompact, List.cons_append, value, skipSpaces_cons hspace]
  split
  · next heq =>
      cases heq
      exact absurd rfl hlist
  · next heq =>
      cases heq
      exact absurd rfl hobject
  · rfl

theorem readsBack_array {items : List Json} (hitems : ∀ item ∈ items, ReadsBack depth item) :
    ReadsBack (depth + 1) (array items) := by
  refine ⟨⟨'[', _, compactText_array items, by decide, by decide⟩, fun fuel rest hfuel _ => ?_⟩
  rw [compactText_array] at hfuel ⊢
  obtain ⟨fuel, rfl⟩ := Nat.exists_eq_add_one.mpr (lt_of_lt_of_le (Nat.succ_pos _) hfuel)
  rw [List.cons_append, value, skipSpaces_cons (by decide)]
  simp only [items_listed hitems (Nat.le_of_succ_le_succ hfuel)]
  rfl

theorem readsBack_object {fields : List (String × Json)} (hordered : Fields.Ordered fields)
    (hfields : ∀ field ∈ fields, ReadsBack depth field.2) :
    ReadsBack (depth + 1) (object fields) := by
  refine ⟨⟨'\x7b', _, compactText_object fields, by decide, by decide⟩,
    fun fuel rest hfuel _ => ?_⟩
  rw [compactText_object] at hfuel ⊢
  obtain ⟨fuel, rfl⟩ := Nat.exists_eq_add_one.mpr (lt_of_lt_of_le (Nat.succ_pos _) hfuel)
  have hmembers := members_listed hfields (Nat.le_of_succ_le_succ hfuel) rest
  rw [List.cons_append, value, skipSpaces_cons (by decide)]
  simp only [fieldText] at hmembers
  simp only [hmembers, Except.map, Fields.ofList_eq_self hordered]

/-- Reading a value without floats, written as compact text, gives it again. -/
theorem readsBack_of_fits {found : Json} (hfits : Fits depth found) (hfloat : ¬HoldsFloat found) :
    ReadsBack depth found := by
  induction hfits with
  | null => exact readsBack_scalar rfl (by decide) fun rest _ => rfl
  | bool b =>
      cases b
      · exact readsBack_scalar rfl (by decide) fun rest _ => rfl
      · exact readsBack_scalar rfl (by decide) fun rest _ => rfl
  | number n =>
      cases n with
      | integer n =>
          obtain ⟨c, more, htext, hc⟩ := (Grammar.isInteger_integerText n.toInt).isNumber.head?
          have hnumber : Grammar.isNumberChar c = true := by
            rcases hc with rfl | hdigit
            · rfl
            · exact Grammar.isNumberChar_of_isDigit hdigit
          exact readsBack_scalar htext (opensScalar_of_isNumberChar hnumber) fun rest hrest =>
            scalar_integerText n hrest
      | float x => exact absurd (.float x) hfloat
  | string s =>
      refine readsBack_scalar rfl (by decide) fun rest _ => ?_
      rw [compactText_string_append, scalar, stringBody_flatMap]
      simp [Except.map]
  | array _ ih =>
      exact readsBack_array fun item hitem => ih item hitem fun h => hfloat (.item hitem h)
  | object hordered _ ih =>
      exact readsBack_object hordered fun field hfield =>
        ih field hfield fun h => hfloat (.field hfield h)

end Shipment.Json
