import Shipment.Proofs.Text.ByteOrder

/-!
# Reading bytes as a text

The bytes of a text are read as that text, and no other bytes are read without a
replacement.  Whatever bytes are read, each character of the text other than the
replacement stands in the bytes, so a character of one byte is read only where that
byte is.
-/

namespace Shipment.Text

/-! ## The character in front -/

theorem frontChar?_append (c : Char) (rest : List UInt8) :
    frontChar? (String.utf8EncodeChar c ++ rest) = some c := by
  have hshort : (String.utf8EncodeChar c).length ≤ 4 := by
    rw [String.length_utf8EncodeChar]
    exact c.utf8Size_le_four
  rw [frontChar?, List.take_append, List.take_of_length_le hshort, List.toByteArray_append]
  exact ByteArray.utf8DecodeChar?_utf8EncodeChar_append

theorem exists_append_of_frontChar? {front : List UInt8} {c : Char}
    (hfront : frontChar? front = some c) : ∃ rest, front = String.utf8EncodeChar c ++ rest := by
  obtain ⟨more, hmore⟩ := ByteArray.exists_of_utf8DecodeChar?_eq_some hfront
  have hbytes := congrArg (·.data.toList) hmore
  simp only [List.toList_data_toByteArray, ByteArray.data_append, Array.toList_append] at hbytes
  refine ⟨more.data.toList ++ front.drop 4, ?_⟩
  rw [← List.append_assoc, ← hbytes, List.take_append_drop]

/-! ## All characters -/

theorem charsFrom_drop (passed : Nat) (bytes : List UInt8) :
    charsFrom passed bytes = charsFrom 0 (bytes.drop passed) := by
  induction passed generalizing bytes with
  | zero => rfl
  | succ passed ih =>
      cases bytes with
      | nil => rfl
      | cons b rest =>
          rw [charsFrom, List.drop_succ_cons]
          exact ih rest

/-- A character in front is read, and then what stands behind it. -/
theorem charsFrom_append (c : Char) (rest : List UInt8) :
    charsFrom 0 (String.utf8EncodeChar c ++ rest) = c :: charsFrom 0 rest := by
  have hfront := frontChar?_append c rest
  have hlength := String.length_utf8EncodeChar c
  cases hbytes : String.utf8EncodeChar c with
  | nil => exact absurd hbytes String.utf8EncodeChar_ne_nil
  | cons b more =>
      rw [hbytes] at hfront hlength
      have hmore : more.length = c.utf8Size - 1 := by
        rw [← hlength, List.length_cons, Nat.add_sub_cancel]
      rw [List.cons_append] at hfront ⊢
      rw [charsFrom]
      simp only [hfront]
      rw [charsFrom_drop, ← hmore, List.drop_left]

/-- The bytes of a text are read as that text. -/
@[simp]
theorem ofBytes_bytes (s : String) : ofBytes (bytes s) = s := by
  have hchars : ∀ chars : List Char,
      charsFrom 0 (chars.flatMap String.utf8EncodeChar) = chars := by
    intro chars
    induction chars with
    | nil => rfl
    | cons c rest ih => rw [List.flatMap_cons, charsFrom_append, ih]
  rw [ofBytes, bytes_eq_flatMap, hchars, String.ofList_toList]

theorem bytes_injective {s t : String} (heq : bytes s = bytes t) : s = t := by
  rw [← ofBytes_bytes s, heq, ofBytes_bytes]

/-- Some character is read wherever there is a byte. -/
theorem ofBytes_ne_empty {bytes : List UInt8} (hbytes : bytes ≠ []) : ofBytes bytes ≠ "" := by
  cases bytes with
  | nil => exact absurd rfl hbytes
  | cons b rest =>
      rw [ofBytes, charsFrom, ne_eq, String.ofList_eq_empty_iff]
      split <;> simp

/-- A character that is read is the replacement or stands in the bytes. -/
theorem eq_replacement_or_subset {c : Char} {bytes : List UInt8} {passed : Nat}
    (hc : c ∈ charsFrom passed bytes) :
    c = replacement ∨ String.utf8EncodeChar c ⊆ bytes := by
  induction bytes generalizing passed with
  | nil => simp [charsFrom] at hc
  | cons b rest ih =>
      have hrest : ∀ {passed}, c ∈ charsFrom passed rest →
          c = replacement ∨ String.utf8EncodeChar c ⊆ b :: rest := fun hmem =>
        (ih hmem).imp_right fun hsubset => List.subset_cons_of_subset b hsubset
      cases passed with
      | succ passed => exact hrest hc
      | zero =>
          rw [charsFrom] at hc
          cases hfront : frontChar? (b :: rest) with
          | some own =>
              simp only [hfront, List.mem_cons] at hc
              rcases hc with rfl | hmem
              · obtain ⟨more, hmore⟩ := exists_append_of_frontChar? hfront
                rw [hmore]
                exact Or.inr (List.subset_append_left _ _)
              · exact hrest hmem
          | none =>
              simp only [hfront, List.mem_cons] at hc
              rcases hc with rfl | hmem
              · exact Or.inl rfl
              · exact hrest hmem

/-- A character of one byte is read only where that byte is. -/
theorem mem_of_mem_ofBytes {c : Char} {b : UInt8} {bytes : List UInt8}
    (hbyte : String.utf8EncodeChar c = [b]) (hne : c ≠ replacement)
    (hc : c ∈ (ofBytes bytes).toList) : b ∈ bytes := by
  rw [ofBytes, String.toList_ofList] at hc
  have hsubset := (eq_replacement_or_subset hc).resolve_left hne
  rw [hbyte] at hsubset
  exact hsubset List.mem_cons_self

/-! ## Characters of one byte -/

theorem utf8EncodeChar_injective : Function.Injective String.utf8EncodeChar := by
  intro c d heq
  have hfront := frontChar?_append c []
  rw [heq, frontChar?_append] at hfront
  exact (Option.some.inj hfront).symm

/-- A byte below 0x80 is all of its character. -/
theorem utf8EncodeChar_of_mem {c : Char} {b : UInt8} (hb : b ∈ String.utf8EncodeChar c)
    (hascii : b < 0x80) : String.utf8EncodeChar c = [b] := by
  have hlarge : ∀ n, 128 ≤ n → n < 256 → b ≠ UInt8.ofNat n := by
    rintro n hlow hhigh rfl
    rw [UInt8.lt_iff_toNat_lt, UInt8.toNat_ofNat', Nat.mod_eq_of_lt hhigh] at hascii
    exact absurd hascii (Nat.not_lt.mpr hlow)
  simp only [String.utf8EncodeChar] at hb ⊢
  generalize c.val.toNat = code at *
  split_ifs at hb ⊢
  · exact congrArg List.singleton (List.mem_singleton.mp hb).symm
  all_goals
    simp (disch := omega) only [List.mem_cons, List.not_mem_nil, hlarge, or_false] at hb

/-- A text has a character of one byte where its bytes have that byte. -/
theorem mem_bytes_iff {s : String} {c : Char} {b : UInt8} (hbyte : String.utf8EncodeChar c = [b])
    (hascii : b < 0x80) : b ∈ bytes s ↔ c ∈ s.toList := by
  rw [bytes_eq_flatMap, List.mem_flatMap]
  constructor
  · rintro ⟨d, hd, hb⟩
    obtain rfl := utf8EncodeChar_injective ((utf8EncodeChar_of_mem hb hascii).trans hbyte.symm)
    exact hd
  · exact fun hc => ⟨c, hc, hbyte ▸ List.mem_cons_self⟩

/-! ## Bytes that are UTF-8 -/

/-- The bytes are those of a text. -/
def IsUtf8 (own : List UInt8) : Prop :=
  ∃ s, bytes s = own

theorem isUtf8_iff {own : List UInt8} : IsUtf8 own ↔ bytes (ofBytes own) = own := by
  constructor
  · rintro ⟨s, rfl⟩
    rw [ofBytes_bytes]
  · exact fun hown => ⟨_, hown⟩

instance (own : List UInt8) : Decidable (IsUtf8 own) :=
  decidable_of_iff _ isUtf8_iff.symm

theorem isUtf8_bytes (s : String) : IsUtf8 (bytes s) :=
  ⟨s, rfl⟩

/-- Bytes that are read without a replacement are those of a text. -/
theorem isUtf8_of_not_mem {own : List UInt8} (hown : replacement ∉ (ofBytes own).toList) :
    IsUtf8 own := by
  rw [ofBytes, String.toList_ofList] at hown
  rw [isUtf8_iff, ofBytes, bytes_eq_flatMap, String.toList_ofList]
  -- on the length, since a whole character is taken off at once
  induction hlength : own.length using Nat.strong_induction_on generalizing own with
  | _ length ih =>
      cases own with
      | nil => rfl
      | cons b rest =>
          cases hfront : frontChar? (b :: rest) with
          | none => simp [charsFrom, hfront] at hown
          | some c =>
              obtain ⟨more, hmore⟩ := exists_append_of_frontChar? hfront
              have hshorter : more.length < length := by
                rw [← hlength, hmore, List.length_append, String.length_utf8EncodeChar]
                exact Nat.lt_add_of_pos_left c.utf8Size_pos
              rw [hmore, charsFrom_append] at hown ⊢
              rw [List.flatMap_cons, ih _ hshorter (List.not_mem_of_not_mem_cons hown) rfl]

end Shipment.Text
