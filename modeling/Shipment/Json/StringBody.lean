import Shipment.Json.Fault
import Shipment.Number.Reading

/-!
# Strings in JSON text

A string goes on to the next quote that is not escaped.  A character beyond the
first plane may be written as two escapes, the halves of its surrogate pair; a
half alone is no character and is refused.  A string that is only passed over is
not held to that, since nobody asks for its characters.
-/

namespace Shipment.Json

/-- The character that a letter after a backslash stands for. -/
def escapeLetter? (c : Char) : Option Char :=
  match c with
  | '"' => some '"'
  | '\\' => some '\\'
  | '/' => some '/'
  | 'b' => some '\x08'
  | 'f' => some '\x0c'
  | 'n' => some '\n'
  | 'r' => some '\r'
  | 't' => some '\t'
  | _ => none

/-- Reads four hexadecimal digits.  Four bytes count as read even where they are
no digits. -/
def hexUnit (text : List Char) : Scan Nat :=
  match text with
  | a :: b :: c :: d :: rest =>
    match Digits.hexValue? a, Digits.hexValue? b, Digits.hexValue? c, Digits.hexValue? d with
    | some i, some j, some k, some l => .ok (((i * 16 + j) * 16 + k) * 16 + l, rest)
    | _, _, _, _ => .error ⟨.badEscape, text, 4⟩
  | _ =>
    if Text.byteLength text < 4 then .error (.before .endInString [])
    else .error ⟨.badEscape, text, 4⟩

/-- Reads the second half of a surrogate pair. -/
def secondHalf (first : Nat) : List Char → Scan Char
  | '\\' :: 'u' :: rest =>
    match hexUnit rest with
    | .error stop => .error stop
    | .ok (second, rest) =>
      if 0xDC00 ≤ second ∧ second ≤ 0xDFFF then
        .ok (Char.ofNat ((first - 0xD800) * 0x400 + (second - 0xDC00) + 0x10000), rest)
      else .error (.before .loneSurrogate rest)
  | [] => .error (.before .endInString [])
  | ['\\'] => .error (.before .endInString [])
  | '\\' :: rest => .error (.on .brokenSurrogate rest)
  | rest => .error (.on .brokenSurrogate rest)

/-- Reads what follows `\u`. -/
def unicodeEscape (text : List Char) : Scan Char :=
  match hexUnit text with
  | .error stop => .error stop
  | .ok (unit, rest) =>
    if unit < 0xD800 ∨ 0xDFFF < unit then .ok (Char.ofNat unit, rest)
    else if unit < 0xDC00 then secondHalf unit rest
    else .error (.before .loneSurrogate rest)

/-- Reads what follows a backslash. -/
def escape : List Char → Scan Char
  | [] => .error (.before .endInString [])
  | 'u' :: rest => unicodeEscape rest
  | c :: rest =>
    match escapeLetter? c with
    | some e => .ok (e, rest)
    | none => .error (.on .badEscape (c :: rest))

theorem hexUnit_length {text rest : List Char} {n : Nat} (h : hexUnit text = .ok (n, rest)) :
    rest.length < text.length := by
  unfold hexUnit at h
  split at h
  · split at h
    · simp only [Except.ok.injEq, Prod.mk.injEq] at h
      simp [← h.2]
      omega
    · simp at h
  · split at h <;> simp at h

theorem secondHalf_length {first : Nat} {text rest : List Char} {c : Char}
    (h : secondHalf first text = .ok (c, rest)) : rest.length < text.length := by
  unfold secondHalf at h
  split at h
  · split at h
    · simp at h
    · rename_i unit
      have := hexUnit_length unit
      split at h
      · simp only [Except.ok.injEq, Prod.mk.injEq] at h
        simp [← h.2]
        omega
      · simp at h
  all_goals simp at h

theorem unicodeEscape_length {text rest : List Char} {c : Char}
    (h : unicodeEscape text = .ok (c, rest)) : rest.length < text.length := by
  unfold unicodeEscape at h
  split at h
  · simp at h
  · rename_i unit
    have := hexUnit_length unit
    split at h
    · simp only [Except.ok.injEq, Prod.mk.injEq] at h
      simp [← h.2, this]
    · split at h
      · have := secondHalf_length h
        omega
      · simp at h

/-- An escape takes at least one character. -/
theorem escape_length {text rest : List Char} {c : Char} (h : escape text = .ok (c, rest)) :
    rest.length < text.length := by
  unfold escape at h
  split at h
  · simp at h
  · have := unicodeEscape_length h
    simp
    omega
  · split at h
    · simp only [Except.ok.injEq, Prod.mk.injEq] at h
      simp [← h.2]
    · simp at h

/-- Reads a string after its opening quote. -/
def stringBody : List Char → Scan (List Char)
  | [] => .error (.before .endInString [])
  | c :: rest =>
    if c = '"' then .ok ([], rest)
    else if c = '\\' then
      match _h : escape rest with
      | .error stop => .error stop
      | .ok (e, more) => (stringBody more).map fun found => (e :: found.1, found.2)
    else if c.toNat < 0x20 then .error (.on .controlCharacter (c :: rest))
    else (stringBody rest).map fun found => (c :: found.1, found.2)
termination_by text => text.length
decreasing_by
  · have := escape_length _h
    simp
    omega
  · simp

/-- Passes over what follows a backslash. -/
def skipEscape : List Char → Except Stop (List Char)
  | [] => .error (.before .endInString [])
  | 'u' :: rest => (hexUnit rest).map (·.2)
  | c :: rest =>
    if (escapeLetter? c).isSome then .ok rest else .error (.on .badEscape (c :: rest))

theorem skipEscape_length {text rest : List Char} (h : skipEscape text = .ok rest) :
    rest.length < text.length := by
  unfold skipEscape at h
  split at h
  · simp at h
  · rename_i more
    cases unit : hexUnit more with
    | error stop => simp [unit, Except.map] at h
    | ok found =>
      have : found.2.length < more.length := hexUnit_length unit
      simp only [unit, Except.map, Except.ok.injEq] at h
      simp [← h]
      omega
  · split at h
    · simp only [Except.ok.injEq] at h
      simp [← h]
    · simp at h

/-- Passes over a string after its opening quote. -/
def skipString : List Char → Except Stop (List Char)
  | [] => .error (.before .endInString [])
  | c :: rest =>
    if c = '"' then .ok rest
    else if c = '\\' then
      match _h : skipEscape rest with
      | .error stop => .error stop
      | .ok more => skipString more
    else if c.toNat < 0x20 then .error (.before .controlCharacter (c :: rest))
    else skipString rest
termination_by text => text.length
decreasing_by
  · have := skipEscape_length _h
    simp
    omega
  · simp

end Shipment.Json
