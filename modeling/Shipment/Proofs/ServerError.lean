import Mathlib.Data.List.DropRight
import Shipment.Proofs.Json.RoundTrip
import Shipment.ServerError

/-!
# Server errors written and read again

An answer may be read from an object with its fields in any order or from a list.  What
is read has data that can be written: reading takes no data too deep, and `null` for none.
So an answer that is written, without a float in its data, is read as the same answer.
-/

namespace Shipment

namespace Json

variable {text rest : List Char} {found : Json} {depth fuel : Nat}

/-! ## Values that are null -/

theorem exists_n_of_scalar (hread : scalar text = .ok (null, rest)) :
    ∃ more, text = 'n' :: more := by
  unfold scalar at hread
  split at hread
  · exact ⟨_, rfl⟩
  all_goals
    try split at hread
    all_goals
      first
      | cases hread
      | obtain ⟨_, -, heq⟩ := map_eq_ok.mp hread
        cases heq

/-- Only a value that begins as `null` does is null. -/
theorem exists_n_of_value (hread : value fuel depth text = .ok (null, rest)) :
    ∃ more, skipSpaces text = 'n' :: more := by
  cases fuel with
  | zero => cases hread
  | succ fuel =>
      rw [value] at hread
      split at hread
      · split at hread
        · cases hread
        · obtain ⟨_, -, heq⟩ := map_eq_ok.mp hread
          cases heq
      · split at hread
        · cases hread
        · obtain ⟨_, -, heq⟩ := map_eq_ok.mp hread
          cases heq
      · exact exists_n_of_scalar hread

theorem eq_null_of_value {more : List Char}
    (hread : value fuel depth ('n' :: more) = .ok (found, rest)) : found = null := by
  cases fuel with
  | zero => cases hread
  | succ fuel =>
      rw [value, skipSpaces_cons (by decide)] at hread
      obtain ⟨_, -, heq⟩ := map_eq_ok.mp hread
      cases heq
      rfl

/-- What can be read as a value that is there. -/
structure IsData (depth : Nat) (data : Option Json) : Prop where
  fits : ∀ found, data = some found → Fits depth found
  ne_null : data ≠ some null

theorem isData_none : IsData depth none :=
  ⟨fun _ heq => (nomatch heq), fun heq => (nomatch heq)⟩

theorem isData_of_optionalValue {data : Option Json}
    (hread : optionalValue depth text = .ok (data, rest)) : IsData depth data := by
  unfold optionalValue at hread
  split at hread
  · obtain ⟨_, -, heq⟩ := map_eq_ok.mp hread
    cases heq
    exact isData_none
  · next hstart =>
      obtain ⟨⟨own, left⟩, hown, heq⟩ := map_eq_ok.mp hread
      cases heq
      constructor
      · rintro found ⟨⟩
        exact fits_value _ hown
      · rintro ⟨⟩
        obtain ⟨more, hmore⟩ := exists_n_of_value hown
        rw [skipSpaces, skipSpaces, List.dropWhile_idempotent] at hmore
        exact hstart more hmore

/-! ## Parts that are read again -/

theorem neededString_string (s : String) (rest : List Char) :
    neededString (compactText (string s) ++ rest) = .ok (s, rest) := by
  rw [compactText_string_append, neededString, skipSpaces_cons (by decide)]
  simp [stringBody_flatMap, Except.map]

theorem ReadsBack.optionalValue (hfound : ReadsBack depth found) (hnull : found ≠ null)
    (hrest : Grammar.Stops rest) :
    Json.optionalValue depth (compactText found ++ rest) = .ok (some found, rest) := by
  have hread := hfound.read (fuelFor (compactText found ++ rest)) rest
    (by simp only [fuelFor, List.length_append]; omega) hrest
  obtain ⟨c, more, htext, hspace, -⟩ := hfound.begins
  rw [htext, List.cons_append] at hread ⊢
  rw [Json.optionalValue, skipSpaces_cons hspace]
  split
  · next heq =>
      cases heq
      exact absurd (eq_null_of_value hread) hnull
  · simp [hread, Except.map]

end Json

namespace ServerError

open Json

variable {text rest : List Char} {d d' : Draft} {answer : ServerError} {fuel : Nat} {key : String}

/-! ## Data of an answer that is read -/

theorem isData_of_readField (hd : IsData dataDepth d.data.join)
    (hread : readField d key text = .ok (d', rest)) : IsData dataDepth d'.data.join := by
  unfold readField at hread
  split at hread
  · obtain ⟨_, -, heq⟩ := map_eq_ok.mp hread
    cases heq
    exact hd
  · split at hread
    · obtain ⟨_, -, heq⟩ := map_eq_ok.mp hread
      cases heq
      exact hd
    · split at hread
      · obtain ⟨_, hdata, heq⟩ := map_eq_ok.mp hread
        cases heq
        exact isData_of_optionalValue hdata
      · obtain ⟨_, -, heq⟩ := map_eq_ok.mp hread
        cases heq
        exact hd

theorem Draft.data_finish (hfinish : d.finish = .ok answer) : answer.data = d.data.join := by
  unfold finish at hfinish
  split at hfinish
  · cases hfinish
  · cases hfinish
  · cases hfinish
    rfl

theorem isData_of_readFields {first : Bool} (hd : IsData dataDepth d.data.join)
    (hread : readFields fuel d first text = .ok (answer, rest)) :
    IsData dataDepth answer.data := by
  induction fuel generalizing d first text with
  | zero => cases hread
  | succ fuel ih =>
      rw [readFields] at hread
      split at hread
      · cases hread
      · split at hread
        · next hfinish =>
            cases hread
            rw [Draft.data_finish hfinish]
            exact hd
        · cases hread
      · split at hread
        · cases hread
        · simp only at hread
          split at hread
          · cases hread
          · split at hread
            · cases hread
            · split at hread
              · cases hread
              · next hfield => exact ih (isData_of_readField hd hfield) hread

theorem isData_of_readParts (hread : readParts text = .ok (answer, rest)) :
    IsData dataDepth answer.data := by
  unfold readParts at hread
  split at hread
  · cases hread
  · split at hread
    · cases hread
    · split at hread
      · cases hread
      · cases hread
        exact isData_none
      · split at hread
        · cases hread
        · next hdata =>
            obtain ⟨_, -, heq⟩ := map_eq_ok.mp hread
            cases heq
            exact isData_of_optionalValue hdata

/-- The data of an answer that is read can be written and read. -/
theorem isData_of_read {body : String} (hread : read body = .ok answer) :
    IsData dataDepth answer.data := by
  unfold read at hread
  split at hread
  · cases hread
  · next hscan =>
      split at hread
      · cases hread
      · cases hread
        unfold scan at hscan
        split at hscan
        · cases hscan
        · exact isData_of_readParts hscan
        · exact isData_of_readFields isData_none hscan
        · cases hscan

/-! ## Answers that are written -/

/-- A written field is read into the draft, and what is left goes on behind it. -/
theorem readFields_cons {first : Bool} {field : String × Json} (hnew : d.has field.1 = false)
    (hfield : readField d field.1 (compactText field.2 ++ rest) = .ok (d', rest))
    (hnext : nextKey first text = .ok (.item (fieldText field ++ rest).tail)) :
    readFields (fuel + 1) d first text = readFields fuel d' false rest := by
  have hcolon : colon (':' :: (compactText field.2 ++ rest)) = .ok (compactText field.2 ++ rest) :=
    rfl
  rw [readFields, hnext, fieldText_append, List.tail_cons]
  simp only [stringBody_flatMap, String.ofList_toList, hnew, hcolon, hfield]
  rfl

theorem readFields_followed {field : String × Json} {more : List (String × Json)}
    (hnew : d.has field.1 = false)
    (hfield : ∀ rest, Grammar.Stops rest →
      readField d field.1 (compactText field.2 ++ rest) = .ok (d', rest)) (rest : List Char) :
    readFields (fuel + 1) d false (followed [] ['\x7d'] fieldText (field :: more) ++ rest) =
      readFields fuel d' false (followed [] ['\x7d'] fieldText more ++ rest) := by
  apply readFields_cons hnew (hfield _ (stops_followed (by decide) rest))
  rw [followed, List.nil_append, List.cons_append, List.append_assoc, fieldText_append]
  rfl

theorem readFields_listed {field : String × Json} {more : List (String × Json)}
    (hnew : d.has field.1 = false)
    (hfield : ∀ rest, Grammar.Stops rest →
      readField d field.1 (compactText field.2 ++ rest) = .ok (d', rest)) (rest : List Char) :
    readFields (fuel + 1) d true (listed [] [] '\x7d' fieldText (field :: more) ++ rest) =
      readFields fuel d' false (followed [] ['\x7d'] fieldText more ++ rest) := by
  apply readFields_cons hnew (hfield _ (stops_followed (by decide) rest))
  rw [listed, List.nil_append, List.nil_append, List.append_assoc, fieldText_append]
  rfl

theorem readField_error (s : String) (rest : List Char) :
    readField d "error" (compactText (.string s) ++ rest) =
      .ok ({ d with message := some s }, rest) := by
  rw [readField, if_pos rfl, neededString_string]
  rfl

theorem readField_code (s : String) (rest : List Char) :
    readField d "code" (compactText (.string s) ++ rest) =
      .ok ({ d with code := some s }, rest) := by
  rw [readField, if_neg (by decide), if_pos rfl, neededString_string]
  rfl

theorem readField_data {data : Json} (hdata : ReadsBack dataDepth data) (hnull : data ≠ .null)
    (hrest : Grammar.Stops rest) :
    readField d "data" (compactText data ++ rest) =
      .ok ({ d with data := some (some data) }, rest) := by
  rw [readField, if_neg (by decide), if_neg (by decide), if_pos rfl,
    hdata.optionalValue hnull hrest]
  rfl

/-- The fields of an answer are read, whether there is data or not. -/
theorem readFields_fields (hfuel : 4 ≤ fuel)
    (hdata : ∀ data, answer.data = some data → ReadsBack dataDepth data ∧ data ≠ .null) :
    readFields fuel .empty true (listed [] [] '\x7d' fieldText answer.fields ++ []) =
      .ok (answer, []) := by
  obtain ⟨fuel, rfl⟩ := Nat.exists_eq_add_of_le' hfuel
  obtain ⟨message, code, data⟩ := answer
  rw [fields, readFields_listed rfl fun rest _ => readField_error message rest,
    readFields_followed rfl fun rest _ => readField_code code rest]
  cases data with
  | none => rfl
  | some data =>
      obtain ⟨hread, hnull⟩ := hdata data rfl
      rw [readFields_followed rfl fun rest hrest => readField_data hread hnull hrest]
      rfl

/-- An answer whose data can be read is read from its text. -/
theorem read_write_of_readsBack
    (hdata : ∀ data, answer.data = some data → ReadsBack dataDepth data ∧ data ≠ .null) :
    read answer.write = .ok answer := by
  have htext : answer.write.toList = '\x7b' :: listed [] [] '\x7d' fieldText answer.fields := by
    rw [write, compact, String.toList_ofList, compactText_object]
    rfl
  have hlong : 4 ≤ (listed [] [] '\x7d' fieldText answer.fields).length + 1 := by
    simp only [fields, listed, fieldText, memberText, stringText, List.length_append,
      List.length_cons, List.length_nil]
    omega
  have hscan : scan answer.write.toList = .ok (answer, []) := by
    rw [htext, scan, skipSpaces_cons (by decide)]
    have hfields := readFields_fields hlong hdata
    rw [List.append_nil] at hfields
    exact hfields
  rw [read, hscan]
  rfl

/-- An answer that is read and written, if there is no float in its data, is read as the
same answer, with the same failures. -/
theorem read_write {body : String} (hread : read body = .ok answer)
    (hfloat : ∀ data, answer.data = some data → ¬data.HoldsFloat) :
    ∃ again, read answer.write = .ok again ∧ again = answer ∧
      again.failures? = answer.failures? := by
  have hdata := isData_of_read hread
  refine ⟨answer, ?_, rfl, rfl⟩
  apply read_write_of_readsBack
  intro data heq
  refine ⟨readsBack_of_fits (hdata.fits data heq) (hfloat data heq), ?_⟩
  rintro rfl
  exact hdata.ne_null heq

/-- An answer in the form of a list, and a failure in its data in that form. -/
def listBody : String :=
  "[\"m\", \"invalid_request_body\", \x7b\"jsv_errors\": [[\"/specs/0\", \"r\"]]\x7d ]"

theorem read_listBody :
    read listBody = .ok ⟨"m", "invalid_request_body",
      some (.object [("jsv_errors", .array [.array [.string "/specs/0", .string "r"]])])⟩ := by
  simp [listBody, read, scan, readParts, readPart, closeList, dataDepth, nestingLimit, neededString,
    optionalValue, value, items, members, nextItem, nextKey, colon, scalar, stringBody, skipSpaces,
    isSpace, finished, fuelFor, Fields.ofList, Fields.insert, Except.map]

theorem listBody_read_again :
    ∃ answer, read listBody = .ok answer ∧ read answer.write = .ok answer ∧
      answer.failures? = .ok (some [⟨"/specs/0", "r"⟩]) := by
  obtain ⟨again, hagain, rfl, -⟩ := read_write read_listBody <| by
    rintro data ⟨⟩
    simp
  exact ⟨_, read_listBody, hagain, rfl⟩

end ServerError

end Shipment
