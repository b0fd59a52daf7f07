import Shipment.Diagnostic
import Shipment.Proofs.Number.Digits
import Shipment.Proofs.Pointer

/-!
# What becomes of a failure

The text of a failure's pointer decides alone whether the failure is traced to a
document: it has to name the payload field and then an index of the manifest, in
decimal digits.  What follows the index is kept letter for letter as the location
in the document, though it is read into segments and written again on the way.
-/

namespace Shipment

namespace Json

theorem stringField?_eq_some_iff {spec : Json} {key text : String} :
    spec.stringField? key = some text ↔
      ∃ fields, spec = .object fields ∧ Fields.get? key fields = some (.string text) := by
  cases spec with
  | object fields =>
      simp only [stringField?, field?, object.injEq, exists_eq_left', Option.bind_eq_some_iff]
      constructor
      · rintro ⟨value, hvalue, htext⟩
        cases value <;> simp [string?] at htext
        rw [hvalue, htext]
      · intro hvalue
        exact ⟨_, hvalue, rfl⟩
  | _ => simp [stringField?, field?]

end Json

namespace Manifest

theorem get?_eq_some_iff {m : Manifest} {index : Nat} {entry : Entry} :
    m.get? index = some entry ↔
      m.origins[index]? = some entry.origin ∧ m.specs[index]? = some entry.spec := by
  simp only [Manifest.get?, Manifest.origins, Manifest.specs, List.getElem?_map]
  cases m.entries[index]? with
  | none => simp
  | some found =>
      obtain ⟨origin, spec⟩ := found
      obtain ⟨origin', spec'⟩ := entry
      simp

end Manifest

namespace Diagnostic

/-! ## Indexes -/

/-- A text of decimal digits whose number is a machine word. -/
def IsIndex (segment : String) (index : Nat) : Prop :=
  segment ≠ "" ∧ (∀ c ∈ segment.toList, c.isDigit = true) ∧
    Nat.ofDigitChars 10 segment.toList 0 = index ∧ index < Digits.wordCount

theorem index?_eq_some_iff {segment : String} {index : Nat} :
    index? segment = some index ↔ IsIndex segment index := by
  rw [index?, Option.filter_eq_some_iff, Digits.read?_eq_some_iff, IsIndex,
    ← String.toList_inj.ne]
  simp only [decide_eq_true_iff, String.toList_empty, ne_eq, and_assoc]

theorem index?_eq_none_iff {segment : String} :
    index? segment = none ↔
      segment = "" ∨ (∃ c ∈ segment.toList, c.isDigit = false) ∨
        Digits.wordCount ≤ Nat.ofDigitChars 10 segment.toList 0 := by
  have hnone : index? segment = none ↔ ∀ index, ¬IsIndex segment index := by
    simp only [Option.eq_none_iff_forall_ne_some, ne_eq, index?_eq_some_iff]
  rw [hnone]
  constructor
  · intro hindex
    by_contra hother
    simp only [not_or, not_exists, not_and, Nat.not_le] at hother
    obtain ⟨hne, hdigits, hlt⟩ := hother
    exact hindex _ ⟨hne, fun c hc => by simpa using hdigits c hc, rfl, hlt⟩
  · rintro hother index ⟨hne, hdigits, rfl, hlt⟩
    obtain rfl | ⟨c, hc, hdigit⟩ | hle := hother
    · exact hne rfl
    · simp [hdigits c hc] at hdigit
    · omega

/-! ## Locations in a document -/

/-- The text of a location in the request body, below the document at an index. -/
theorem text_below {digits : String} (hdigits : ∀ c ∈ digits.toList, c.isDigit = true)
    (location : Pointer) :
    Pointer.text ⟨Manifest.fieldName :: digits :: location.segments⟩ =
      "/" ++ Manifest.fieldName ++ "/" ++ digits ++ location.text := by
  have hfield : Pointer.escape Manifest.fieldName.toList = Manifest.fieldName.toList := by
    decide
  apply String.toList_inj.mp
  simp only [Pointer.toList_text, Pointer.textOf_cons, hfield,
    Pointer.escape_eq_self_of_isDigit hdigits, String.toList_append]
  simp

/-- What follows the index in a pointer: nothing, or a slash and more. -/
def tail : Option String → String
  | none => ""
  | some rest => "/" ++ rest

theorem exists_tail (location : Pointer) : ∃ rest, location.text = tail rest := by
  obtain ⟨segments⟩ := location
  cases segments with
  | nil => exact ⟨none, rfl⟩
  | cons segment more =>
      refine ⟨some (Pointer.relative ⟨segment :: more⟩), ?_⟩
      apply String.toList_inj.mp
      simp [Pointer.text, tail, Pointer.relative]

theorem exists_text_eq_tail {rest : Option String}
    (hrest : ¬Pointer.HasStrayTilde (tail rest).toList) :
    ∃ location : Pointer, location.text = tail rest := by
  cases hparse : Pointer.parse (tail rest) with
  | ok location => exact ⟨location, Pointer.parse_eq_ok_iff.mp hparse⟩
  | error cause =>
      obtain ⟨hne, hhead, -⟩ | ⟨-, before, hbefore, -⟩ := Pointer.parse_eq_error_iff.mp hparse
      · cases rest with
        | none => exact absurd rfl hne
        | some rest => exact absurd (by simp [tail]) hhead
      · exact absurd (Pointer.exists_firstStrayTilde.mp ⟨before, hbefore⟩) hrest

variable {location : Pointer} {rest : Option String}

/-- A location is all of the document if nothing follows the index, or only a slash. -/
theorem isWhole_iff (htail : location.text = tail rest) :
    isWhole location = true ↔ rest.filter (· ≠ "") = none := by
  have hwhole : isWhole location = true ↔ tail rest = tail none ∨ tail rest = tail (some "") := by
    simp only [isWhole, Bool.or_eq_true, beq_iff_eq, Pointer.segments_eq_iff, htail]
    rfl
  rw [hwhole]
  cases rest with
  | none => simp
  | some rest => simp [tail]

theorem relative_eq {rest : String} (htail : location.text = tail (some rest)) :
    location.relative = rest := by
  have htext := congrArg String.toList htail
  rw [Pointer.toList_text] at htext
  apply String.toList_inj.mp
  simp [Pointer.relative, htext, tail]

/-! ## Names of documents -/

/-- An object with a type and a name that are texts with content. -/
def NamedBy (spec : Json) (kind name : String) : Prop :=
  ∃ fields, spec = .object fields ∧ Fields.get? "type" fields = some (.string kind) ∧
    Fields.get? "name" fields = some (.string name) ∧ kind ≠ "" ∧ name ≠ ""

theorem nameOf?_eq_some_iff {spec : Json} {resource : Resource} :
    nameOf? spec = some resource ↔
      ∃ kind name, NamedBy spec kind name ∧ resource = .named kind name := by
  constructor
  · intro hname
    unfold nameOf? at hname
    split at hname
    · next kind name hkind hown =>
        split at hname
        · cases hname
        · next hfull =>
            cases hname
            obtain ⟨fields, rfl, htype⟩ := Json.stringField?_eq_some_iff.mp hkind
            obtain ⟨_, ⟨⟩, hnamed⟩ := Json.stringField?_eq_some_iff.mp hown
            exact ⟨kind, name, ⟨fields, rfl, htype, hnamed, not_or.mp hfull⟩, rfl⟩
    · cases hname
  · rintro ⟨kind, name, ⟨fields, rfl, htype, hnamed, hkind, hname⟩, rfl⟩
    have htype := Json.stringField?_eq_some_iff.mpr ⟨fields, rfl, htype⟩
    have hnamed := Json.stringField?_eq_some_iff.mpr ⟨fields, rfl, hnamed⟩
    simp [nameOf?, htype, hnamed, hkind, hname]

theorem nameOf?_eq_none_iff {spec : Json} :
    nameOf? spec = none ↔ ∀ kind name, ¬NamedBy spec kind name := by
  simp only [Option.eq_none_iff_forall_ne_some, ne_eq, nameOf?_eq_some_iff]
  constructor
  · exact fun hnone kind name hname => hnone _ ⟨kind, name, hname, rfl⟩
  · rintro hnone _ ⟨kind, name, hname, -⟩
    exact hnone kind name hname

/-- What a document is called where a field of it fails, or all of it. -/
inductive Called (entry : Entry) : Option String → Resource → Prop
  | byName {kind name : String} (field : String) (hname : NamedBy entry.spec kind name) :
      Called entry (some field) (.named kind name)
  | byNumber {field : Option String}
      (hfield : field = none ∨ ∀ kind name, ¬NamedBy entry.spec kind name) :
      Called entry field (.document entry.origin.document)

theorem called_some_iff {entry : Entry} {field : String} {resource : Resource} :
    Called entry (some field) resource ↔
      (nameOf? entry.spec).getD (.document entry.origin.document) = resource := by
  constructor
  · intro hcalled
    cases hcalled with
    | byName field hname => rw [nameOf?_eq_some_iff.mpr ⟨_, _, hname, rfl⟩, Option.getD_some]
    | byNumber hfield =>
        have hnone := nameOf?_eq_none_iff.mpr (hfield.resolve_left (Option.some_ne_none field))
        rw [hnone, Option.getD_none]
  · rintro rfl
    cases hname : nameOf? entry.spec with
    | none => exact .byNumber (Or.inr (nameOf?_eq_none_iff.mp hname))
    | some own =>
        obtain ⟨kind, name, hnamed, rfl⟩ := nameOf?_eq_some_iff.mp hname
        exact .byName field hnamed

/-- The diagnostic of an entry, by what follows the index in the pointer. -/
theorem ofEntry_eq_iff {entry : Entry} {reason : String} {d : Diagnostic}
    (htail : location.text = tail rest) :
    ofEntry entry location reason = d ↔
      ∃ resource, Called entry (rest.filter (· ≠ "")) resource ∧
        d = ⟨entry.origin.path, resource, rest.filter (· ≠ ""), reason⟩ := by
  by_cases hwhole : isWhole location = true
  · rw [ofEntry, if_pos hwhole, (isWhole_iff htail).mp hwhole]
    constructor
    · rintro rfl
      exact ⟨_, .byNumber (Or.inl rfl), rfl⟩
    · rintro ⟨resource, hcalled, rfl⟩
      cases hcalled
      rfl
  · obtain ⟨field, hfield⟩ := Option.ne_none_iff_exists'.mp (mt (isWhole_iff htail).mpr hwhole)
    have hrest : rest = some field := (Option.filter_eq_some_iff.mp hfield).1
    subst hrest
    rw [ofEntry, if_neg hwhole, hfield, relative_eq htail]
    simp only [called_some_iff, exists_eq_left']
    exact eq_comm

/-! ## The decision -/

/-- What a failure with this pointer and this reason becomes. -/
inductive Traced (m : Manifest) (pointer reason : String) :
    Except DiagnosticError Diagnostic → Prop
  /-- The pointer is not empty and starts with something other than a slash. -/
  | noSlash (hne : pointer ≠ "") (hhead : pointer.toList.head? ≠ some '/') :
      Traced m pointer reason (.error (.invalidPointer (.missingLeadingSlash pointer)))
  /-- It has a tilde that starts no escape; the first one is reported. -/
  | strayTilde (before : List Char) (hhead : pointer.toList.head? = some '/')
      (hstray : Pointer.FirstStrayTilde pointer.toList before) :
      Traced m pointer reason
        (.error (.invalidPointer (.invalidEscape pointer (Text.byteLength before))))
  /-- It is read, but not as segments of which the first is the payload field. -/
  | elsewhere (p : Pointer) (hpointer : p.text = pointer)
      (hfield : p.segments.head? ≠ some "specs") :
      Traced m pointer reason (.error (.unexpectedRoot pointer "specs"))
  /-- It is the payload field alone. -/
  | noIndex (hpointer : pointer = "/specs") :
      Traced m pointer reason (.error (.missingIndex pointer))
  /-- The second segment is empty, has a character that is no digit, or is too large. -/
  | noNumber (segment : String) (more : List String)
      (hpointer : Pointer.text ⟨"specs" :: segment :: more⟩ = pointer)
      (hsegment : segment = "" ∨ (∃ c ∈ segment.toList, c.isDigit = false) ∨
        Digits.wordCount ≤ Nat.ofDigitChars 10 segment.toList 0) :
      Traced m pointer reason (.error (.invalidIndex pointer segment))
  /-- The second segment is an index, and the manifest has no more than so many documents. -/
  | beyond (segment : String) (more : List String) (index : Nat)
      (hpointer : Pointer.text ⟨"specs" :: segment :: more⟩ = pointer)
      (hindex : IsIndex segment index) (hsize : m.size ≤ index) :
      Traced m pointer reason (.error (.indexOutOfRange pointer index m.size))
  /-- The manifest has a document at the index. -/
  | placed (digits : String) (rest : Option String) (index : Nat) (entry : Entry)
      (resource : Resource) (hpointer : "/specs/" ++ digits ++ tail rest = pointer)
      (hstray : ¬Pointer.HasStrayTilde pointer.toList) (hindex : IsIndex digits index)
      (horigin : m.origins[index]? = some entry.origin)
      (hspec : m.specs[index]? = some entry.spec)
      (hcalled : Called entry (rest.filter (· ≠ "")) resource) :
      Traced m pointer reason
        (.ok ⟨entry.origin.path, resource, rest.filter (· ≠ ""), reason⟩)

section

variable {m : Manifest} {pointer reason segment : String} {more : List String} {index : Nat}
  {entry : Entry}

theorem ofFailure_of_parse_eq_error {cause : PointerError}
    (hparse : Pointer.parse pointer = .error cause) :
    ofFailure m ⟨pointer, reason⟩ = .error (.invalidPointer cause) := by
  simp [ofFailure, hparse]

theorem ofFailure_of_head?_ne {p : Pointer}
    (hfield : p.segments.head? ≠ some Manifest.fieldName) :
    ofFailure m ⟨p.text, reason⟩ = .error (.unexpectedRoot p.text Manifest.fieldName) := by
  rw [ofFailure, Pointer.parse_text]
  obtain ⟨segments⟩ := p
  cases segments with
  | nil => rfl
  | cons field more =>
      have hne : field ≠ Manifest.fieldName := by simpa using hfield
      simp [hne]

theorem ofFailure_field_alone :
    ofFailure m ⟨Pointer.text ⟨[Manifest.fieldName]⟩, reason⟩ =
      .error (.missingIndex (Pointer.text ⟨[Manifest.fieldName]⟩)) := by
  rw [ofFailure, Pointer.parse_text]
  rfl

theorem ofFailure_of_index?_eq_none (hindex : index? segment = none) :
    ofFailure m ⟨Pointer.text ⟨Manifest.fieldName :: segment :: more⟩, reason⟩ =
      .error (.invalidIndex (Pointer.text ⟨Manifest.fieldName :: segment :: more⟩) segment) := by
  rw [ofFailure, Pointer.parse_text]
  simp [hindex]

theorem ofFailure_of_get?_eq_none (hindex : index? segment = some index)
    (hentry : m.get? index = none) :
    ofFailure m ⟨Pointer.text ⟨Manifest.fieldName :: segment :: more⟩, reason⟩ =
      .error (.indexOutOfRange (Pointer.text ⟨Manifest.fieldName :: segment :: more⟩) index
        m.size) := by
  rw [ofFailure, Pointer.parse_text]
  simp [hindex, hentry]

theorem ofFailure_of_get?_eq_some (hindex : index? segment = some index)
    (hentry : m.get? index = some entry) :
    ofFailure m ⟨Pointer.text ⟨Manifest.fieldName :: segment :: more⟩, reason⟩ =
      .ok (ofEntry entry ⟨more⟩ reason) := by
  rw [ofFailure, Pointer.parse_text]
  simp [hindex, hentry, Pointer.skip]

/-- A pointer that is read and names an index leads to something behind the index. -/
theorem exists_tail_eq (hindex : IsIndex segment index) :
    ∃ rest, Pointer.text ⟨more⟩ = tail rest ∧
      "/specs/" ++ segment ++ tail rest = Pointer.text ⟨"specs" :: segment :: more⟩ := by
  obtain ⟨rest, hrest⟩ := exists_tail ⟨more⟩
  refine ⟨rest, hrest, ?_⟩
  have htext := text_below hindex.2.1 ⟨more⟩
  rw [hrest] at htext
  exact htext.symm

/-- What stands behind the index, letter for letter, decides on the field and on the name. -/
theorem ofFailure_of_tail {digits : String} {resource : Resource}
    (hstray : ¬Pointer.HasStrayTilde ("/specs/" ++ digits ++ tail rest).toList)
    (hindex : IsIndex digits index) (hentry : m.get? index = some entry)
    (hcalled : Called entry (rest.filter (· ≠ "")) resource) :
    ofFailure m ⟨"/specs/" ++ digits ++ tail rest, reason⟩ =
      .ok ⟨entry.origin.path, resource, rest.filter (· ≠ ""), reason⟩ := by
  have hrest : ¬Pointer.HasStrayTilde (tail rest).toList := by
    intro htail
    refine hstray ?_
    rw [String.toList_append]
    exact htail.append_left _
  obtain ⟨location, hlocation⟩ := exists_text_eq_tail hrest
  calc
    ofFailure m ⟨"/specs/" ++ digits ++ tail rest, reason⟩
    _ = ofFailure m ⟨Pointer.text ⟨"specs" :: digits :: location.segments⟩, reason⟩ := by
        rw [← hlocation]
        exact congrArg (ofFailure m ⟨·, reason⟩) (text_below hindex.2.1 location).symm
    _ = .ok (ofEntry entry location reason) :=
        ofFailure_of_get?_eq_some (index?_eq_some_iff.mpr hindex) hentry
    _ = .ok ⟨entry.origin.path, resource, rest.filter (· ≠ ""), reason⟩ := by
        rw [(ofEntry_eq_iff hlocation).mpr ⟨resource, hcalled, rfl⟩]

theorem traced_ofFailure : Traced m pointer reason (ofFailure m ⟨pointer, reason⟩) := by
  cases hparse : Pointer.parse pointer with
  | error cause =>
      rw [ofFailure_of_parse_eq_error hparse]
      obtain ⟨hne, hhead, rfl⟩ | ⟨hhead, before, hbefore, rfl⟩ :=
        Pointer.parse_eq_error_iff.mp hparse
      · exact .noSlash hne hhead
      · exact .strayTilde before hhead hbefore
  | ok p =>
      obtain rfl := Pointer.parse_eq_ok_iff.mp hparse
      by_cases hfield : p.segments.head? = some Manifest.fieldName
      · obtain ⟨more, hsegments⟩ := List.head?_eq_some_iff.mp hfield
        obtain ⟨_⟩ := p
        subst hsegments
        cases more with
        | nil =>
            rw [ofFailure_field_alone]
            exact .noIndex rfl
        | cons segment more =>
            cases hindex : index? segment with
            | none =>
                rw [ofFailure_of_index?_eq_none hindex]
                exact .noNumber segment more rfl (index?_eq_none_iff.mp hindex)
            | some index =>
                have hsegment := index?_eq_some_iff.mp hindex
                cases hentry : m.get? index with
                | none =>
                    rw [ofFailure_of_get?_eq_none hindex hentry]
                    exact .beyond segment more index rfl hsegment
                      (List.getElem?_eq_none_iff.mp hentry)
                | some entry =>
                    obtain ⟨rest, hrest, hpointer⟩ := exists_tail_eq hsegment
                    obtain ⟨resource, hcalled, hd⟩ :=
                      (ofEntry_eq_iff hrest).mp (Eq.refl (ofEntry entry ⟨more⟩ reason))
                    obtain ⟨horigin, hspec⟩ := Manifest.get?_eq_some_iff.mp hentry
                    rw [ofFailure_of_get?_eq_some hindex hentry, hd]
                    exact .placed segment rest index entry resource hpointer
                      (Pointer.not_hasStrayTilde_text _) hsegment horigin hspec hcalled
      · rw [ofFailure_of_head?_ne hfield]
        exact .elsewhere p rfl hfield

end

/-- Tracing a failure gives what the text of its pointer decides, so exactly one
of the cases applies to each text. -/
theorem ofFailure_eq_iff_traced (m : Manifest) (pointer reason : String)
    (result : Except DiagnosticError Diagnostic) :
    ofFailure m ⟨pointer, reason⟩ = result ↔ Traced m pointer reason result := by
  constructor
  · rintro rfl
    exact traced_ofFailure
  · intro htraced
    cases htraced with
    | noSlash hne hhead =>
        exact ofFailure_of_parse_eq_error
          (Pointer.parse_eq_error_iff.mpr (Or.inl ⟨hne, hhead, rfl⟩))
    | strayTilde before hhead hstray =>
        exact ofFailure_of_parse_eq_error
          (Pointer.parse_eq_error_iff.mpr (Or.inr ⟨hhead, before, hstray, rfl⟩))
    | elsewhere p hpointer hfield =>
        subst hpointer
        exact ofFailure_of_head?_ne hfield
    | noIndex hpointer =>
        subst hpointer
        exact ofFailure_field_alone
    | noNumber segment more hpointer hsegment =>
        subst hpointer
        exact ofFailure_of_index?_eq_none (index?_eq_none_iff.mpr hsegment)
    | beyond segment more index hpointer hindex hsize =>
        subst hpointer
        exact ofFailure_of_get?_eq_none (index?_eq_some_iff.mpr hindex)
          (List.getElem?_eq_none_iff.mpr hsize)
    | placed digits rest index entry resource hpointer hstray hindex horigin hspec hcalled =>
        subst hpointer
        exact ofFailure_of_tail hstray hindex (Manifest.get?_eq_some_iff.mpr ⟨horigin, hspec⟩)
          hcalled

end Diagnostic

end Shipment
