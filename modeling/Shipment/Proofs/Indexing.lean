import Shipment.Json.Lookup
import Shipment.Proofs.Tracing

/-!
# Indexes in failures and in the request body

An index is read in two places: in the pointer of a failure, which leads to an
entry of the manifest, and in a location, which leads to a document in the request
body.  A failure may spell its index with zeros in front, and a location may not.
Apart from that, and as long as no sign stands in front, both read the same index.
-/

namespace Shipment

/-- A segment that goes on after a zero at its start. -/
def HasLeadingZero (segment : String) : Prop :=
  ∃ c rest, segment.toList = '0' :: c :: rest

theorem Json.index?_of_hasLeadingZero {segment : String} (hzero : HasLeadingZero segment) :
    index? segment = none := by
  obtain ⟨c, rest, hsegment⟩ := hzero
  rw [index?, hsegment]
  rfl

/-- Without a sign and without a leading zero, an index is read alike in both places. -/
theorem Json.index?_eq_index? {segment : String} (hsign : segment.toList.head? ≠ some '+')
    (hzero : ¬HasLeadingZero segment) : index? segment = Diagnostic.index? segment := by
  have hunsigned : Digits.readUnsigned? 10 segment.toList = Digits.read? 10 segment.toList := by
    unfold Digits.readUnsigned?
    split
    · next text htext => simp [htext] at hsign
    · rfl
  unfold index?
  split
  · next c rest hsegment => exact absurd ⟨c, rest, hsegment⟩ hzero
  · rw [hunsigned, Diagnostic.index?]
    cases Digits.read? 10 segment.toList with
    | none => rfl
    | some n => simp [Option.filter]

namespace Manifest

/-- The location in the request body is that of the document at the index, whatever
the documents of the manifest are. -/
def Finds (m : Manifest) (location : Pointer) (index : Nat) : Prop :=
  index < m.size ∧
    ∀ other : Manifest, other.size = m.size → other.body.get? location = other.specs[index]?

/-- A failure with this pointer is about the entry at the index, whatever the entries
of the manifest are. -/
def Selects (m : Manifest) (pointer : String) (index : Nat) : Prop :=
  index < m.size ∧
    ∀ other : Manifest, other.size = m.size → ∀ reason,
      ∃ entry location, other.get? index = some entry ∧
        Diagnostic.ofFailure other ⟨pointer, reason⟩ =
          .ok (Diagnostic.ofEntry entry location reason)

/-- A list of this length, which no other length has. -/
def label (i : Nat) : Json :=
  .array (List.replicate i .null)

theorem label_injective {i j : Nat} (heq : label i = label j) : i = j := by
  simpa using congrArg List.length (Json.array.inj heq)

/-- The entries of this manifest are told apart by their origins and by their documents. -/
def labelled (size : Nat) : Manifest :=
  ⟨(List.range size).map fun i => ⟨⟨"", i⟩, label i⟩⟩

variable {m : Manifest} {segment : String} {index : Nat}

@[simp]
theorem size_labelled (size : Nat) : (labelled size).size = size := by
  simp [labelled, Manifest.size]

theorem get?_labelled {size : Nat} {entry : Entry} :
    (labelled size).get? index = some entry ↔
      index < size ∧ entry = ⟨⟨"", index⟩, label index⟩ := by
  by_cases hindex : index < size
  · simp [labelled, Manifest.get?, hindex, eq_comm]
  · simp [labelled, Manifest.get?, hindex]

theorem resource_labelled (i : Nat) (location : Pointer) (reason : String) :
    (Diagnostic.ofEntry ⟨⟨"", i⟩, label i⟩ location reason).resource =
      .document i := by
  unfold Diagnostic.ofEntry
  split <;> rfl

theorem get?_body (m : Manifest) (segment : String) :
    m.body.get? ⟨[fieldName, segment]⟩ = (Json.index? segment).bind (m.specs[·]?) := by
  simp [body, Json.get?, Json.lookup, Json.child?, Fields.get?]

theorem finds_iff : m.Finds ⟨[fieldName, segment]⟩ index ↔
    Json.index? segment = some index ∧ index < m.size := by
  simp only [Finds, get?_body]
  constructor
  · rintro ⟨hindex, hfinds⟩
    have hown := hfinds (labelled m.size) (size_labelled _)
    have hspec : (labelled m.size).specs[index]? = some (label index) :=
      (get?_eq_some_iff.mp (get?_labelled.mpr ⟨hindex, rfl⟩)).2
    rw [hspec] at hown
    obtain ⟨found, hfound, hsame⟩ := Option.bind_eq_some_iff.mp hown
    have hlabel : label found = label index := by
      simpa [specs, labelled] using (List.getElem?_eq_some_iff.mp hsame).2
    obtain rfl := label_injective hlabel
    exact ⟨hfound, hindex⟩
  · rintro ⟨hsegment, hindex⟩
    exact ⟨hindex, fun other _ => by rw [hsegment, Option.bind_some]⟩

theorem selects_iff : m.Selects (Pointer.text ⟨[fieldName, segment]⟩) index ↔
    Diagnostic.index? segment = some index ∧ index < m.size := by
  constructor
  · rintro ⟨hindex, hselects⟩
    obtain ⟨entry, location, hentry, hown⟩ :=
      hselects (labelled m.size) (size_labelled _) ""
    obtain ⟨-, rfl⟩ := get?_labelled.mp hentry
    cases hsegment : Diagnostic.index? segment with
    | none =>
        rw [Diagnostic.ofFailure_of_index?_eq_none hsegment] at hown
        cases hown
    | some found =>
        cases hfound : (labelled m.size).get? found with
        | none =>
            rw [Diagnostic.ofFailure_of_get?_eq_none hsegment hfound] at hown
            cases hown
        | some other =>
            rw [Diagnostic.ofFailure_of_get?_eq_some hsegment hfound] at hown
            obtain ⟨-, rfl⟩ := get?_labelled.mp hfound
            have hresource := congrArg Diagnostic.resource (Except.ok.inj hown)
            rw [resource_labelled, resource_labelled] at hresource
            obtain rfl : found = index := by simpa using hresource
            exact ⟨rfl, hindex⟩
  · rintro ⟨hsegment, hindex⟩
    refine ⟨hindex, fun other hsize reason => ?_⟩
    rw [← hsize] at hindex
    have hentry : other.get? index = some other.entries[index] := List.getElem?_eq_getElem hindex
    exact ⟨_, _, hentry, Diagnostic.ofFailure_of_get?_eq_some hsegment hentry⟩

/-- A location and a failure that name the payload field and then the same segment,
which has no sign in front, are about the same document, except that a location does
not take an index with a leading zero. -/
theorem finds_iff_selects (m : Manifest) {segment : String}
    (hsign : segment.toList.head? ≠ some '+') (index : Nat) :
    m.Finds ⟨["specs", segment]⟩ index ↔
      m.Selects ("/specs/" ++ String.ofList (Pointer.escape segment.toList)) index ∧
        ¬HasLeadingZero segment := by
  have htext : "/specs/" ++ String.ofList (Pointer.escape segment.toList) =
      Pointer.text ⟨[fieldName, segment]⟩ := by
    apply String.toList_inj.mp
    simp [Pointer.toList_text, fieldName, Pointer.escapedChar]
  rw [htext, selects_iff]
  refine finds_iff.trans ?_
  by_cases hzero : HasLeadingZero segment
  · simp [Json.index?_of_hasLeadingZero hzero, hzero]
  · simp [Json.index?_eq_index? hsign hzero, hzero]

/-- A manifest of two documents. -/
def twoEntries : Manifest :=
  ⟨[⟨⟨"a.yaml", 1⟩, .object []⟩, ⟨⟨"a.yaml", 2⟩, .object []⟩]⟩

theorem twoEntries_one_found :
    "1".toList.head? ≠ some '+' ∧ twoEntries.Finds ⟨["specs", "1"]⟩ 1 := by
  have hsign : "1".toList.head? ≠ some '+' := by decide
  have hselects : twoEntries.Selects (Pointer.text ⟨[fieldName, "1"]⟩) 1 :=
    selects_iff.mpr ⟨by decide, by decide⟩
  have hzero : ¬HasLeadingZero "1" := by
    rintro ⟨c, rest, hsegment⟩
    cases hsegment
  exact ⟨hsign, (finds_iff_selects twoEntries hsign 1).mpr ⟨hselects, hzero⟩⟩

/-- With a zero in front, a failure is traced to the second document, and the same
segment leads nowhere in the request body. -/
theorem twoEntries_leading_zero :
    twoEntries.Selects "/specs/01" 1 ∧ ¬twoEntries.Finds ⟨["specs", "01"]⟩ 1 := by
  have hselects : twoEntries.Selects (Pointer.text ⟨[fieldName, "01"]⟩) 1 :=
    selects_iff.mpr ⟨by decide, by decide⟩
  refine ⟨hselects, fun hfinds => ?_⟩
  have hindex : Json.index? "01" = some 1 := (finds_iff.mp hfinds).1
  rw [Json.index?_of_hasLeadingZero ⟨'1', [], rfl⟩] at hindex
  cases hindex

end Manifest

end Shipment
