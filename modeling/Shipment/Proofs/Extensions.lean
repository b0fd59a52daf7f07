import Shipment.Options

/-!
# Extensions and the ends of names

A name is cut at its last point, and what stands behind it is compared with the extensions.  So a
file is a candidate exactly if its name ends with a point and an extension that has no point
itself.  A name may end with an extension that has a point and be no candidate: it is one only if
what stands behind the last point of the extension is an extension as well.
-/

namespace Shipment.Options

/-- A text with its letters from `A` to `Z` in lower case. -/
def lower (text : List Char) : List Char :=
  text.map Char.toLower

/-- The name ends with a point and the extension, whatever the case of the letters. -/
def EndsWith (name extension : String) : Prop :=
  lower ('.' :: extension.toList) <:+ lower name.toList

instance (name extension : String) : Decidable (EndsWith name extension) :=
  inferInstanceAs (Decidable (_ <:+ _))

/-! ## Points and the case of letters -/

theorem toLower_eq_point_iff {c : Char} : c.toLower = '.' ↔ c = '.' := by
  unfold Char.toLower
  split
  · next hupper =>
      -- a capital letter and its small letter come behind the point
      simp only [ge_iff_le, UInt32.le_iff_toNat_le, Char.reduceVal, UInt32.reduceToNat] at hupper
      simp only [← Char.val_inj, ← UInt32.toNat_inj, UInt32.toNat_add, Char.reduceVal,
        UInt32.reduceSub, UInt32.reduceToNat]
      omega
  · exact Iff.rfl

@[simp]
theorem point_mem_lower {text : List Char} : '.' ∈ lower text ↔ '.' ∈ text := by
  simp [lower, toLower_eq_point_iff]

theorem sameLetters_iff {text other : List Char} :
    sameLetters text other = true ↔ lower text = lower other := by
  simp [sameLetters, lower]

/-! ## What stands behind the last point -/

theorem extension?_eq_none_iff {name : List Char} : extension? name = none ↔ '.' ∉ name := by
  induction name with
  | nil => simp [extension?]
  | cons c rest ih =>
      rw [extension?, List.mem_cons, not_or, ← ih]
      cases extension? rest with
      | none => simp [eq_comm]
      | some e => simp

/-- A name and an end of it with a point in it have the same text behind the last point. -/
theorem extension?_of_suffix {name text : List Char} (hsuffix : text <:+ name)
    (hpoint : '.' ∈ text) : extension? name = extension? text := by
  obtain ⟨e, htext⟩ : ∃ e, extension? text = some e :=
    Option.ne_none_iff_exists'.mp fun hnone => extension?_eq_none_iff.mp hnone hpoint
  obtain ⟨front, rfl⟩ := hsuffix
  induction front with
  | nil => rfl
  | cons c front ih => rw [List.cons_append, extension?, ih, htext]

theorem extension?_point_cons {text : List Char} (hpoint : '.' ∉ text) :
    extension? ('.' :: text) = some text := by
  rw [extension?, extension?_eq_none_iff.mpr hpoint]
  rfl

theorem extension?_eq_some_iff {name text : List Char} :
    extension? name = some text ↔ '.' ∉ text ∧ '.' :: text <:+ name := by
  constructor
  · intro hname
    induction name with
    | nil => cases hname
    | cons c rest ih =>
        rw [extension?] at hname
        cases hrest : extension? rest with
        | none =>
            rw [hrest] at hname
            obtain ⟨rfl, rfl⟩ : c = '.' ∧ rest = text := by simpa using hname
            exact ⟨extension?_eq_none_iff.mp hrest, List.suffix_rfl⟩
        | some e =>
            rw [hrest] at hname
            cases hname
            obtain ⟨hpoint, hsuffix⟩ := ih hrest
            exact ⟨hpoint, hsuffix.trans (List.suffix_cons c rest)⟩
  · rintro ⟨hpoint, hsuffix⟩
    rw [extension?_of_suffix hsuffix List.mem_cons_self, extension?_point_cons hpoint]

theorem extension?_lower (name : List Char) :
    extension? (lower name) = (extension? name).map lower := by
  cases hname : extension? name with
  | none =>
      rw [extension?_eq_none_iff] at hname
      rw [extension?_eq_none_iff.mpr (by simpa using hname), Option.map_none]
  | some e =>
      obtain ⟨hpoint, hsuffix⟩ := extension?_eq_some_iff.mp hname
      rw [Option.map_some, extension?_eq_some_iff]
      exact ⟨by simpa using hpoint, hsuffix.map Char.toLower⟩

/-! ## Candidates -/

variable {o : Options} {name extension : String}

theorem isCandidate_iff_extension? :
    o.isCandidate name = true ↔
      ∃ e ∈ o.extensions, extension? (lower name.toList) = some (lower e.toList) := by
  rw [isCandidate, extension?_lower]
  cases extension? name.toList with
  | none => simp
  | some e =>
      simp only [List.any_eq_true, sameLetters_iff, Option.map_some, Option.some.injEq]
      simp only [eq_comm]

/-- The name ends with one of the extensions that have no point. -/
theorem isCandidate_iff_endsWith :
    o.isCandidate name = true ↔ ∃ e ∈ o.extensions, '.' ∉ e.toList ∧ EndsWith name e := by
  simp only [isCandidate_iff_extension?, extension?_eq_some_iff, point_mem_lower]
  rfl

/-- A name that ends with an extension in which there is a point has the same text as the
extension behind its last point. -/
theorem EndsWith.isCandidate_eq (hends : EndsWith name extension)
    (hpoint : '.' ∈ extension.toList) : o.isCandidate name = o.isCandidate extension := by
  have hcut : extension? (lower name.toList) = extension? (lower ('.' :: extension.toList)) :=
    extension?_of_suffix hends (point_mem_lower.mpr List.mem_cons_self)
  have hrest : extension? (lower ('.' :: extension.toList)) = extension? (lower extension.toList) :=
    extension?_of_suffix (List.suffix_cons _ _) (point_mem_lower.mpr hpoint)
  rw [Bool.eq_iff_iff, isCandidate_iff_extension?, isCandidate_iff_extension?, hcut, hrest]

/-- Every extension is an end of some name. -/
theorem endsWith_point_append (extension : String) : EndsWith ("." ++ extension) extension := by
  rw [EndsWith, String.toList_append]
  exact List.suffix_rfl

/-- To be a candidate is to end with some extension exactly for the names for which each extension
with a point that they end with would be a candidate itself. -/
theorem isCandidate_iff_endsWith_iff (name : String) :
    (o.isCandidate name = true ↔ ∃ e ∈ o.extensions, EndsWith name e) ↔
      ∀ e ∈ o.extensions, '.' ∈ e.toList → EndsWith name e → o.isCandidate e = true := by
  constructor
  · intro hiff e he hpoint hends
    rw [← hends.isCandidate_eq hpoint]
    exact hiff.mpr ⟨e, he, hends⟩
  · intro hpoints
    constructor
    · intro hcandidate
      obtain ⟨e, he, -, hends⟩ := isCandidate_iff_endsWith.mp hcandidate
      exact ⟨e, he, hends⟩
    · rintro ⟨e, he, hends⟩
      by_cases hpoint : '.' ∈ e.toList
      · rw [hends.isCandidate_eq hpoint]
        exact hpoints e he hpoint hends
      · exact isCandidate_iff_endsWith.mpr ⟨e, he, hpoint, hends⟩

/-- The candidates are the names that end with an extension without a point.  To be a candidate is
to end with some extension, with a point or without, for the names for which each extension with a
point that they end with would be a candidate itself; so it is for all names exactly if each
extension with a point would be one. -/
theorem candidates_end_with_extension_iff (o : Options) :
    (∀ name, o.isCandidate name = true ↔
        ∃ e ∈ o.extensions, '.' ∉ e.toList ∧ EndsWith name e) ∧
      (∀ name, (o.isCandidate name = true ↔ ∃ e ∈ o.extensions, EndsWith name e) ↔
        ∀ e ∈ o.extensions, '.' ∈ e.toList → EndsWith name e → o.isCandidate e = true) ∧
      ((∀ name, o.isCandidate name = true ↔ ∃ e ∈ o.extensions, EndsWith name e) ↔
        ∀ e ∈ o.extensions, '.' ∈ e.toList → o.isCandidate e = true) := by
  refine ⟨fun name => isCandidate_iff_endsWith, isCandidate_iff_endsWith_iff, ?_⟩
  simp only [isCandidate_iff_endsWith_iff]
  constructor
  · intro hpoints e he hpoint
    exact hpoints _ e he hpoint (endsWith_point_append e)
  · intro hpoints name e he hpoint _
    exact hpoints e he hpoint

/-- The only extension has a point in it. -/
def archives : Options :=
  { standard with extensions := ["tar.gz"] }

/-- The name ends with the extension, but `gz`, which stands behind its last point, is none. -/
theorem archives_miss_archive :
    EndsWith "Nightly.TAR.gz" "tar.gz" ∧ archives.isCandidate "Nightly.TAR.gz" = false ∧
      ¬(archives.isCandidate "Nightly.TAR.gz" = true ↔
        ∃ e ∈ archives.extensions, EndsWith "Nightly.TAR.gz" e) := by
  have hends : EndsWith "Nightly.TAR.gz" "tar.gz" := by decide
  have hrefused : archives.isCandidate "tar.gz" = false := by decide
  obtain ⟨-, hname, -⟩ := candidates_end_with_extension_iff archives
  refine ⟨hends, by decide, fun hiff => ?_⟩
  have hcandidate := (hname _).mp hiff "tar.gz" List.mem_cons_self (by decide) hends
  rw [hrefused] at hcandidate
  cases hcandidate

end Shipment.Options
