import Shipment.Proofs.FirstOffence

/-!
# Locations in errors

An error about a value that is no document says where the mapping or the number at fault stands.
Its text is the text of the pointer that leads there, except for the top of the value, which is
written as a slash like what stands under the empty key.  So two texts are the same exactly if the
locations are, or are these two, and a text is read as its location unless that is the top.
-/

namespace Shipment

namespace NormalError

/-- The segments that the text of a location shows: at the top, those of the empty key. -/
def shown (segments : List String) : List String :=
  if segments = [] then [""] else segments

theorem locationText_eq_text (location : Pointer) :
    locationText location = Pointer.text ⟨shown location.segments⟩ := by
  obtain ⟨segments⟩ := location
  cases segments <;> rfl

/-- Only the top is shown as something else, and only what stands under the empty key is shown
like it. -/
theorem shown_eq_shown_iff {segments others : List String} :
    shown segments = shown others ↔
      segments = others ∨ segments = [] ∧ others = [""] ∨ segments = [""] ∧ others = [] := by
  cases segments <;> cases others <;> simp [shown, eq_comm]

theorem locationText_eq_iff {location other : Pointer} :
    locationText location = locationText other ↔
      shown location.segments = shown other.segments := by
  rw [locationText_eq_text, locationText_eq_text]
  exact Pointer.segments_eq_iff.symm

theorem parse_locationText (location : Pointer) :
    Pointer.parse (locationText location) = .ok ⟨shown location.segments⟩ := by
  rw [locationText_eq_text, Pointer.parse_text]

end NormalError

namespace Yaml.Node

open NormalError (locationText shown)

/-- The segments lead to the mapping or the number that the value is refused for: there stands
the first offence on the walk through the value. -/
def FaultsAt (value : Node) (segments : List String) : Prop :=
  ∃ before visit after, value.visits = before ++ visit :: after ∧
    (∀ earlier ∈ before, ¬earlier.met.Offends) ∧ visit.met.Offends ∧
    segments? visit.place = some segments

@[simp]
theorem location_error (met : Met) (location : Pointer) :
    (met.error location).location = location := by
  cases met <;> rfl

variable {value other : Node} {segments : List String} {e e' : NormalError}

theorem faultsAt_iff_firstBlamed :
    value.FaultsAt segments ↔ ∃ e, FirstBlamed .root value.visits e ∧ e.location = ⟨segments⟩ := by
  constructor
  · rintro ⟨before, visit, after, hvisits, hbefore, hvisit, hplace⟩
    exact ⟨_, ⟨before, visit, after, hvisits, hbefore, hvisit, segments, hplace, rfl⟩,
      location_error _ _⟩
  · rintro ⟨_, ⟨before, visit, after, hvisits, hbefore, hvisit, own, hplace, rfl⟩, hlocation⟩
    rw [location_error] at hlocation
    cases hlocation
    exact ⟨before, visit, after, hvisits, hbefore, hvisit, hplace⟩

/-- The location of the error is the place at fault. -/
theorem faultsAt_iff (hfails : value.normalize = .error e) :
    value.FaultsAt segments ↔ segments = e.location.segments := by
  rw [normalize_eq_normalizeAt, (decides_normalizeAt value .root).eq_error_iff] at hfails
  rw [faultsAt_iff_firstBlamed]
  constructor
  · rintro ⟨e', hblamed, hlocation⟩
    rw [hfails.unique hblamed, hlocation]
  · rintro rfl
    exact ⟨e, hfails, rfl⟩

/-- A value that is no document has one place at fault.  Two such values are refused with the same
text for the location exactly if the places are the same, or are the top and what stands under the
empty key, and the text is read as the place unless that is the top. -/
theorem fault_locations_told_apart (hvalue : value.normalize = .error e)
    (hother : other.normalize = .error e') :
    (∃! segments, value.FaultsAt segments) ∧
      ∀ segments others, value.FaultsAt segments → other.FaultsAt others →
        (locationText e.location = locationText e'.location ↔
          segments = others ∨ segments = [] ∧ others = [""] ∨ segments = [""] ∧ others = []) ∧
        Pointer.parse (locationText e.location) =
          .ok ⟨if segments = [] then [""] else segments⟩ := by
  simp only [faultsAt_iff hvalue, faultsAt_iff hother, existsUnique_eq, true_and]
  rintro _ _ rfl rfl
  exact ⟨NormalError.locationText_eq_iff.trans NormalError.shown_eq_shown_iff,
    NormalError.parse_locationText e.location⟩

/-- The same offence under a key with a slash in it and under two keys. -/
def slashKey : Node :=
  mapping [(string "a/b", number (.float ⟨0x7FF8000000000000⟩))]

def nestedKeys : Node :=
  mapping [(string "a", mapping [(string "b", number (.float ⟨0x7FF8000000000000⟩))])]

theorem slashKey_told_from_nestedKeys :
    slashKey.normalize = .error (.nonFiniteNumber ⟨["a/b"]⟩) ∧
      nestedKeys.normalize = .error (.nonFiniteNumber ⟨["a", "b"]⟩) ∧
      locationText ⟨["a/b"]⟩ ≠ locationText ⟨["a", "b"]⟩ ∧
      Pointer.parse (locationText ⟨["a/b"]⟩) = .ok ⟨["a/b"]⟩ := by
  have hslash : slashKey.normalize = .error (.nonFiniteNumber ⟨["a/b"]⟩) := by rfl
  have hnested : nestedKeys.normalize = .error (.nonFiniteNumber ⟨["a", "b"]⟩) := by rfl
  obtain ⟨-, htold⟩ := fault_locations_told_apart hslash hnested
  obtain ⟨hsame, hread⟩ := htold ["a/b"] ["a", "b"] ((faultsAt_iff hslash).mpr rfl)
    ((faultsAt_iff hnested).mpr rfl)
  exact ⟨hslash, hnested, hsame.not.mpr (by decide), hread⟩

/-- A mapping with an integer for a key, at the top and under the empty key. -/
def integerKey : Node :=
  mapping [(number (.integer 1), string "x")]

def integerKeyBelow : Node :=
  mapping [(string "", integerKey)]

/-- Both mappings are said to stand at `/`, which is read as the place under the empty key. -/
theorem integerKey_located_alike :
    integerKey.normalize = .error (.nonStringKey ⟨[]⟩ "1") ∧
      integerKeyBelow.normalize = .error (.nonStringKey ⟨[""]⟩ "1") ∧
      integerKey.FaultsAt [] ∧ integerKeyBelow.FaultsAt [""] ∧
      locationText ⟨[]⟩ = locationText ⟨[""]⟩ ∧
      Pointer.parse (locationText ⟨[]⟩) ≠ .ok ⟨[]⟩ := by
  have htop : integerKey.normalize = .error (.nonStringKey ⟨[]⟩ "1") := by rfl
  have hbelow : integerKeyBelow.normalize = .error (.nonStringKey ⟨[""]⟩ "1") := by rfl
  exact ⟨htop, hbelow, (faultsAt_iff htop).mpr rfl, (faultsAt_iff hbelow).mpr rfl, by rfl,
    by decide +kernel⟩

end Yaml.Node

end Shipment
