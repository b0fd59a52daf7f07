import Shipment.Proofs.Normal

/-!
# The first offence in a value

A walk through a value meets it, then what is in it from the first part to the last: the items
of a sequence, and of each entry of a mapping the key before the value.  A value that is no
document is refused for the first offence on this walk, which is a key that is not a string or
a number that is not finite, and for the place where the mapping with this key or the number
stands.
-/

namespace Shipment.Yaml.Node

/-- What a walk meets: a key of a mapping, or a value. -/
inductive Met where
  | key (key : Node)
  | value (value : Node)

/-- The steps lead to what is met, or to the mapping if that is a key. -/
structure Visit where
  place : List Step
  met : Met

/-- The visit as seen from one step above. -/
def Visit.under (step : Step) (visit : Visit) : Visit :=
  ⟨step :: visit.place, visit.met⟩

mutual

/-- All that is met on the walk through a value.  What is inside a key is left out: only a key
that is an offence itself has something inside. -/
def visits : Node → List Visit
  | sequence items => ⟨[], .value (sequence items)⟩ :: itemVisits 0 items
  | mapping entries => ⟨[], .value (mapping entries)⟩ :: entryVisits entries
  | tagged tag value => ⟨[], .value (tagged tag value)⟩ :: (visits value).map (.under .tag)
  | value => [⟨[], .value value⟩]

/-- The walk through the items of a sequence, the first of which has the given index. -/
def itemVisits (index : Nat) : List Node → List Visit
  | [] => []
  | item :: rest => (visits item).map (.under (.item index)) ++ itemVisits (index + 1) rest

def entryVisits : List (Node × Node) → List Visit
  | [] => []
  | (key, value) :: rest =>
    ⟨[], .key key⟩ :: ((visits value).map (.under (.key key)) ++ entryVisits rest)

end

/-! ## What the walk meets -/

/-- The steps lead from a value to another one. -/
inductive Stands : Node → List Step → Node → Prop
  | here (value : Node) : Stands value [] value
  | item {items : List Node} {index : Nat} {item target : Node} {rest : List Step}
      (hitem : items[index]? = some item) (hrest : Stands item rest target) :
      Stands (sequence items) (.item index :: rest) target
  | value {entries : List (Node × Node)} {entry : Node × Node} {target : Node} {rest : List Step}
      (hentry : entry ∈ entries) (hrest : Stands entry.2 rest target) :
      Stands (mapping entries) (.key entry.1 :: rest) target
  | tag (tag : String) {value target : Node} {rest : List Step}
      (hrest : Stands value rest target) : Stands (tagged tag value) (.tag :: rest) target

/-- What is met stands at its place, and a key is one of the mapping that stands there. -/
def Has (value : Node) (visit : Visit) : Prop :=
  match visit.met with
  | .value target => value.Stands visit.place target
  | .key key => ∃ entries, value.Stands visit.place (mapping entries) ∧
      ∃ entry ∈ entries, entry.1 = key

variable {items : List Node} {entries : List (Node × Node)} {visit : Visit} {index : Nat}

theorem Has.under {value below : Node} {step : Step}
    (hstep : ∀ place target, below.Stands place target → value.Stands (step :: place) target)
    (hbelow : below.Has visit) : value.Has (visit.under step) := by
  obtain ⟨place, met⟩ := visit
  cases met with
  | key key =>
      obtain ⟨entries, hplace, hentry⟩ := hbelow
      exact ⟨entries, hstep place _ hplace, hentry⟩
  | value target => exact hstep place target hbelow

theorem mem_itemVisits_iff :
    visit ∈ itemVisits index items ↔
      ∃ (i : Nat) (item : Node), items[i]? = some item ∧ ∃ below ∈ item.visits,
        below.under (.item (index + i)) = visit := by
  induction items generalizing index with
  | nil => simp [itemVisits]
  | cons item rest ih =>
      rw [itemVisits, List.mem_append, List.mem_map, ih]
      constructor
      · rintro (hfirst | ⟨i, other, hother, hrest⟩)
        · exact ⟨0, item, rfl, hfirst⟩
        · exact ⟨i + 1, other, hother, by rwa [Nat.add_comm i, ← Nat.add_assoc]⟩
      · rintro ⟨_ | i, other, hother, hvisit⟩
        · cases hother
          exact Or.inl hvisit
        · exact Or.inr ⟨i, other, hother, by rwa [Nat.add_assoc, Nat.add_comm 1]⟩

theorem mem_entryVisits_iff :
    visit ∈ entryVisits entries ↔
      ∃ entry ∈ entries, visit = ⟨[], .key entry.1⟩ ∨ ∃ below ∈ entry.2.visits,
        below.under (.key entry.1) = visit := by
  induction entries with
  | nil => simp [entryVisits]
  | cons entry rest ih => simp [entryVisits, ih, or_assoc]

theorem has_of_mem_visits {value : Node} : ∀ {visit}, visit ∈ value.visits → value.Has visit := by
  induction value using partsInduction with
  | sequence items ih =>
      intro visit hvisit
      rw [visits, List.mem_cons, mem_itemVisits_iff] at hvisit
      rcases hvisit with rfl | ⟨i, item, hitem, below, hbelow, rfl⟩
      · exact .here _
      · rw [Nat.zero_add]
        exact (ih item (List.mem_of_getElem? hitem) hbelow).under fun _ _ hrest => .item hitem hrest
  | mapping entries ih =>
      intro visit hvisit
      rw [visits, List.mem_cons, mem_entryVisits_iff] at hvisit
      rcases hvisit with rfl | ⟨entry, hentry, rfl | ⟨below, hbelow, rfl⟩⟩
      · exact .here _
      · exact ⟨entries, .here _, entry, hentry, rfl⟩
      · exact (ih entry hentry hbelow).under fun _ _ hrest => .value hentry hrest
  | tagged tag value ih =>
      intro visit hvisit
      rw [visits, List.mem_cons, List.mem_map] at hvisit
      rcases hvisit with rfl | ⟨below, hbelow, rfl⟩
      · exact .here _
      · exact (ih hbelow).under fun _ _ hrest => .tag tag hrest
  | _ =>
      intro visit hvisit
      obtain rfl := List.mem_singleton.mp hvisit
      exact .here _

theorem visit_value_mem (value : Node) : ⟨[], .value value⟩ ∈ value.visits := by
  cases value <;> simp [visits]

/-- The walk through a value takes in the walk through whatever stands in it. -/
theorem mem_visits_of_stands {value target : Node} {place : List Step}
    (hplace : value.Stands place target) (hvisit : visit ∈ target.visits) :
    ⟨place ++ visit.place, visit.met⟩ ∈ value.visits := by
  induction hplace with
  | here value => exact hvisit
  | @item items i item target rest hitem hrest ih =>
      rw [visits, List.mem_cons, mem_itemVisits_iff]
      exact Or.inr ⟨i, item, hitem, _, ih hvisit, by rw [Nat.zero_add]; rfl⟩
  | value hentry hrest ih =>
      rw [visits, List.mem_cons, mem_entryVisits_iff]
      exact Or.inr ⟨_, hentry, Or.inr ⟨_, ih hvisit, rfl⟩⟩
  | tag tag hrest ih =>
      rw [visits, List.mem_cons, List.mem_map]
      exact Or.inr ⟨_, ih hvisit, rfl⟩

/-- The walk meets all that the value has, and nothing else. -/
theorem mem_visits_iff {value : Node} : visit ∈ value.visits ↔ value.Has visit := by
  refine ⟨has_of_mem_visits, fun hhas => ?_⟩
  obtain ⟨place, met⟩ := visit
  cases met with
  | value target => simpa using mem_visits_of_stands hhas (visit_value_mem target)
  | key key =>
      obtain ⟨entries, hplace, entry, hentry, rfl⟩ := hhas
      have hkey : ⟨[], .key entry.1⟩ ∈ (mapping entries).visits := by
        rw [visits, List.mem_cons, mem_entryVisits_iff]
        exact Or.inr ⟨entry, hentry, Or.inl rfl⟩
      simpa using mem_visits_of_stands hplace hkey

/-! ## Offences -/

/-- A key is an offence unless it is a string without a tag, a number if it is not finite. -/
def Met.Offends : Met → Prop
  | .key (.string _) => False
  | .key _ => True
  | .value (.number n) => n.isFinite = false
  | .value _ => False

def Met.error (location : Pointer) : Met → NormalError
  | .key node => .nonStringKey location node.describe
  | .value _ => .nonFiniteNumber location

/-- The segments that the steps add to a location, one for each key and each index.  Only keys
that are strings have one. -/
def segments? : List Step → Option (List String)
  | [] => some []
  | .key (string key) :: rest => (segments? rest).map (key :: ·)
  | .key _ :: _ => none
  | .item index :: rest => (segments? rest).map (toString index :: ·)
  | .tag :: rest => segments? rest

/-- The error is the one for an offence that is met at its place below the location. -/
def Visit.Blamed (location : Pointer) (visit : Visit) (e : NormalError) : Prop :=
  visit.met.Offends ∧ ∃ segments, segments? visit.place = some segments ∧
    e = visit.met.error (location.append ⟨segments⟩)

/-- The first offence on the walk is blamed. -/
def FirstBlamed (location : Pointer) (visits : List Visit) (e : NormalError) : Prop :=
  ∃ before visit after, visits = before ++ visit :: after ∧
    (∀ earlier ∈ before, ¬earlier.met.Offends) ∧ visit.Blamed location e

variable {location : Pointer} {front back : List Visit} {e e' : NormalError}

theorem firstBlamed_nil : ¬FirstBlamed location [] e := by
  simp [FirstBlamed]

theorem firstBlamed_cons_iff :
    FirstBlamed location (visit :: back) e ↔
      visit.Blamed location e ∨ ¬visit.met.Offends ∧ FirstBlamed location back e :=
  exists_behind_cons_iff

/-- An offence that is met at once is blamed at the location itself. -/
theorem firstBlamed_here {met : Met} (hmet : met.Offends) (location : Pointer) (back : List Visit) :
    FirstBlamed location (⟨[], met⟩ :: back) (met.error location) := by
  refine firstBlamed_cons_iff.mpr (Or.inl ⟨hmet, [], rfl, ?_⟩)
  rw [Pointer.append, List.append_nil]

/-- Nothing else is blamed than the first offence. -/
theorem FirstBlamed.unique {visits : List Visit} (hblamed : FirstBlamed location visits e)
    (hother : FirstBlamed location visits e') : e = e' := by
  induction visits with
  | nil => exact absurd hblamed firstBlamed_nil
  | cons visit rest ih =>
      rw [firstBlamed_cons_iff] at hblamed hother
      rcases hblamed with ⟨hvisit, segments, hplace, rfl⟩ | ⟨hvisit, hblamed⟩
      · rcases hother with ⟨-, others, hothers, rfl⟩ | ⟨hnone, -⟩
        · obtain rfl : segments = others := Option.some.inj (hplace.symm.trans hothers)
          rfl
        · exact absurd hvisit hnone
      · rcases hother with ⟨hsome, -⟩ | ⟨-, hother⟩
        · exact absurd hsome hvisit
        · exact ih hblamed hother

theorem FirstBlamed.append (hblamed : FirstBlamed location front e) (back : List Visit) :
    FirstBlamed location (front ++ back) e := by
  obtain ⟨before, visit, after, rfl, hbefore, hvisit⟩ := hblamed
  exact ⟨before, visit, after ++ back, by simp, hbefore, hvisit⟩

/-! ## Results that the walk decides -/

/-- The result is an error exactly if something on the walk is an offence, and then it is for
the first one. -/
def Decides {α : Type} (location : Pointer) (visits : List Visit) : Except NormalError α → Prop
  | .ok _ => ∀ visit ∈ visits, ¬visit.met.Offends
  | .error e => FirstBlamed location visits e

variable {α β : Type} {result : Except NormalError α} {visits : List Visit}

theorem Decides.map (hresult : Decides location visits result) (f : α → β) :
    Decides location visits (result.map f) := by
  cases result with
  | error e => exact hresult
  | ok a => exact hresult

theorem Decides.cons (hvisit : ¬visit.met.Offends) (hresult : Decides location visits result) :
    Decides location (visit :: visits) result := by
  cases result with
  | error e => exact firstBlamed_cons_iff.mpr (Or.inr ⟨hvisit, hresult⟩)
  | ok a => exact List.forall_mem_cons.mpr ⟨hvisit, hresult⟩

theorem Decides.append {a : α} {result : Except NormalError β}
    (hfront : Decides location front (.ok a : Except NormalError α))
    (hback : Decides location back result) : Decides location (front ++ back) result := by
  induction front with
  | nil => exact hback
  | cons visit rest ih =>
      obtain ⟨hvisit, hrest⟩ := List.forall_mem_cons.mp hfront
      exact (ih hrest).cons hvisit

/-- One step leads from a location to the other. -/
inductive Descends (location : Pointer) : Step → Pointer → Prop
  | key (key : String) : Descends location (.key (string key)) (location.push key)
  | item (index : Nat) : Descends location (.item index) (location.push (toString index))
  | tag : Descends location .tag location

theorem Descends.segments? {step : Step} {below : Pointer} (hstep : Descends location step below)
    {place : List Step} {segments : List String} (hplace : segments? place = some segments) :
    ∃ longer, Node.segments? (step :: place) = some longer ∧
      location.append ⟨longer⟩ = below.append ⟨segments⟩ := by
  cases hstep with
  | key key =>
      refine ⟨key :: segments, by rw [Node.segments?, hplace]; rfl, ?_⟩
      simp [Pointer.append, Pointer.push]
  | item index =>
      refine ⟨toString index :: segments, by rw [Node.segments?, hplace]; rfl, ?_⟩
      simp [Pointer.append, Pointer.push]
  | tag => exact ⟨segments, hplace, rfl⟩

/-- What the walk through a part decides, it decides as seen from one step above. -/
theorem Decides.under {step : Step} {below : Pointer} (hstep : Descends location step below)
    (hresult : Decides below visits result) :
    Decides location (visits.map (.under step)) result := by
  cases result with
  | error e =>
      obtain ⟨before, visit, after, rfl, hbefore, hvisit, segments, hplace, rfl⟩ := hresult
      obtain ⟨longer, hlonger, hlocation⟩ := hstep.segments? hplace
      refine ⟨before.map (.under step), visit.under step, after.map (.under step), by simp, ?_,
        hvisit, longer, hlonger, ?_⟩
      · exact List.forall_mem_map.mpr hbefore
      · rw [hlocation]
        rfl
  | ok a => exact List.forall_mem_map.mpr hresult

theorem decides_normalizeItems
    (hitems : ∀ item ∈ items, ∀ location,
      Decides location item.visits (item.normalizeAt location)) :
    Decides location (itemVisits index items) (normalizeItems location index items) := by
  induction items generalizing index with
  | nil => exact List.forall_mem_nil _
  | cons item rest ih =>
      obtain ⟨hitem, hrest⟩ := List.forall_mem_cons.mp hitems
      have hfirst := (hitem (location.push (toString index))).under (.item index)
      rw [itemVisits, normalizeItems]
      cases hvalue : normalizeAt (location.push (toString index)) item with
      | error e =>
          rw [hvalue] at hfirst
          exact FirstBlamed.append hfirst _
      | ok value =>
          rw [hvalue] at hfirst
          exact hfirst.append ((ih hrest).map _)

theorem decides_normalizeEntries {found : List (String × Json)}
    (hvalues : ∀ entry ∈ entries, ∀ location,
      Decides location entry.2.visits (entry.2.normalizeAt location)) :
    Decides location (entryVisits entries) (normalizeEntries location found entries) := by
  induction entries generalizing found with
  | nil => exact List.forall_mem_nil _
  | cons entry rest ih =>
      obtain ⟨key, item⟩ := entry
      obtain ⟨hitem, hrest⟩ := List.forall_mem_cons.mp hvalues
      cases key with
      | string key =>
          have hfirst := (hitem (location.push key)).under (.key key)
          rw [entryVisits, normalizeEntries]
          refine Decides.cons id ?_
          cases hvalue : normalizeAt (location.push key) item with
          | error e =>
              rw [hvalue] at hfirst
              exact FirstBlamed.append hfirst _
          | ok value =>
              rw [hvalue] at hfirst
              exact hfirst.append (ih hrest)
      | _ =>
          -- The key is the first offence, and the location is that of the mapping.
          rw [entryVisits, normalizeEntries]
          · refine firstBlamed_here ?_ location _
            exact trivial
          · simp

theorem decides_normalizeAt (value : Node) (location : Pointer) :
    Decides location value.visits (value.normalizeAt location) := by
  induction value using partsInduction generalizing location with
  | number n =>
      rw [normalizeAt]
      cases hvalue : normalizeNumber location n with
      | error e =>
          obtain ⟨hfinite, rfl⟩ := normalizeNumber_eq_error.mp hvalue
          refine firstBlamed_here ?_ location []
          exact hfinite
      | ok number =>
          have hfinite := (normalizeNumber_eq_ok.mp hvalue).1
          exact List.forall_mem_singleton.mpr (by simp [Met.Offends, hfinite])
  | sequence items ih =>
      rw [visits, normalizeAt]
      exact ((decides_normalizeItems ih).map _).cons id
  | mapping entries ih =>
      rw [visits, normalizeAt]
      exact ((decides_normalizeEntries ih).map _).cons id
  | tagged tag value ih =>
      rw [visits, normalizeAt]
      exact ((ih location).under .tag).cons id
  | _ => exact List.forall_mem_singleton.mpr id

theorem Decides.eq_error_iff (hresult : Decides location visits result) :
    result = .error e ↔ FirstBlamed location visits e := by
  constructor
  · rintro rfl
    exact hresult
  · intro hblamed
    cases result with
    | error e' => rw [hblamed.unique hresult]
    | ok a =>
        obtain ⟨before, visit, after, rfl, -, hvisit, -⟩ := hblamed
        exact absurd hvisit (hresult visit (by simp))

theorem Decides.exists_eq_ok_iff (hresult : Decides location visits result) :
    (∃ a, result = .ok a) ↔ ∀ visit ∈ visits, ¬visit.met.Offends := by
  constructor
  · rintro ⟨a, rfl⟩
    exact hresult
  · intro hnone
    cases result with
    | ok a => exact ⟨a, rfl⟩
    | error e =>
        obtain ⟨before, visit, after, rfl, -, hvisit, -⟩ := hresult
        exact absurd hvisit (hnone visit (by simp))

/-- The walk meets all that a value has, and the value is a document if nothing it has is an
offence.  Else the error is for the first offence on the walk, at the location with a segment
for each key and each index on the way there. -/
theorem normalize_blames_first_offence (value : Node) :
    (∀ visit, visit ∈ value.visits ↔ value.Has visit) ∧
      ((∃ document, value.normalize = .ok document) ↔
        ∀ visit, value.Has visit → ¬visit.met.Offends) ∧
      ∀ e, value.normalize = .error e ↔
        ∃ before visit after segments, value.visits = before ++ visit :: after ∧
          (∀ earlier ∈ before, ¬earlier.met.Offends) ∧ visit.met.Offends ∧
          segments? visit.place = some segments ∧ e = visit.met.error ⟨segments⟩ ∧
          NormalError.locationText e.location =
            if segments = [] then "/" else Pointer.text ⟨segments⟩ := by
  have hdecides := decides_normalizeAt value .root
  rw [← normalize_eq_normalizeAt] at hdecides
  refine ⟨fun visit => mem_visits_iff, ?_, fun e => ?_⟩
  · simp only [← mem_visits_iff]
    exact hdecides.exists_eq_ok_iff
  · have htext (met : Met) (segments : List String) :
        NormalError.locationText (met.error ⟨segments⟩).location =
          if segments = [] then "/" else Pointer.text ⟨segments⟩ := by
      cases met <;> simp [Met.error, NormalError.location, NormalError.locationText, Pointer.isRoot]
    rw [hdecides.eq_error_iff]
    constructor
    · rintro ⟨before, visit, after, hvisits, hbefore, hvisit, segments, hplace, rfl⟩
      exact ⟨before, visit, after, segments, hvisits, hbefore, hvisit, hplace, rfl, htext _ _⟩
    · rintro ⟨before, visit, after, segments, hvisits, hbefore, hvisit, hplace, rfl, -⟩
      exact ⟨before, visit, after, hvisits, hbefore, hvisit, segments, hplace, rfl⟩

/-- The key stands before a number that is not finite and behind a part that is no offence. -/
example :
    normalize (mapping [(string "a", sequence [null, tagged "t" (sequence [mapping
      [(string "b/c", mapping []), (bool true, number (.float ⟨0x7FF8000000000000⟩))]])])]) =
      .error (.nonStringKey ⟨["a", "1", "0"]⟩ "true") := by
  rfl

end Shipment.Yaml.Node
