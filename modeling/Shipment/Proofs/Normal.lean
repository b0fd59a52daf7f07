import Shipment.Normal
import Shipment.Proofs.Basic
import Shipment.Proofs.Fields
import Shipment.Proofs.Number.Integer64
import Shipment.Proofs.Pointer
import Shipment.Proofs.Yaml.Node

/-!
# What a document keeps of a value

A value has a document exactly if every mapping in it has strings for keys and
every number in it is finite.  The document is then the value without its tags:
nothing is lost, nothing is added, and a number is the number that it was.  The
pointer that goes along comes back as it was after every part of the value, so
each part may as well be given its location.
-/

namespace Shipment.Yaml.Node

/-! ## Numbers -/

/-- The number of a document is the integer that it was, or the float that it was. -/
inductive SameNumber : Number → Shipment.Number → Prop
  | integer {m n : Integer64} (hsame : n.toInt = m.toInt) : SameNumber (.integer m) (.integer n)
  | float (x : Binary64) : SameNumber (.float x) (.float x)

variable {location : Pointer}

/-- Whichever word an integer is handed over in, it is that integer again. -/
theorem exists_normalizeNumber_integer (location : Pointer) (m : Integer64) :
    ∃ n : Integer64, normalizeNumber location (.integer m) = .ok (.integer n) ∧
      n.toInt = m.toInt := by
  unfold normalizeNumber
  cases hsigned : m.asInt64? with
  | some word =>
      refine ⟨.ofInt64 word, by simp [Number.asInt64?, hsigned, Shipment.Number.ofInt64], ?_⟩
      rw [Integer64.toInt_ofInt64, Integer64.toInt_of_asInt64? hsigned]
  | none =>
      obtain ⟨word, hunsigned⟩ := Integer64.exists_asUInt64? hsigned
      refine ⟨.unsigned word, ?_, Integer64.toInt_of_asUInt64? hunsigned⟩
      simp [Number.asInt64?, hsigned, Number.asUInt64?, hunsigned, Shipment.Number.ofUInt64]

theorem normalizeNumber_float (location : Pointer) (x : Binary64) :
    normalizeNumber location (.float x) =
      if x.isFinite then .ok (.float x) else .error (.nonFiniteNumber location) := by
  cases hfinite : x.isFinite <;>
    simp [normalizeNumber, Number.asInt64?, Number.asUInt64?, Number.asBinary64?,
      Shipment.Number.ofBinary64?, hfinite]

theorem normalizeNumber_eq_ok {m : Number} {n : Shipment.Number} :
    normalizeNumber location m = .ok n ↔ m.isFinite = true ∧ SameNumber m n := by
  cases m with
  | integer m =>
      obtain ⟨own, hown, hsame⟩ := exists_normalizeNumber_integer location m
      rw [hown]
      constructor
      · rintro ⟨⟩
        exact ⟨rfl, .integer hsame⟩
      · rintro ⟨-, hnumber⟩
        cases hnumber with
        | integer hother => rw [Integer64.toInt_injective (hsame.trans hother.symm)]
  | float x =>
      rw [normalizeNumber_float]
      constructor
      · intro hvalue
        split at hvalue
        · next hfinite =>
            cases hvalue
            exact ⟨hfinite, .float x⟩
        · cases hvalue
      · rintro ⟨hfinite, hnumber⟩
        cases hnumber
        exact if_pos hfinite

theorem normalizeNumber_eq_error {m : Number} {e : NormalError} :
    normalizeNumber location m = .error e ↔
      m.isFinite = false ∧ e = .nonFiniteNumber location := by
  cases m with
  | integer m =>
      obtain ⟨own, hown, -⟩ := exists_normalizeNumber_integer location m
      simp [hown, Number.isFinite]
  | float x =>
      rw [normalizeNumber_float]
      cases hfinite : x.isFinite <;> simp [Number.isFinite, hfinite, eq_comm]

/-! ## Locations instead of the pointer -/

mutual

/-- The document that a value at a location stands for. -/
def normalizeAt (location : Pointer) : Node → Except NormalError Json
  | null => .ok .null
  | bool b => .ok (.bool b)
  | number n => (normalizeNumber location n).map .number
  | string s => .ok (.string s)
  | sequence items => (normalizeItems location 0 items).map .array
  | mapping entries => (normalizeEntries location [] entries).map .object
  | tagged _ value => normalizeAt location value

/-- The items of a sequence, the first of which has the given index. -/
def normalizeItems (location : Pointer) (index : Nat) : List Node → Except NormalError (List Json)
  | [] => .ok []
  | item :: rest =>
    match normalizeAt (location.push (toString index)) item with
    | .error e => .error e
    | .ok value => (normalizeItems location (index + 1) rest).map (value :: ·)

/-- The fields of an object, added to those found so far. -/
def normalizeEntries (location : Pointer) (found : List (String × Json)) :
    List (Node × Node) → Except NormalError (List (String × Json))
  | [] => .ok found
  | (string key, item) :: rest =>
    match normalizeAt (location.push key) item with
    | .error e => .error e
    | .ok value => normalizeEntries location (Fields.insert key value found) rest
  | (key, _) :: _ => .error (.nonStringKey location key.describe)

end

mutual

/-- The pointer comes back as it was, and an error has the location of the part at fault. -/
theorem normalizeWith_eq (value : Node) (pointer : Pointer) :
    value.normalizeWith pointer = (value.normalizeAt pointer).map (·, pointer) := by
  cases value with
  | null => rfl
  | bool b => rfl
  | number n =>
      rw [normalizeWith, normalizeAt]
      cases normalizeNumber pointer n <;> rfl
  | string s => rfl
  | sequence items =>
      rw [normalizeWith, normalizeAt, normalizeItemsWith_eq items]
      cases normalizeItems pointer 0 items <;> rfl
  | mapping entries =>
      rw [normalizeWith, normalizeAt, normalizeEntriesWith_eq entries]
      cases normalizeEntries pointer [] entries <;> rfl
  | tagged tag value => rw [normalizeWith, normalizeAt, normalizeWith_eq value]

theorem normalizeItemsWith_eq (items : List Node) (pointer : Pointer) (index : Nat) :
    normalizeItemsWith pointer index items =
      (normalizeItems pointer index items).map (·, pointer) := by
  cases items with
  | nil => rfl
  | cons item rest =>
      rw [normalizeItemsWith, normalizeItems, normalizeWith_eq item]
      cases normalizeAt (pointer.push (toString index)) item with
      | error e => rfl
      | ok value =>
          simp only [Except.map, Pointer.pop_push, normalizeItemsWith_eq rest]
          cases normalizeItems pointer (index + 1) rest <;> rfl

theorem normalizeEntriesWith_eq (entries : List (Node × Node)) (pointer : Pointer)
    (found : List (String × Json)) :
    normalizeEntriesWith pointer found entries =
      (normalizeEntries pointer found entries).map (·, pointer) := by
  cases entries with
  | nil => rfl
  | cons entry rest =>
      obtain ⟨key, item⟩ := entry
      cases key with
      | string key =>
          rw [normalizeEntriesWith, normalizeEntries, normalizeWith_eq item]
          cases normalizeAt (pointer.push key) item with
          | error e => rfl
          | ok value =>
              simp only [Except.map, Pointer.pop_push, normalizeEntriesWith_eq rest]
      | _ => rw [normalizeEntriesWith, normalizeEntries] <;> simp [Except.map]

end

theorem normalize_eq_normalizeAt (value : Node) : value.normalize = value.normalizeAt .root := by
  rw [normalize, normalizeWith_eq]
  cases value.normalizeAt .root <;> rfl

/-! ## Documents without the tags -/

/-- A value is found in another by way of items, of values of mappings and of
tagged values, but not of keys. -/
inductive Reaches : Node → Node → Prop
  | self (value : Node) : Reaches value value
  | item {items : List Node} {item below : Node} (hitem : item ∈ items)
      (hbelow : Reaches item below) : Reaches (sequence items) below
  | value {entries : List (Node × Node)} {entry : Node × Node} {below : Node}
      (hentry : entry ∈ entries) (hbelow : Reaches entry.2 below) :
      Reaches (mapping entries) below
  | tagged (tag : String) {value below : Node} (hbelow : Reaches value below) :
      Reaches (tagged tag value) below

/-- Nothing in a value keeps it from being a document: keys are strings without
tags, and numbers are finite. -/
structure Interchangeable (value : Node) : Prop where
  keys : ∀ entries, value.Reaches (mapping entries) →
    ∀ entry ∈ entries, ∃ key, entry.1 = string key
  numbers : ∀ n, value.Reaches (number n) → n.isFinite = true

/-- The document is the value without its tags.  An object has the keys of the
mapping, each bound to what the value of that key becomes. -/
inductive Becomes : Node → Json → Prop
  | null : Becomes null .null
  | bool (b : Bool) : Becomes (bool b) (.bool b)
  | number {m : Number} {n : Shipment.Number} (hsame : SameNumber m n) :
      Becomes (number m) (.number n)
  | string (s : String) : Becomes (string s) (.string s)
  | sequence {items : List Node} {values : List Json}
      (hitems : List.Forall₂ Becomes items values) : Becomes (sequence items) (.array values)
  | mapping {entries : List (Node × Node)} {fields : List (String × Json)}
      (hordered : Fields.Ordered fields)
      (hstrings : ∀ entry ∈ entries, ∃ key, entry.1 = .string key)
      (hkeys : ∀ key, (∃ value, (.string key, value) ∈ entries) ↔
        ∃ field, Fields.get? key fields = some field)
      (hvalues : ∀ key value field, (.string key, value) ∈ entries →
        Fields.get? key fields = some field → Becomes value field) :
      Becomes (mapping entries) (.object fields)
  | tagged (tag : String) {value : Node} {document : Json} (hvalue : Becomes value document) :
      Becomes (tagged tag value) document

/-- The document of a value that has one. -/
def HasDocument (value : Node) (document : Json) : Prop :=
  Interchangeable value ∧ Becomes value document

/-! ## What keeps a value from being a document -/

theorem interchangeable_number {n : Number} :
    Interchangeable (number n) ↔ n.isFinite = true := by
  constructor
  · exact fun h => h.numbers n (.self _)
  · intro hfinite
    constructor
    · intro entries hreaches
      cases hreaches
    · intro m hreaches
      cases hreaches
      exact hfinite

theorem interchangeable_sequence {items : List Node} :
    Interchangeable (sequence items) ↔ ∀ item ∈ items, Interchangeable item := by
  constructor
  · intro h item hitem
    exact ⟨fun entries hreaches => h.keys entries (.item hitem hreaches),
      fun n hreaches => h.numbers n (.item hitem hreaches)⟩
  · intro hitems
    constructor
    · intro entries hreaches
      cases hreaches with
      | item hitem hbelow => exact (hitems _ hitem).keys entries hbelow
    · intro n hreaches
      cases hreaches with
      | item hitem hbelow => exact (hitems _ hitem).numbers n hbelow

theorem interchangeable_mapping {entries : List (Node × Node)} :
    Interchangeable (mapping entries) ↔
      ∀ entry ∈ entries, (∃ key, entry.1 = string key) ∧ Interchangeable entry.2 := by
  constructor
  · intro h entry hentry
    refine ⟨h.keys entries (.self _) entry hentry, ?_⟩
    exact ⟨fun others hreaches => h.keys others (.value hentry hreaches),
      fun n hreaches => h.numbers n (.value hentry hreaches)⟩
  · intro hentries
    constructor
    · intro others hreaches
      cases hreaches with
      | self => exact fun entry hentry => (hentries entry hentry).1
      | value hentry hbelow => exact (hentries _ hentry).2.keys others hbelow
    · intro n hreaches
      cases hreaches with
      | value hentry hbelow => exact (hentries _ hentry).2.numbers n hbelow

theorem interchangeable_tagged {tag : String} {value : Node} :
    Interchangeable (tagged tag value) ↔ Interchangeable value := by
  constructor
  · intro h
    exact ⟨fun entries hreaches => h.keys entries (.tagged tag hreaches),
      fun n hreaches => h.numbers n (.tagged tag hreaches)⟩
  · intro h
    constructor
    · intro entries hreaches
      cases hreaches with
      | tagged _ hbelow => exact h.keys entries hbelow
    · intro n hreaches
      cases hreaches with
      | tagged _ hbelow => exact h.numbers n hbelow

/-! ## Items and entries one by one -/

theorem normalizeItems_eq_ok {items : List Node} {P : Node → Json → Prop}
    (hitems : ∀ item ∈ items, ∀ location document,
      normalizeAt location item = .ok document ↔ P item document)
    {location : Pointer} {index : Nat} {values : List Json} :
    normalizeItems location index items = .ok values ↔ List.Forall₂ P items values := by
  induction items generalizing index values with
  | nil =>
      rw [normalizeItems, List.forall₂_nil_left_iff]
      simp [eq_comm]
  | cons item rest ih =>
      obtain ⟨hitem, hrest⟩ := List.forall_mem_cons.mp hitems
      rw [normalizeItems, List.forall₂_cons_left_iff]
      cases hvalue : normalizeAt (location.push (toString index)) item with
      | error e =>
          have hnone : ∀ document, ¬P item document := by
            intro document hown
            rw [← hitem (location.push (toString index)), hvalue] at hown
            cases hown
          simp [hnone]
      | ok value =>
          have hown : ∀ document, P item document ↔ value = document := by
            intro document
            rw [← hitem (location.push (toString index)), hvalue, Except.ok.injEq]
          simp only [map_eq_ok, ih hrest, hown]
          constructor
          · rintro ⟨more, hmore, rfl⟩
            exact ⟨value, more, rfl, hmore, rfl⟩
          · rintro ⟨_, more, rfl, hmore, rfl⟩
            exact ⟨more, hmore, rfl⟩

/-- An entry becomes a field if its key is the string that is the key of the
field and its value has the property with the value of the field. -/
def EntryBecomes (P : Node → Json → Prop) (entry : Node × Node) (field : String × Json) : Prop :=
  entry.1 = string field.1 ∧ P entry.2 field.2

variable {P : Node → Json → Prop} {entries : List (Node × Node)} {fields : List (String × Json)}

theorem normalizeEntries_eq_ok
    (hvalues : ∀ entry ∈ entries, ∀ location document,
      normalizeAt location entry.2 = .ok document ↔ P entry.2 document)
    {location : Pointer} {found : List (String × Json)} :
    normalizeEntries location found entries = .ok fields ↔
      ∃ added, List.Forall₂ (EntryBecomes P) entries added ∧
        added.foldl (fun acc field => Fields.insert field.1 field.2 acc) found = fields := by
  induction entries generalizing found with
  | nil =>
      rw [normalizeEntries]
      simp
  | cons entry rest ih =>
      obtain ⟨key, item⟩ := entry
      obtain ⟨hitem, hrest⟩ := List.forall_mem_cons.mp hvalues
      cases key with
      | string key =>
          rw [normalizeEntries]
          cases hvalue : normalizeAt (location.push key) item with
          | error e =>
              have hnone : ∀ document, ¬P item document := by
                intro document hown
                rw [← hitem (location.push key), hvalue] at hown
                cases hown
              simp [List.forall₂_cons_left_iff, EntryBecomes, hnone]
          | ok value =>
              have hown : ∀ document, P item document ↔ value = document := by
                intro document
                rw [← hitem (location.push key), hvalue, Except.ok.injEq]
              simp only [ih hrest, List.forall₂_cons_left_iff, EntryBecomes, hown]
              constructor
              · rintro ⟨added, hadded, hfields⟩
                exact ⟨(key, value) :: added, ⟨_, added, ⟨rfl, rfl⟩, hadded, rfl⟩, hfields⟩
              · rintro ⟨_, ⟨⟨_, _⟩, added, ⟨hkey, rfl⟩, hadded, rfl⟩, hfields⟩
                cases hkey
                exact ⟨added, hadded, hfields⟩
      | _ =>
          rw [normalizeEntries] <;> simp [List.forall₂_cons_left_iff, EntryBecomes]

/-- Entries with different keys become fields with different keys. -/
theorem pairwise_ne_of_entryBecomes
    (hdistinct : entries.Pairwise fun entry later => entry.1.same later.1 = false)
    {added : List (String × Json)} (hadded : List.Forall₂ (EntryBecomes P) entries added) :
    added.Pairwise fun field later => field.1 ≠ later.1 := by
  induction hadded with
  | nil => exact .nil
  | cons hentry hrest ih =>
      obtain ⟨hfirst, hdistinct⟩ := List.pairwise_cons.mp hdistinct
      refine List.pairwise_cons.mpr ⟨?_, ih hdistinct⟩
      intro later hlater heq
      obtain ⟨other, hother, hkey, -⟩ := exists_mem_left hrest hlater
      have hsame := hfirst other hother
      rw [hentry.1, hkey, heq, same_refl] at hsame
      cases hsame

/-- Fields that entries with different keys become are the object of their mapping. -/
theorem hasDocument_of_entryBecomes
    (hdistinct : entries.Pairwise fun entry later => entry.1.same later.1 = false)
    {added : List (String × Json)} (hadded : List.Forall₂ (EntryBecomes HasDocument) entries added) :
    HasDocument (mapping entries) (.object (Fields.ofList added)) := by
  have hget : ∀ {key field}, Fields.get? key (Fields.ofList added) = some field ↔
      (key, field) ∈ added :=
    Fields.get?_ofList_eq_some (pairwise_ne_of_entryBecomes hdistinct hadded)
  have hstrings : ∀ entry ∈ entries, ∃ key, entry.1 = string key := by
    intro entry hentry
    obtain ⟨field, -, hkey, -⟩ := exists_mem_right hadded hentry
    exact ⟨field.1, hkey⟩
  rw [HasDocument, interchangeable_mapping]
  refine ⟨fun entry hentry => ⟨hstrings entry hentry, ?_⟩,
    .mapping (Fields.ordered_ofList added) hstrings ?_ ?_⟩
  · obtain ⟨field, -, -, hvalue, -⟩ := exists_mem_right hadded hentry
    exact hvalue
  · intro key
    constructor
    · rintro ⟨value, hvalue⟩
      obtain ⟨⟨_, field⟩, hfield, hkey, -⟩ := exists_mem_right hadded hvalue
      cases hkey
      exact ⟨field, hget.mpr hfield⟩
    · rintro ⟨field, hfield⟩
      obtain ⟨⟨_, value⟩, hvalue, rfl, -⟩ := exists_mem_left hadded (hget.mp hfield)
      exact ⟨value, hvalue⟩
  · intro key value field hvalue hfield
    obtain ⟨⟨_, own⟩, hown, hkey, -, hbecomes⟩ := exists_mem_right hadded hvalue
    cases hkey
    obtain rfl : field = own := Option.some.inj (hfield.symm.trans (hget.mpr hown))
    exact hbecomes

/-- The object of a mapping with different keys comes from fields that its entries become. -/
theorem exists_entryBecomes_of_hasDocument
    (hdistinct : entries.Pairwise fun entry later => entry.1.same later.1 = false)
    (hdocument : HasDocument (mapping entries) (.object fields)) :
    ∃ added, List.Forall₂ (EntryBecomes HasDocument) entries added ∧
      Fields.ofList added = fields := by
  rw [HasDocument, interchangeable_mapping] at hdocument
  obtain ⟨hentries, hbecomes⟩ := hdocument
  cases hbecomes with
  | mapping hordered hstrings hkeys hvalues =>
      have hpartner : ∀ entry ∈ entries, ∃ field : String × Json,
          EntryBecomes HasDocument entry field ∧ Fields.get? field.1 fields = some field.2 := by
        rintro ⟨key, value⟩ hentry
        obtain ⟨⟨key, rfl⟩, hvalue⟩ := hentries _ hentry
        obtain ⟨field, hfield⟩ := (hkeys key).mp ⟨value, hentry⟩
        exact ⟨(key, field), ⟨rfl, hvalue, hvalues key value field hentry hfield⟩, hfield⟩
      obtain ⟨added, hadded⟩ := exists_forall₂ hpartner
      have hbecomes := hadded.imp fun _ _ h => h.1
      refine ⟨added, hbecomes, Fields.eq_of_get?_eq (Fields.ordered_ofList _) hordered ?_⟩
      intro key
      apply Option.ext
      intro field
      rw [Fields.get?_ofList_eq_some (pairwise_ne_of_entryBecomes hdistinct hbecomes)]
      constructor
      · intro hfield
        obtain ⟨_, -, -, hget⟩ := exists_mem_left hadded hfield
        exact hget
      · intro hget
        obtain ⟨value, hentry⟩ := (hkeys key).mpr ⟨field, hget⟩
        obtain ⟨⟨_, own⟩, hown, ⟨hkey, -⟩, hsome⟩ := exists_mem_right hadded hentry
        cases hkey
        obtain rfl : field = own := Option.some.inj (hget.symm.trans hsome)
        exact hown

/-! ## The document of a value -/

theorem normalizeAt_eq_ok {value : Node} (hdistinct : DistinctKeys value) (location : Pointer)
    (document : Json) : value.normalizeAt location = .ok document ↔
      value.HasDocument document := by
  induction hdistinct generalizing location document with
  | null =>
      constructor
      · rintro ⟨⟩
        exact ⟨⟨fun _ h => (nomatch h), fun _ h => (nomatch h)⟩, .null⟩
      · rintro ⟨-, ⟨⟩⟩
        rfl
  | bool b =>
      constructor
      · rintro ⟨⟩
        exact ⟨⟨fun _ h => (nomatch h), fun _ h => (nomatch h)⟩, .bool b⟩
      · rintro ⟨-, ⟨⟩⟩
        rfl
  | string s =>
      constructor
      · rintro ⟨⟩
        exact ⟨⟨fun _ h => (nomatch h), fun _ h => (nomatch h)⟩, .string s⟩
      · rintro ⟨-, ⟨⟩⟩
        rfl
  | number n =>
      rw [HasDocument, interchangeable_number, normalizeAt, map_eq_ok]
      constructor
      · rintro ⟨found, hfound, rfl⟩
        obtain ⟨hfinite, hsame⟩ := normalizeNumber_eq_ok.mp hfound
        exact ⟨hfinite, .number hsame⟩
      · rintro ⟨hfinite, hbecomes⟩
        cases hbecomes with
        | number hsame => exact ⟨_, normalizeNumber_eq_ok.mpr ⟨hfinite, hsame⟩, rfl⟩
  | @sequence items hitems ih =>
      rw [HasDocument, interchangeable_sequence, normalizeAt, map_eq_ok]
      have hitems : ∀ values, List.Forall₂ HasDocument items values ↔
          (∀ item ∈ items, Interchangeable item) ∧ List.Forall₂ Becomes items values :=
        fun values => List.forall₂_and_left items values
      simp only [normalizeItems_eq_ok ih, hitems]
      constructor
      · rintro ⟨values, ⟨hall, hvalues⟩, rfl⟩
        exact ⟨hall, .sequence hvalues⟩
      · rintro ⟨hall, ⟨⟩⟩
        next values hvalues => exact ⟨values, ⟨hall, hvalues⟩, rfl⟩
  | @mapping entries hkeys _ _ _ ih =>
      rw [normalizeAt, map_eq_ok]
      simp only [normalizeEntries_eq_ok ih]
      constructor
      · rintro ⟨fields, hfields, rfl⟩
        obtain ⟨added, hadded, rfl⟩ := hfields
        exact hasDocument_of_entryBecomes hkeys hadded
      · rintro ⟨hall, hbecomes⟩
        cases document with
        | object fields =>
            exact ⟨fields, exists_entryBecomes_of_hasDocument hkeys ⟨hall, hbecomes⟩, rfl⟩
        | _ => cases hbecomes
  | tagged tag hvalue ih =>
      rw [HasDocument, interchangeable_tagged, normalizeAt, ih]
      refine and_congr_right fun _ => ⟨.tagged tag, ?_⟩
      rintro ⟨⟩
      assumption

theorem exists_becomes {value : Node} (hdistinct : DistinctKeys value)
    (hall : Interchangeable value) : ∃ document, Becomes value document := by
  induction hdistinct with
  | null => exact ⟨_, .null⟩
  | bool b => exact ⟨_, .bool b⟩
  | number n =>
      cases n with
      | integer n => exact ⟨_, .number (.integer rfl)⟩
      | float x => exact ⟨_, .number (.float x)⟩
  | string s => exact ⟨_, .string s⟩
  | sequence hitems ih =>
      have hbecomes := fun item hitem => ih item hitem (interchangeable_sequence.mp hall item hitem)
      obtain ⟨values, hvalues⟩ := exists_forall₂ hbecomes
      exact ⟨_, .sequence hvalues⟩
  | @mapping entries hkeys _ _ _ ih =>
      have hpartner : ∀ entry ∈ entries, ∃ field, EntryBecomes HasDocument entry field := by
        intro entry hentry
        obtain ⟨⟨key, hkey⟩, hvalue⟩ := interchangeable_mapping.mp hall entry hentry
        obtain ⟨field, hfield⟩ := ih entry hentry hvalue
        exact ⟨(key, field), hkey, hvalue, hfield⟩
      obtain ⟨added, hadded⟩ := exists_forall₂ hpartner
      exact ⟨_, (hasDocument_of_entryBecomes hkeys hadded).2⟩
  | tagged tag hvalue ih =>
      obtain ⟨document, hbecomes⟩ := ih (interchangeable_tagged.mp hall)
      exact ⟨document, .tagged tag hbecomes⟩

/-- A value whose mappings have distinct keys becomes a document exactly if its
keys are strings without tags and its numbers are finite.  The document is then
the value without its tags, and nothing else is one. -/
theorem normalize_eq_ok_iff_becomes (value : Node) (hdistinct : DistinctKeys value) :
    ((∃ document, value.normalize = .ok document) ↔ Interchangeable value) ∧
      ∀ document, value.normalize = .ok document ↔
        Interchangeable value ∧ Becomes value document := by
  have hresult : ∀ document, value.normalize = .ok document ↔ value.HasDocument document := by
    rw [normalize_eq_normalizeAt]
    exact normalizeAt_eq_ok hdistinct .root
  refine ⟨⟨?_, ?_⟩, hresult⟩
  · rintro ⟨document, hdocument⟩
    exact ((hresult document).mp hdocument).1
  · intro hall
    obtain ⟨document, hbecomes⟩ := exists_becomes hdistinct hall
    exact ⟨document, (hresult document).mpr ⟨hall, hbecomes⟩⟩

/-- A mapping whose keys are not in order, with tags on it and inside it. -/
def tier : Node :=
  .tagged "tier" (.mapping [(.string "web", .sequence [.number (.integer 18446744073709551615),
    .tagged "ratio" (.number (.float ⟨0x3FF8000000000000⟩))]), (.string "", .mapping [])])

theorem distinctKeys_tier : DistinctKeys tier := by
  have hlist : DistinctKeys (.sequence [.number (.integer 18446744073709551615),
      .tagged "ratio" (.number (.float ⟨0x3FF8000000000000⟩))]) := by
    apply DistinctKeys.sequence
    simp only [List.forall_mem_cons]
    exact ⟨.number _, .tagged _ (.number _), by simp⟩
  refine .tagged _ (.mapping (by decide) ?_ ?_)
  all_goals simp only [List.forall_mem_cons]
  · exact ⟨.string _, .string _, by simp⟩
  · exact ⟨hlist, .mapping .nil (by simp) (by simp), by simp⟩

theorem tier_becomes_object :
    tier.Becomes (.object [("", .object []),
      ("web", .array [.number (.integer 18446744073709551615),
        .number (.float ⟨0x3FF8000000000000⟩)])]) := by
  have hresult := (normalize_eq_ok_iff_becomes tier distinctKeys_tier).2
  exact ((hresult _).mp rfl).2

end Shipment.Yaml.Node
