import Shipment.Yaml.Node

/-!
# Keys of mappings

Equality of values as keys is reflexive and transitive, so the search for a key
finds an entry whichever of the equal keys is asked for.  A value has distinct
keys if no mapping in it, at any depth, holds two equal ones.
-/

namespace Shipment

namespace Binary64

theorem same_refl (x : Binary64) : x.same x = true := by
  simp [same]

theorem isZero_eq_false_of_isNaN {x : Binary64} (hx : x.isNaN = true) : x.isZero = false := by
  have hlt : infinityBits < x.magnitude := by simpa [isNaN] using hx
  have hne : x.magnitude ≠ 0 := by omega
  simpa [isZero] using hne

theorem same_iff {x y : Binary64} :
    x.same y = true ↔
      x.isNaN = true ∧ y.isNaN = true ∨ x.isZero = true ∧ y.isZero = true ∨ x = y := by
  simp [same, or_assoc]

theorem same_symm {x y : Binary64} (hxy : x.same y = true) : y.same x = true := by
  rw [same_iff] at hxy ⊢
  rcases hxy with ⟨hx, hy⟩ | ⟨hx, hy⟩ | heq
  · exact Or.inl ⟨hy, hx⟩
  · exact Or.inr (Or.inl ⟨hy, hx⟩)
  · exact Or.inr (Or.inr heq.symm)

theorem same_trans {x y z : Binary64} (hxy : x.same y = true) (hyz : y.same z = true) :
    x.same z = true := by
  rw [same_iff] at hxy hyz ⊢
  rcases hxy with ⟨hx, hy⟩ | ⟨hx, hy⟩ | rfl
  · rcases hyz with ⟨-, hz⟩ | ⟨hzero, -⟩ | rfl
    · exact Or.inl ⟨hx, hz⟩
    · simp [isZero_eq_false_of_isNaN hy] at hzero
    · exact Or.inl ⟨hx, hy⟩
  · rcases hyz with ⟨hnan, -⟩ | ⟨-, hz⟩ | rfl
    · simp [isZero_eq_false_of_isNaN hnan] at hy
    · exact Or.inr (Or.inl ⟨hx, hz⟩)
    · exact Or.inr (Or.inl ⟨hx, hy⟩)
  · exact hyz

end Binary64

namespace Yaml.Number

theorem same_refl (n : Number) : n.same n = true := by
  cases n with
  | integer n => simp [same]
  | float x => exact x.same_refl

theorem same_symm {m n : Number} (hmn : m.same n = true) : n.same m = true := by
  cases m <;> cases n <;> simp_all [same]
  exact Binary64.same_symm hmn

theorem same_trans {l m n : Number} (hlm : l.same m = true) (hmn : m.same n = true) :
    l.same n = true := by
  cases l <;> cases m <;> cases n <;> simp_all [same]
  exact Binary64.same_trans hlm hmn

end Yaml.Number

namespace Yaml.Node

theorem sameEntries_iff {entries others : List (Node × Node)} :
    sameEntries entries others = true ↔
      ∀ entry ∈ entries, ∃ other ∈ others,
        entry.1.same other.1 = true ∧ entry.2.same other.2 = true := by
  induction entries with
  | nil => simp [sameEntries]
  | cons entry rest ih => simp [sameEntries, ih]

mutual

theorem same_refl (x : Node) : x.same x = true := by
  cases x with
  | null => rfl
  | bool b => simp [same]
  | number n => simpa [same] using n.same_refl
  | string s => simp [same]
  | sequence items => simpa [same] using sameItems_refl items
  | mapping entries =>
      simp only [same, beq_self_eq_true, Bool.true_and, sameEntries_iff]
      exact fun entry hentry => ⟨entry, hentry, sameEntry_refl entries entry hentry⟩
  | tagged tag value => simpa [same] using same_refl value

theorem sameItems_refl (items : List Node) : sameItems items items = true := by
  cases items with
  | nil => rfl
  | cons item rest => simp [sameItems, same_refl item, sameItems_refl rest]

theorem sameEntry_refl (entries : List (Node × Node)) :
    ∀ entry ∈ entries, entry.1.same entry.1 = true ∧ entry.2.same entry.2 = true := by
  cases entries with
  | nil => simp
  | cons entry rest =>
      obtain ⟨key, value⟩ := entry
      intro other hother
      rcases List.mem_cons.mp hother with rfl | hrest
      · exact ⟨same_refl key, same_refl value⟩
      · exact sameEntry_refl rest other hrest

end

mutual

theorem same_trans (x : Node) {y z : Node} (hxy : x.same y = true) (hyz : y.same z = true) :
    x.same z = true := by
  cases x with
  | null =>
      cases y <;> simp only [same, Bool.false_eq_true] at hxy
      exact hyz
  | bool b =>
      cases y <;> simp only [same, Bool.false_eq_true, beq_iff_eq] at hxy
      rwa [hxy]
  | number n =>
      cases y <;> simp only [same, Bool.false_eq_true] at hxy
      cases z <;> simp only [same, Bool.false_eq_true] at hyz
      exact Number.same_trans hxy hyz
  | string s =>
      cases y <;> simp only [same, Bool.false_eq_true, beq_iff_eq] at hxy
      rwa [hxy]
  | sequence items =>
      cases y <;> simp only [same, Bool.false_eq_true] at hxy
      cases z <;> simp only [same, Bool.false_eq_true] at hyz
      exact sameItems_trans items hxy hyz
  | mapping entries =>
      cases y <;> simp only [same, Bool.false_eq_true, Bool.and_eq_true, beq_iff_eq] at hxy
      cases z <;> simp only [same, Bool.false_eq_true, Bool.and_eq_true, beq_iff_eq] at hyz
      simp only [same, Bool.and_eq_true, beq_iff_eq]
      exact ⟨hxy.1.trans hyz.1, sameEntries_trans entries hxy.2 hyz.2⟩
  | tagged tag value =>
      cases y <;> simp only [same, Bool.false_eq_true, Bool.and_eq_true, beq_iff_eq] at hxy
      cases z <;> simp only [same, Bool.false_eq_true, Bool.and_eq_true, beq_iff_eq] at hyz
      simp only [same, Bool.and_eq_true, beq_iff_eq]
      exact ⟨hxy.1.trans hyz.1, same_trans value hxy.2 hyz.2⟩
termination_by structural x

theorem sameItems_trans (items : List Node) {others more : List Node}
    (hfirst : sameItems items others = true) (hsecond : sameItems others more = true) :
    sameItems items more = true := by
  cases items with
  | nil =>
      cases others with
      | nil => exact hsecond
      | cons other others => simp [sameItems] at hfirst
  | cons item items =>
      cases others with
      | nil => simp [sameItems] at hfirst
      | cons other others =>
          cases more with
          | nil => simp [sameItems] at hsecond
          | cons third more =>
              simp only [sameItems, Bool.and_eq_true] at hfirst hsecond ⊢
              exact ⟨same_trans item hfirst.1 hsecond.1,
                sameItems_trans items hfirst.2 hsecond.2⟩
termination_by structural items

theorem sameEntries_trans (entries : List (Node × Node)) {others more : List (Node × Node)}
    (hfirst : sameEntries entries others = true) (hsecond : sameEntries others more = true) :
    sameEntries entries more = true := by
  cases entries with
  | nil => rfl
  | cons entry entries =>
      obtain ⟨key, value⟩ := entry
      simp only [sameEntries, Bool.and_eq_true, List.any_eq_true] at hfirst ⊢
      obtain ⟨⟨other, hother, hkey, hvalue⟩, hrest⟩ := hfirst
      obtain ⟨third, hthird, hkey', hvalue'⟩ := sameEntries_iff.mp hsecond other hother
      exact ⟨⟨third, hthird, same_trans key hkey hkey', same_trans value hvalue hvalue'⟩,
        sameEntries_trans entries hrest hsecond⟩
termination_by structural entries

end

/-! ## Entries of a mapping -/

variable {entries : List (Node × Node)} {key : Node}

theorem lookup?_eq_none_iff :
    lookup? key entries = none ↔ ∀ entry ∈ entries, entry.1.same key = false := by
  simp [lookup?]

theorem lookup?_isSome_iff :
    (lookup? key entries).isSome = true ↔ ∃ entry ∈ entries, entry.1.same key = true := by
  simp [lookup?]

theorem lookup?_append (entries more : List (Node × Node)) (key : Node) :
    lookup? key (entries ++ more) = (lookup? key entries).or (lookup? key more) :=
  List.find?_append

/-- No mapping in a value, among its keys included, holds two equal keys. -/
inductive DistinctKeys : Node → Prop
  | null : DistinctKeys null
  | bool (b : Bool) : DistinctKeys (bool b)
  | number (n : Number) : DistinctKeys (number n)
  | string (s : String) : DistinctKeys (string s)
  | sequence {items : List Node} (hitems : ∀ item ∈ items, DistinctKeys item) :
      DistinctKeys (sequence items)
  | mapping {entries : List (Node × Node)}
      (hdistinct : entries.Pairwise fun entry later => entry.1.same later.1 = false)
      (hkeys : ∀ entry ∈ entries, DistinctKeys entry.1)
      (hvalues : ∀ entry ∈ entries, DistinctKeys entry.2) : DistinctKeys (mapping entries)
  | tagged (tag : String) {value : Node} (hvalue : DistinctKeys value) :
      DistinctKeys (tagged tag value)

/-! ## Equality from the other side -/

/-- If each element has a partner among as many others, and no two have the same one, then each
of the others is a partner. -/
theorem exists_of_partners {α β : Type} {R : α → β → Prop} {left : List α} {right : List β}
    (hlength : left.length = right.length) (hpartner : ∀ a ∈ left, ∃ b ∈ right, R a b)
    (hunique : left.Pairwise fun a later => ∀ b, R a b → ¬R later b) :
    ∀ b ∈ right, ∃ a ∈ left, R a b := by
  induction left generalizing right with
  | nil =>
      obtain rfl := List.length_eq_zero_iff.mp hlength.symm
      simp
  | cons a rest ih =>
      obtain ⟨hfirst, hrest⟩ := List.pairwise_cons.mp hunique
      obtain ⟨hown, hothers⟩ := List.forall_mem_cons.mp hpartner
      obtain ⟨b, hb, hab⟩ := hown
      obtain ⟨front, back, rfl⟩ := List.append_of_mem hb
      have hleft : ∀ later ∈ rest, ∃ other ∈ front ++ back, R later other := by
        intro later hlater
        obtain ⟨other, hother, hpair⟩ := hothers later hlater
        have hne : other ≠ b := by
          rintro rfl
          exact hfirst later hlater other hab hpair
        exact ⟨other, by simpa [hne] using hother, hpair⟩
      have hless : rest.length = (front ++ back).length := by
        simp only [List.length_cons, List.length_append] at hlength ⊢
        omega
      have hall := ih hless hleft hrest
      intro other hother
      rcases List.mem_append.mp hother with hmem | hmem
      · obtain ⟨later, hlater, hpair⟩ := hall other (List.mem_append_left _ hmem)
        exact ⟨later, List.mem_cons_of_mem _ hlater, hpair⟩
      · rcases List.mem_cons.mp hmem with rfl | hmem
        · exact ⟨a, List.mem_cons_self, hab⟩
        · obtain ⟨later, hlater, hpair⟩ := hall other (List.mem_append_right _ hmem)
          exact ⟨later, List.mem_cons_of_mem _ hlater, hpair⟩

theorem sameItems_symm {items others : List Node}
    (hsymm : ∀ item ∈ items, ∀ {other : Node}, item.same other = true → other.same item = true)
    (hsame : sameItems items others = true) : sameItems others items = true := by
  induction items generalizing others with
  | nil =>
      cases others with
      | nil => rfl
      | cons other others => simp [sameItems] at hsame
  | cons item items ih =>
      obtain ⟨hfirst, hrest⟩ := List.forall_mem_cons.mp hsymm
      cases others with
      | nil => simp [sameItems] at hsame
      | cons other others =>
          simp only [sameItems, Bool.and_eq_true] at hsame ⊢
          exact ⟨hfirst hsame.1, ih hrest hsame.2⟩

/-- Equality as keys is symmetric for a value without two equal keys in one mapping. -/
theorem DistinctKeys.same_symm {x y : Node} (hx : x.DistinctKeys) (hxy : x.same y = true) :
    y.same x = true := by
  induction hx generalizing y with
  | null =>
      cases y <;> simp only [same, Bool.false_eq_true] at hxy
      rfl
  | bool b =>
      cases y <;> simp only [same, Bool.false_eq_true, beq_iff_eq] at hxy
      simp [same, hxy]
  | number n =>
      cases y <;> simp only [same, Bool.false_eq_true] at hxy
      exact Number.same_symm hxy
  | string s =>
      cases y <;> simp only [same, Bool.false_eq_true, beq_iff_eq] at hxy
      simp [same, hxy]
  | sequence hitems ih =>
      cases y <;> simp only [same, Bool.false_eq_true] at hxy
      exact sameItems_symm (fun item hitem _ hsame => ih item hitem hsame) hxy
  | tagged tag hvalue ih =>
      cases y <;> simp only [same, Bool.false_eq_true, Bool.and_eq_true, beq_iff_eq] at hxy
      simp only [same, Bool.and_eq_true, beq_iff_eq]
      exact ⟨hxy.1.symm, ih hxy.2⟩
  | @mapping entries hdistinct hkeys hvalues ihkeys ihvalues =>
      cases y <;> simp only [same, Bool.false_eq_true, Bool.and_eq_true, beq_iff_eq] at hxy
      next others =>
      obtain ⟨hlength, hentries⟩ := hxy
      have hunique : entries.Pairwise fun entry later => ∀ other : Node × Node,
          (entry.1.same other.1 = true ∧ entry.2.same other.2 = true) →
            ¬(later.1.same other.1 = true ∧ later.2.same other.2 = true) := by
        refine hdistinct.imp_of_mem fun _ hlater hne other hown hsecond => ?_
        have hequal := same_trans _ hown.1 (ihkeys _ hlater hsecond.1)
        exact absurd (hne.symm.trans hequal) (by simp)
      have hall := exists_of_partners hlength (sameEntries_iff.mp hentries) hunique
      simp only [same, Bool.and_eq_true, beq_iff_eq, sameEntries_iff]
      refine ⟨hlength.symm, fun other hother => ?_⟩
      obtain ⟨entry, hentry, hkey, hvalue⟩ := hall other hother
      exact ⟨entry, hentry, ihkeys entry hentry hkey, ihvalues entry hentry hvalue⟩

/-! ## Steps and depth -/

/-- One step into a value: to a key of a mapping, to an item of a sequence, or below a tag. -/
inductive Step where
  | key (key : Node)
  | item (index : Nat)
  | tag

theorem depth_pos (x : Node) : 0 < x.depth := by
  cases x <;> simp [depth]

theorem depth_lt_of_mem_sequence {items : List Node} {item : Node} (hitem : item ∈ items) :
    item.depth < (sequence items).depth := by
  rw [depth, Nat.lt_succ_iff]
  induction items with
  | nil => simp at hitem
  | cons first rest ih =>
      rw [itemsDepth]
      rcases List.mem_cons.mp hitem with rfl | hrest
      · exact Nat.le_max_left _ _
      · exact Nat.le_trans (ih hrest) (Nat.le_max_right _ _)

/-- The value of an entry is less deep than the mapping. -/
theorem depth_lt_of_mem_mapping {entry : Node × Node} (hentry : entry ∈ entries) :
    entry.2.depth < (mapping entries).depth := by
  rw [depth, Nat.lt_succ_iff]
  induction entries with
  | nil => simp at hentry
  | cons first rest ih =>
      obtain ⟨key, value⟩ := first
      rw [entriesDepth]
      rcases List.mem_cons.mp hentry with rfl | hrest
      · exact Nat.le_trans (Nat.le_max_right _ _) (Nat.le_max_left _ _)
      · exact Nat.le_trans (ih hrest) (Nat.le_max_right _ _)

theorem depth_lt_tagged (tag : String) (value : Node) : value.depth < (tagged tag value).depth := by
  rw [depth]
  exact Nat.lt_succ_self _

/-- Induction on the parts of a value, where the keys of a mapping do not count as parts. -/
@[elab_as_elim]
theorem partsInduction {motive : Node → Prop} (null : motive null) (bool : ∀ b, motive (bool b))
    (number : ∀ n, motive (number n)) (string : ∀ s, motive (string s))
    (sequence : ∀ items, (∀ item ∈ items, motive item) → motive (sequence items))
    (mapping : ∀ entries : List (Node × Node), (∀ entry ∈ entries, motive entry.2) →
      motive (mapping entries))
    (tagged : ∀ tag value, motive value → motive (tagged tag value)) (value : Node) :
    motive value := by
  cases value with
  | null => exact null
  | bool b => exact bool b
  | number n => exact number n
  | string s => exact string s
  | sequence items =>
      refine sequence items fun item hitem => ?_
      have hlt := depth_lt_of_mem_sequence hitem
      exact partsInduction null bool number string sequence mapping tagged item
  | mapping entries =>
      refine mapping entries fun entry hentry => ?_
      have hlt := depth_lt_of_mem_mapping hentry
      exact partsInduction null bool number string sequence mapping tagged entry.2
  | tagged tag value =>
      have hlt := depth_lt_tagged tag value
      exact tagged tag value
        (partsInduction null bool number string sequence mapping tagged value)
termination_by value.depth

end Yaml.Node

end Shipment
