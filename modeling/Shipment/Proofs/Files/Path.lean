import Mathlib.Data.List.Basic
import Shipment.Files.Path
import Shipment.Proofs.Files.WellFormed

/-!
# Paths made of names

Names can be read off the path that they make, so different lists of names make
different paths.  A walk that joins one name after another to a root goes by the path
of the root with the path of the names behind it, and the names are the steps that it
has behind those of the root.
-/

namespace Shipment

variable {root child : FilePath} {name : FileName} {names : List FileName}

namespace FilePath

/-! ## Parts -/

theorem parts_ne_nil (path : FilePath) : parts path ≠ [] :=
  List.splitOn_ne_nil slash path

/-- A slash cuts a path in two, and each side is cut on its own. -/
theorem parts_append_slash (front back : FilePath) :
    parts (front ++ slash :: back) = parts front ++ parts back :=
  List.splitOn_append_cons_self front back

theorem parts_ofNames (hne : names ≠ []) (hnames : ∀ name ∈ names, slash ∉ name) :
    parts (ofNames names) = names :=
  List.splitOn_intercalate slash hnames hne

theorem parts_of_not_mem (hname : slash ∉ name) : parts name = [name] := by
  have hparts := parts_ofNames (List.cons_ne_nil name []) (List.forall_mem_singleton.mpr hname)
  rwa [ofNames, List.intercalate_singleton] at hparts

theorem ofNames_cons_cons (name next : FileName) (rest : List FileName) :
    ofNames (name :: next :: rest) = name ++ slash :: ofNames (next :: rest) := by
  rw [ofNames, List.intercalate_cons_cons, List.append_assoc, List.singleton_append, ofNames]

/-! ## Joined paths -/

/-- The bytes are a part of any path that they stand in between slashes. -/
structure IsPart (name : FileName) : Prop where
  ne_empty : name ≠ []
  no_slash : slash ∉ name

end FilePath

theorem ProperName.isPart (hname : ProperName name) : FilePath.IsPart name :=
  ⟨hname.ne_empty, hname.no_slash⟩

namespace FilePath

theorem IsPart.isAbsolute_append (hname : IsPart name) (rest : FilePath) :
    isAbsolute (name ++ rest) = false := by
  obtain ⟨b, more, rfl⟩ := List.exists_cons_of_ne_nil hname.ne_empty
  have hb : b ≠ slash := fun heq => hname.no_slash (heq ▸ List.mem_cons_self)
  simpa [isAbsolute] using hb

theorem IsPart.isAbsolute (hname : IsPart name) : isAbsolute name = false := by
  simpa using hname.isAbsolute_append []

/-- A path made of names does not start at the top. -/
theorem isAbsolute_ofNames (hnames : ∀ name ∈ names, IsPart name) :
    isAbsolute (ofNames names) = false := by
  cases names with
  | nil => rfl
  | cons name rest =>
      have hname := hnames name List.mem_cons_self
      cases rest with
      | nil => simpa [ofNames] using hname.isAbsolute
      | cons next more =>
          rw [ofNames_cons_cons]
          exact hname.isAbsolute_append _

/-- What a path joined to the root starts with: the root, and a slash behind it if it needs one. -/
def lead (root : FilePath) : FilePath :=
  if root = [] ∨ root.getLast? = some slash then root else root ++ [slash]

theorem join_eq (hchild : isAbsolute child = false) : join root child = lead root ++ child := by
  by_cases hroot : root = [] ∨ root.getLast? = some slash
  · have hslash : (root.isEmpty || root.getLast? == some slash) = true := by simpa using hroot
    rw [join, if_neg (by simp [hchild]), if_pos hslash, lead, if_pos hroot]
  · have hslash : ¬(root.isEmpty || root.getLast? == some slash) = true := by simpa using hroot
    rw [join, if_neg (by simp [hchild]), if_neg hslash, lead, if_neg hroot, List.append_assoc,
      List.singleton_append]

theorem exists_lead (hroot : root ≠ []) :
    ∃ front, lead root = front ++ [slash] ∧ (root = front ∨ root = front ++ [slash]) := by
  by_cases hslash : root.getLast? = some slash
  · obtain ⟨front, rfl⟩ := List.getLast?_eq_some_iff.mp hslash
    exact ⟨front, if_pos (Or.inr hslash), Or.inr rfl⟩
  · exact ⟨root, if_neg (by simp [hroot, hslash]), Or.inl rfl⟩

theorem prefix_join (hchild : isAbsolute child = false) : root <+: join root child := by
  rw [join_eq hchild, lead]
  split
  · exact List.prefix_append root child
  · exact (List.prefix_append root [slash]).trans (List.prefix_append _ child)

theorem join_nil (hchild : isAbsolute child = false) : join [] child = child :=
  join_eq hchild

theorem join_ne_nil (hroot : root ≠ []) (hchild : isAbsolute child = false) :
    join root child ≠ [] := by
  obtain ⟨front, hlead, -⟩ := exists_lead hroot
  simp [join_eq hchild, hlead]

theorem mem_join_right {b : UInt8} (hb : b ∈ child) : b ∈ join root child := by
  unfold join
  split
  · exact hb
  · split <;> simp [hb]

/-- A joined path has no bytes but those of both paths and a slash. -/
theorem mem_join {b : UInt8} (hb : b ∈ join root child) :
    b ∈ root ∨ b = slash ∨ b ∈ child := by
  unfold join at hb
  split at hb
  · exact Or.inr (Or.inr hb)
  · split at hb
    · exact (List.mem_append.mp hb).imp_right Or.inr
    · simpa using hb

theorem mem_ofNames {b : UInt8} (hb : b ∈ ofNames names) :
    b = slash ∨ ∃ name ∈ names, b ∈ name := by
  induction names with
  | nil => simp [ofNames] at hb
  | cons name rest ih =>
      cases rest with
      | nil => exact Or.inr ⟨name, List.mem_cons_self, by simpa [ofNames] using hb⟩
      | cons next more =>
          rw [ofNames_cons_cons, List.mem_append, List.mem_cons] at hb
          rcases hb with hname | rfl | hrest
          · exact Or.inr ⟨name, List.mem_cons_self, hname⟩
          · exact Or.inl rfl
          · refine (ih hrest).imp_right ?_
            rintro ⟨other, hother, hmem⟩
            exact ⟨other, List.mem_cons_of_mem _ hother, hmem⟩

/-- Where a path starts is not changed by what is joined to it. -/
theorem isAbsolute_join (hroot : root ≠ []) (hchild : isAbsolute child = false) :
    isAbsolute (join root child) = isAbsolute root := by
  obtain ⟨front, hlead, hfront⟩ := exists_lead hroot
  rw [join_eq hchild, hlead]
  cases front with
  | nil =>
      obtain rfl : root = [slash] := hfront.resolve_left hroot
      rfl
  | cons b more => rcases hfront with rfl | rfl <;> rfl

/-- The parts of a joined path are those of both paths; an empty last part of
the first, which stands for a final slash, is not kept. -/
theorem parts_join (hroot : root ≠ []) (hchild : isAbsolute child = false) :
    ∃ front tail, front ≠ [] ∧ (tail = [] ∨ tail = [[]]) ∧ parts root = front ++ tail ∧
      parts (join root child) = front ++ parts child := by
  obtain ⟨front, hlead, hfront⟩ := exists_lead hroot
  have hjoin : parts (join root child) = parts front ++ parts child := by
    rw [join_eq hchild, hlead, List.append_assoc]
    exact parts_append_slash front child
  rcases hfront with rfl | rfl
  · exact ⟨parts root, [], parts_ne_nil root, Or.inl rfl, (List.append_nil _).symm, hjoin⟩
  · exact ⟨parts front, [[]], parts_ne_nil front, Or.inr rfl, parts_append_slash front [], hjoin⟩

/-- Joining a name and then a path behind it is joining both at once. -/
theorem join_join (hname : IsPart name) (hchild : isAbsolute child = false) :
    join (join root name) child = join root (name ++ slash :: child) := by
  have hlast : (lead root ++ name).getLast? ≠ some slash := by
    intro hslash
    rw [List.getLast?_append_of_ne_nil _ hname.ne_empty] at hslash
    exact hname.no_slash (List.mem_of_getLast? hslash)
  have hlead : lead (lead root ++ name) = lead root ++ name ++ [slash] :=
    if_neg (not_or.mpr ⟨by simp [hname.ne_empty], hlast⟩)
  calc
    join (join root name) child = lead (lead root ++ name) ++ child := by
      rw [join_eq hchild, join_eq hname.isAbsolute]
    _ = lead root ++ (name ++ slash :: child) := by
      rw [hlead, List.append_assoc, List.append_assoc, List.singleton_append]
    _ = join root (name ++ slash :: child) :=
      (join_eq (hname.isAbsolute_append _)).symm

/-- Names that are joined one by one make the path that they make together. -/
theorem foldl_join (hne : names ≠ []) (hnames : ∀ name ∈ names, IsPart name)
    (root : FilePath) : names.foldl join root = join root (ofNames names) := by
  induction names generalizing root with
  | nil => exact absurd rfl hne
  | cons name rest ih =>
      obtain ⟨hname, hrest⟩ := List.forall_mem_cons.mp hnames
      cases rest with
      | nil => rw [List.foldl_cons, List.foldl_nil, ofNames, List.intercalate_singleton]
      | cons next more =>
          rw [List.foldl_cons, ih (List.cons_ne_nil _ _) hrest,
            join_join hname (isAbsolute_ofNames hrest), ofNames_cons_cons]

/-! ## Steps -/

theorem stepOf?_of_properName (hname : ProperName name) : stepOf? name = some (.name name) := by
  rw [stepOf?, if_neg (not_or.mpr ⟨hname.ne_empty, hname.ne_self⟩), if_neg hname.ne_parent]

/-- A name that is joined is the last step. -/
theorem steps_join (hname : ProperName name) : steps (join root name) = steps root ++ [.name name] := by
  have hown := hname.isPart.isAbsolute
  have hparts := parts_of_not_mem hname.no_slash
  by_cases hroot : root = []
  · subst hroot
    have hnone : steps [] = [] := rfl
    rw [join_nil hown, hnone, steps, hown, hparts]
    simp [stepOf?_of_properName hname, hname.ne_self]
  · obtain ⟨front, tail, hfront, htail, hbase, hjoin⟩ := parts_join hroot hown
    obtain ⟨first, more, rfl⟩ := List.exists_cons_of_ne_nil hfront
    have hsteps : tail.filterMap stepOf? = [] := by
      rcases htail with rfl | rfl <;> rfl
    rw [steps, steps, isAbsolute_join hroot hown, hjoin, hbase, hparts, List.filterMap_append,
      List.filterMap_append, hsteps, List.filterMap_cons_some (stepOf?_of_properName hname)]
    by_cases habsolute : isAbsolute root = true
    · simp [habsolute]
    · by_cases hself : first = selfName <;> simp [habsolute, hself]

theorem steps_foldl_join (hnames : ∀ name ∈ names, ProperName name) (root : FilePath) :
    steps (names.foldl join root) = steps root ++ names.map .name := by
  induction names generalizing root with
  | nil => exact (List.append_nil _).symm
  | cons name rest ih =>
      obtain ⟨hname, hrest⟩ := List.forall_mem_cons.mp hnames
      rw [List.foldl_cons, ih hrest, steps_join hname, List.append_assoc, List.map_cons,
        List.singleton_append]

/-- Taking the root away from the path of a walk gives the names that it went by. -/
theorem relativeText_foldl_join (hnames : ∀ name ∈ names, ProperName name) (root : FilePath) :
    relativeText root (names.foldl join root) = textOf names := by
  have hprefix : (steps root).isPrefixOf? (steps root ++ names.map .name) =
      some (names.map .name) :=
    List.isPrefixOf?_eq_some_iff_append_eq.mpr rfl
  rw [relativeText, steps_foldl_join hnames, hprefix, Option.getD_some, List.map_map, textOf]
  rfl

end FilePath

end Shipment
