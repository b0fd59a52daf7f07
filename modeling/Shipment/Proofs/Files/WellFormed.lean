import Shipment.Files.Tree
import Shipment.Proofs.Fields

/-!
# Trees that a file system can hold

The names in a directory are distinct, and each can be a step of a path: it is
not empty, holds no slash, is not one of the two relative names and is not too
long.  The empty tree is of this kind, and putting an entry at such names keeps
it so.
-/

namespace Shipment

/-- A name that an entry of a directory can have. -/
structure ProperName (name : FileName) : Prop where
  ne_empty : name ≠ []
  no_slash : FilePath.slash ∉ name
  no_null : 0 ∉ name
  ne_self : name ≠ FilePath.selfName
  ne_parent : name ≠ FilePath.parentName
  short : name.length ≤ FileTree.nameLimit

instance (name : FileName) : Decidable (ProperName name) :=
  decidable_of_iff
    (name ≠ [] ∧ FilePath.slash ∉ name ∧ 0 ∉ name ∧ name ≠ FilePath.selfName ∧
      name ≠ FilePath.parentName ∧ name.length ≤ FileTree.nameLimit)
    ⟨fun ⟨hempty, hslash, hnull, hself, hparent, hshort⟩ =>
        ⟨hempty, hslash, hnull, hself, hparent, hshort⟩,
      fun h => ⟨h.ne_empty, h.no_slash, h.no_null, h.ne_self, h.ne_parent, h.short⟩⟩

namespace FileTree

/-- Directories have distinct proper names, in order, at every depth. -/
inductive WellFormed : FileTree → Prop
  | file (text : Option String) : WellFormed (file text)
  | link (target : FilePath) : WellFormed (link target)
  | directory {entries : List (FileName × FileTree)} (hordered : Fields.Ordered entries)
      (hnames : ∀ entry ∈ entries, ProperName entry.1)
      (hbelow : ∀ entry ∈ entries, WellFormed entry.2) : WellFormed (directory entries)

theorem wellFormed_empty : WellFormed empty :=
  .directory Fields.ordered_nil (by simp) (by simp)

theorem WellFormed.child? {tree below : FileTree} (htree : tree.WellFormed) {name : FileName}
    (hchild : tree.child? name = some below) : below.WellFormed := by
  cases htree with
  | file text => simp [FileTree.child?] at hchild
  | link target => simp [FileTree.child?] at hchild
  | directory hordered hnames hbelow => exact hbelow _ (Fields.mem_of_get? hchild)

theorem WellFormed.descend {tree below : FileTree} (htree : tree.WellFormed) {names : List FileName}
    (hdescend : FileTree.descend names tree = some below) : below.WellFormed := by
  induction names generalizing tree with
  | nil =>
      obtain rfl : tree = below := by simpa [FileTree.descend] using hdescend
      exact htree
  | cons name rest ih =>
      obtain ⟨next, hnext, hrest⟩ := Option.bind_eq_some_iff.mp hdescend
      exact ih (htree.child? hnext) hrest

/-- Putting an entry at proper names makes a tree that a file system can hold. -/
theorem WellFormed.put {tree entry : FileTree} (htree : tree.WellFormed)
    (hentry : entry.WellFormed) {names : List FileName} (hnames : ∀ name ∈ names, ProperName name) :
    (tree.put names entry).WellFormed := by
  induction names generalizing tree with
  | nil => exact hentry
  | cons name rest ih =>
      have hrest : ∀ other ∈ rest, ProperName other :=
        fun other hother => hnames other (List.mem_cons_of_mem _ hother)
      have hput : ∀ entries, (FileTree.directory entries).WellFormed →
          (FileTree.directory (Fields.insert name
            (((Fields.get? name entries).getD empty).put rest entry) entries)).WellFormed := by
        rintro entries (_ | _ | ⟨hordered, hproper, hbelow⟩)
        have hold : ((Fields.get? name entries).getD empty).WellFormed := by
          cases hget : Fields.get? name entries with
          | none => exact wellFormed_empty
          | some below => exact hbelow _ (Fields.mem_of_get? hget)
        refine .directory (Fields.ordered_insert hordered) ?_ ?_
        · intro field hfield
          rcases Fields.eq_or_mem_of_mem_insert hfield with rfl | hmem
          · exact hnames name List.mem_cons_self
          · exact hproper field hmem
        · intro field hfield
          rcases Fields.eq_or_mem_of_mem_insert hfield with rfl | hmem
          · exact ih hold hrest
          · exact hbelow field hmem
      cases tree with
      | file text => simpa only [FileTree.put] using hput [] wellFormed_empty
      | directory entries => simpa only [FileTree.put] using hput entries htree
      | link target => simpa only [FileTree.put] using hput [] wellFormed_empty

end FileTree

end Shipment
