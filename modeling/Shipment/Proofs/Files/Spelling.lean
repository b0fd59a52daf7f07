import Shipment.Proofs.Files.PathLookup

/-!
# Paths to the same directory

A lookup has two limits: on the length of the path and on the number of links to
follow.  Where neither decides its result, what is found behind a path to a directory
depends on the directory alone, and not on how the path to it is spelled.
-/

namespace Shipment

namespace FileSystem

open FileTree (pathLimit linkLimit lookupParts)

variable {files : FileSystem}

/-! ## Limits -/

/-- The limits do not decide where the path leads: it is short enough, and with more
links to follow it leads to the same. -/
structure WithinLimits (files : FileSystem) (path : FilePath) : Prop where
  short : path.length < pathLimit
  links : ∀ extra,
    lookupParts files.tree true (extra + linkLimit) (files.start path) (FilePath.parts path) =
      lookupParts files.tree true linkLimit (files.start path) (FilePath.parts path)

/-- A path that leads to an entry, or to nothing at all, is within the limits. -/
theorem withinLimits_of_lookup {path : FilePath} (hpath : path ≠ [])
    (hresult : ∀ cause, files.lookup true path = .error cause → cause = .notFound) :
    files.WithinLimits path := by
  rw [lookup] at hresult
  split_ifs at hresult with hnull hlong hempty
  · cases hresult _ rfl
  · cases hresult _ rfl
  · exact absurd (by simpa using hempty) hpath
  · refine ⟨Nat.not_le.mp hlong, FileTree.lookupParts_mono ?_⟩
    intro hloop
    cases hresult _ hloop

/-! ## Two paths to one directory -/

/-- Both paths lead to the same directory. -/
def SameDirectory (files : FileSystem) (path other : FilePath) : Prop :=
  ∃ place entries, files.lookup true path = .ok (place, .directory entries) ∧
    files.lookup true other = .ok (place, .directory entries)

variable {root other child : FilePath}

section

variable (hsame : files.SameDirectory root other) (hchild : FilePath.isAbsolute child = false)

include hsame hchild

/-- A path behind either of two paths to one directory leads to the same, unless a
limit decides. -/
theorem lookup_join_eq (hlimits : files.WithinLimits (FilePath.join root child))
    (hlimits' : files.WithinLimits (FilePath.join other child)) :
    files.lookup true (FilePath.join other child) =
      files.lookup true (FilePath.join root child) := by
  obtain ⟨place, entries, hroot, hother⟩ := hsame
  obtain ⟨hnull, -, hbase, -⟩ := lookup_eq_ok hroot
  obtain ⟨hnull', -, hbase', -⟩ := lookup_eq_ok hother
  by_cases hmem : 0 ∈ child
  · have hinvalid : ∀ base, files.lookup true (FilePath.join base child) = .error .invalidInput :=
      fun base => if_pos (by simpa using FilePath.mem_join_right hmem)
    rw [hinvalid, hinvalid]
  obtain ⟨left, -, hleft⟩ := lookupParts_join hroot hchild
  obtain ⟨left', -, hleft'⟩ := lookupParts_join hother hchild
  rw [lookup_eq_lookupParts (zero_not_mem_join hnull hmem) hlimits.short
      (FilePath.join_ne_nil hbase hchild),
    lookup_eq_lookupParts (zero_not_mem_join hnull' hmem) hlimits'.short
      (FilePath.join_ne_nil hbase' hchild)]
  -- with the links that are left behind the other path as extra ones, both have the same number
  calc
    lookupParts files.tree true linkLimit (files.start (FilePath.join other child))
          (FilePath.parts (FilePath.join other child)) =
        lookupParts files.tree true (left + linkLimit) (files.start (FilePath.join other child))
          (FilePath.parts (FilePath.join other child)) :=
      (hlimits'.links left).symm
    _ = lookupParts files.tree true (left + left') place (FilePath.parts child) := hleft' left true
    _ = lookupParts files.tree true (left' + left) place (FilePath.parts child) := by
      rw [Nat.add_comm]
    _ = lookupParts files.tree true (left' + linkLimit) (files.start (FilePath.join root child))
          (FilePath.parts (FilePath.join root child)) :=
      (hleft left' true).symm
    _ = lookupParts files.tree true linkLimit (files.start (FilePath.join root child))
          (FilePath.parts (FilePath.join root child)) :=
      hlimits.links left'

theorem leadsToDirectory_join_eq (hlimits : files.WithinLimits (FilePath.join root child))
    (hlimits' : files.WithinLimits (FilePath.join other child)) :
    files.leadsToDirectory (FilePath.join other child) =
      files.leadsToDirectory (FilePath.join root child) := by
  rw [leadsToDirectory, leadsToDirectory, lookup_join_eq hsame hchild hlimits hlimits']

/-- A text that is read, or a file that is not there, is the same behind both paths. -/
theorem readText_join_eq
    (hread : ∀ cause, files.readText (FilePath.join root child) = .error cause → cause = .notFound)
    (hread' : ∀ cause, files.readText (FilePath.join other child) = .error cause →
      cause = .notFound) :
    files.readText (FilePath.join other child) = files.readText (FilePath.join root child) := by
  have hwithin : ∀ {path}, path ≠ [] →
      (∀ cause, files.readText (FilePath.join path child) = .error cause → cause = .notFound) →
        files.WithinLimits (FilePath.join path child) := by
    intro path hpath hread
    apply withinLimits_of_lookup (FilePath.join_ne_nil hpath hchild)
    intro cause hcause
    apply hread
    rw [readText, hcause]
  obtain ⟨place, entries, hroot, hother⟩ := id hsame
  have hlimits := hwithin (lookup_eq_ok hroot).2.2.1 hread
  have hlimits' := hwithin (lookup_eq_ok hother).2.2.1 hread'
  rw [readText, readText, lookup_join_eq hsame hchild hlimits hlimits']

/-- Texts that are read behind both paths are the same. -/
theorem text_join_eq {text text' : String}
    (htext : files.readText (FilePath.join root child) = .ok text)
    (htext' : files.readText (FilePath.join other child) = .ok text') : text' = text := by
  have heq := readText_join_eq hsame hchild (by simp [htext]) (by simp [htext'])
  exact Except.ok.inj (htext'.symm.trans (heq.trans htext))

end

end FileSystem

end Shipment
