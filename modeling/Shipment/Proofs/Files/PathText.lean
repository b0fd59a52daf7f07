import Shipment.Discovery
import Shipment.Proofs.Files.Path
import Shipment.Proofs.Text.ByteReading

/-!
# Paths as they are read

The text of a path holds its names as they are read, and these can be read off it.  As a
path, it goes by the names in the spelling in which they were read, which is another one
for a name that is not UTF-8.
-/

namespace Shipment

namespace FilePath

variable {name : FileName} {names : List FileName}

/-! ## Names as they are read -/

/-- A name in the spelling in which it is read. -/
def asRead (name : FileName) : FileName :=
  Text.bytes (Text.ofBytes name)

theorem asRead_of_isUtf8 (hname : Text.IsUtf8 name) : asRead name = name :=
  Text.isUtf8_iff.mp hname

theorem map_asRead_of_isUtf8 (hnames : ∀ name ∈ names, Text.IsUtf8 name) :
    names.map asRead = names := by
  rw [List.map_congr_left fun name hname => asRead_of_isUtf8 (hnames name hname), List.map_id']

theorem utf8EncodeChar_slash : String.utf8EncodeChar '/' = [slash] := by
  decide

theorem slash_not_mem_ofBytes (hname : slash ∉ name) : '/' ∉ (Text.ofBytes name).toList :=
  fun hmem => hname (Text.mem_of_mem_ofBytes utf8EncodeChar_slash (by decide) hmem)

theorem slash_not_mem_map_ofBytes (hnames : ∀ name ∈ names, IsPart name) :
    ∀ part ∈ names.map Text.ofBytes, '/' ∉ part.toList :=
  List.forall_mem_map.mpr fun name hname => slash_not_mem_ofBytes (hnames name hname).no_slash

theorem IsPart.asRead (hname : IsPart name) : IsPart (asRead name) where
  ne_empty := by
    intro hempty
    exact Text.ofBytes_ne_empty hname.ne_empty (Text.bytes_injective hempty)
  no_slash := by
    rw [FilePath.asRead, Text.mem_bytes_iff utf8EncodeChar_slash (by decide)]
    exact slash_not_mem_ofBytes hname.no_slash

/-- Only a name itself is read as a text without a replacement. -/
theorem eq_of_asRead_eq {s : String} (hs : Text.replacement ∉ s.toList)
    (heq : asRead name = Text.bytes s) : name = Text.bytes s := by
  have hread : Text.ofBytes name = s := Text.bytes_injective heq
  rw [← heq, asRead_of_isUtf8 (Text.isUtf8_of_not_mem (hread ▸ hs))]

theorem asRead_ne_selfName (hname : name ≠ selfName) : asRead name ≠ selfName :=
  fun heq => hname (eq_of_asRead_eq (s := ".") (by decide) heq)

theorem asRead_ne_parentName (hname : name ≠ parentName) : asRead name ≠ parentName :=
  fun heq => hname (eq_of_asRead_eq (s := "..") (by decide) heq)

/-! ## The text of a path -/

/-- Texts without slashes can be read off the text that they make with slashes between them. -/
theorem eq_of_intercalate_eq {left right : List String} (hleft : left ≠ []) (hright : right ≠ [])
    (hleft_parts : ∀ part ∈ left, '/' ∉ part.toList)
    (hright_parts : ∀ part ∈ right, '/' ∉ part.toList)
    (heq : String.intercalate "/" left = String.intercalate "/" right) : left = right := by
  have hsplit : ∀ {parts : List String}, parts ≠ [] → (∀ part ∈ parts, '/' ∉ part.toList) →
      (String.intercalate "/" parts).toList.splitOn '/' = parts.map String.toList := by
    intro parts hne hparts
    rw [String.toList_intercalate]
    exact List.splitOn_intercalate '/' (by simpa using hparts) (by simpa using hne)
  have hmap : left.map String.toList = right.map String.toList := by
    rw [← hsplit hleft hleft_parts, heq, hsplit hright hright_parts]
  exact List.map_injective_iff.mpr (fun _ _ => String.toList_injective) hmap

theorem textOf_map_bytes (parts : List String) :
    textOf (parts.map Text.bytes) = String.intercalate "/" parts := by
  simp [textOf, Function.comp_def]

theorem textOf_singleton (name : FileName) : textOf [name] = Text.ofBytes name :=
  String.intercalate_singleton

theorem textOf_cons_cons (name next : FileName) (more : List FileName) :
    textOf (name :: next :: more) = Text.ofBytes name ++ "/" ++ textOf (next :: more) :=
  String.intercalate_cons_cons

/-- Names that are read without a replacement are UTF-8. -/
theorem isUtf8_of_not_mem_textOf (htext : Text.replacement ∉ (textOf names).toList) :
    ∀ name ∈ names, Text.IsUtf8 name := by
  induction names with
  | nil => simp
  | cons name rest ih =>
      cases rest with
      | nil =>
          rw [textOf_singleton] at htext
          exact List.forall_mem_singleton.mpr (Text.isUtf8_of_not_mem htext)
      | cons next more =>
          rw [textOf_cons_cons, String.toList_append, String.toList_append, List.mem_append,
            List.mem_append, not_or, not_or] at htext
          exact List.forall_mem_cons.mpr ⟨Text.isUtf8_of_not_mem htext.1.1, ih htext.2⟩

theorem textOf_map_asRead (names : List FileName) : textOf (names.map asRead) = textOf names := by
  simp [textOf, asRead, Function.comp_def]

/-- The text of a path, written in bytes, is the path of the names as they are read. -/
theorem bytes_textOf (names : List FileName) :
    Text.bytes (textOf names) = ofNames (names.map asRead) := by
  induction names with
  | nil => rfl
  | cons name rest ih =>
      cases rest with
      | nil =>
          rw [textOf_singleton, List.map_singleton, ofNames, List.intercalate_singleton, asRead]
      | cons next more =>
          have hslash : Text.bytes "/" = [slash] := by decide
          rw [textOf_cons_cons, Text.bytes_append, Text.bytes_append, hslash, ih, List.append_assoc,
            List.singleton_append]
          exact (ofNames_cons_cons (asRead name) (asRead next) (more.map asRead)).symm

theorem isAbsolute_textOf (hnames : ∀ name ∈ names, IsPart name) :
    isAbsolute (textOf names) = false := by
  rw [bytes_textOf]
  exact isAbsolute_ofNames (List.forall_mem_map.mpr fun name hname => (hnames name hname).asRead)

theorem textOf_ne_empty (hne : names ≠ []) (hnames : ∀ name ∈ names, IsPart name) :
    textOf names ≠ "" := by
  intro hempty
  have hbytes : ofNames (names.map asRead) = [] := by
    rw [← bytes_textOf, hempty]
    rfl
  have hparts : parts (ofNames (names.map asRead)) = names.map asRead :=
    parts_ofNames (by simpa using hne)
      (List.forall_mem_map.mpr fun name hname => (hnames name hname).asRead.no_slash)
  rw [hbytes] at hparts
  obtain ⟨name, rest, rfl⟩ := List.exists_cons_of_ne_nil hne
  exact (hnames name List.mem_cons_self).asRead.ne_empty (List.cons.inj hparts).1.symm

/-- Paths with the same text have names that are read alike. -/
theorem map_ofBytes_eq_of_textOf_eq {left right : List FileName}
    (hleft : ∀ name ∈ left, IsPart name) (hright : ∀ name ∈ right, IsPart name)
    (heq : textOf left = textOf right) : left.map Text.ofBytes = right.map Text.ofBytes := by
  by_cases hnone : left = []
  · subst hnone
    have hright_nil : right = [] := by
      by_contra hne
      exact textOf_ne_empty hne hright heq.symm
    rw [hright_nil]
  by_cases hnone' : right = []
  · subst hnone'
    exact absurd heq (textOf_ne_empty hnone hleft)
  exact eq_of_intercalate_eq (by simpa using hnone) (by simpa using hnone')
    (slash_not_mem_map_ofBytes hleft) (slash_not_mem_map_ofBytes hright) heq

/-- Names that are UTF-8 can be read off the text of their path. -/
theorem eq_of_textOf_eq {left right : List FileName} (hleft : ∀ name ∈ left, IsPart name)
    (hright : ∀ name ∈ right, IsPart name) (hleft_utf8 : ∀ name ∈ left, Text.IsUtf8 name)
    (hright_utf8 : ∀ name ∈ right, Text.IsUtf8 name) (heq : textOf left = textOf right) :
    left = right := by
  have hread := congrArg (List.map Text.bytes) (map_ofBytes_eq_of_textOf_eq hleft hright heq)
  rw [List.map_map, List.map_map] at hread
  calc
    left = left.map asRead := (map_asRead_of_isUtf8 hleft_utf8).symm
    _ = right.map asRead := hread
    _ = right := map_asRead_of_isUtf8 hright_utf8

end FilePath

namespace Search

variable (s : Search) {names : List FileName}

/-- The path of a walk is what its names make behind the root. -/
theorem fullPath_eq (hne : names ≠ []) (hnames : ∀ name ∈ names, ProperName name) :
    s.fullPath names = FilePath.join s.root (FilePath.ofNames names) :=
  FilePath.foldl_join hne (fun name hname => (hnames name hname).isPart) _

theorem fullPath_concat (above : List FileName) (name : FileName) :
    s.fullPath (above ++ [name]) = FilePath.join (s.fullPath above) name := by
  rw [fullPath, fullPath, List.foldl_append, List.foldl_cons, List.foldl_nil]

theorem fullPath_ne_nil (hroot : s.root ≠ []) (hnames : ∀ name ∈ names, FilePath.IsPart name) :
    s.fullPath names ≠ [] := by
  rcases List.eq_nil_or_concat' names with rfl | ⟨above, name, rfl⟩
  · exact hroot
  · have hname := hnames name (by simp)
    rw [fullPath_concat, FilePath.join_eq hname.isAbsolute]
    exact List.append_ne_nil_of_right_ne_nil _ hname.ne_empty

/-- The path of a walk is shown by its names. -/
theorem relativePath_fullPath (hnames : ∀ name ∈ names, ProperName name) :
    s.relativePath (s.fullPath names) = FilePath.textOf names :=
  FilePath.relativeText_foldl_join hnames s.root

/-- The text of a walk's path leads by the names as they are read. -/
theorem join_textOf (hne : names ≠ []) (hnames : ∀ name ∈ names, ProperName name) :
    FilePath.join s.root (FilePath.textOf names) = s.fullPath (names.map FilePath.asRead) := by
  rw [FilePath.bytes_textOf, fullPath, FilePath.foldl_join (by simpa using hne)]
  exact List.forall_mem_map.mpr fun name hname =>
    (hnames name hname).isPart.asRead

end Search

end Shipment
