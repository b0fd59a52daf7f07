import Shipment.Json.Printer
import Shipment.Proofs.Json.Numbers
import Shipment.Proofs.Json.WellFormed
import Shipment.Proofs.Number.Integer64

/-!
# What a written value says

A value can be read from its compact text and from its pretty text: both are texts
of the same tree, in which nothing of the value is missing.  Values with the same
tree are the same.
-/

namespace Shipment.Json

open Grammar

/-- The tree is the value: the same strings, the same items in their order, the same
keys and each of them once, the digits of an integer, and for a double a token that
is read as it and is no integer token. -/
inductive Shows : Json → TextTree → Prop
  | null : Shows null .null
  | bool (b : Bool) : Shows (bool b) (.bool b)
  | integer (n : Integer64) : Shows (number (.integer n)) (.number (Number.integerText n.toInt))
  | float {x : Binary64} {token : List Char} (hnumber : IsNumber token)
      (hinteger : ¬IsInteger token) (hread : Binary64.readDecimal? token = some x) :
      Shows (number (.float x)) (.number token)
  | string (s : String) : Shows (string s) (.string s)
  | array {items : List Json} {trees : List TextTree} (hitems : List.Forall₂ Shows items trees) :
      Shows (array items) (.array trees)
  | object {fields : List (String × Json)} {members : List (String × TextTree)}
      (hkeys : members.map (·.1) = fields.map (·.1)) (hnodup : (members.map (·.1)).Nodup)
      (hvalues : List.Forall₂ Shows (fields.map (·.2)) (members.map (·.2))) :
      Shows (object fields) (.object members)

/-! ## Strings -/

/-- A character is written with a letter, as a number, or as it is. -/
theorem escapedChar_cases (c : Char) :
    (∃ letter, escapedChar c = ['\\', letter] ∧ escapeLetter? letter = some c) ∨
      (c.toNat < 0x20 ∧ escapedChar c =
        ['\\', 'u', '0', '0', Text.hexDigit (c.toNat / 16), Text.hexDigit (c.toNat % 16)]) ∨
      (0x20 ≤ c.toNat ∧ c ≠ '"' ∧ c ≠ '\\' ∧ escapedChar c = [c]) := by
  unfold escapedChar
  iterate 7
    split
    · exact Or.inl ⟨_, rfl, by subst_vars; rfl⟩
  split
  · next hcontrol => exact Or.inr (Or.inl ⟨hcontrol, rfl⟩)
  · next hcontrol => exact Or.inr (Or.inr ⟨not_lt.mp hcontrol, ‹_›, ‹_›, rfl⟩)

theorem readsChars_escapedChar {text chars rest : List Char} (c : Char)
    (hmore : ReadsChars text chars rest) :
    ReadsChars (escapedChar c ++ text) (c :: chars) rest := by
  rcases escapedChar_cases c with ⟨letter, heq, hletter⟩ | ⟨hcontrol, heq⟩ |
    ⟨hcontrol, hquote, hbackslash, heq⟩
  · rw [heq]
    exact .letter hletter hmore
  · have hunit : ∀ n < 32, unit? '0' '0' (Text.hexDigit (n / 16)) (Text.hexDigit (n % 16)) =
        some n := by decide
    have hread := ReadsChars.unit (hunit c.toNat hcontrol) (Or.inl (by omega)) hmore
    rw [Char.ofNat_toNat] at hread
    rw [heq]
    exact hread
  · rw [heq]
    exact .plain hcontrol hquote hbackslash hmore

theorem readsChars_flatMap (chars rest : List Char) :
    ReadsChars (chars.flatMap escapedChar ++ '"' :: rest) chars rest := by
  induction chars with
  | nil => exact .close rest
  | cons c more ih =>
      rw [List.flatMap_cons, List.append_assoc]
      exact readsChars_escapedChar c ih

/-! ## Lists -/

/-- Elements behind others, each after a comma and a gap, and what ends the list. -/
def followed {α : Type} (gap ending : List Char) (write : α → List Char) : List α → List Char
  | [] => ending
  | a :: rest => ',' :: (gap ++ write a ++ followed gap ending write rest)

/-- The elements of a list up to its closing character, which an empty list has at once. -/
def listed {α : Type} (gap blank : List Char) (closing : Char) (write : α → List Char) :
    List α → List Char
  | [] => [closing]
  | a :: rest => gap ++ write a ++ followed gap (blank ++ [closing]) write rest

/-- A key, what stands around its colon, and the value. -/
def memberText (colon : List Char) (write : Json → List Char) (field : String × Json) : List Char :=
  stringText field.1 ++ colon ++ write field.2

theorem compactItems_eq (items : List Json) :
    compactItems items = followed [] [']'] compactText items := by
  induction items with
  | nil => rfl
  | cons item rest ih => simp [compactItems, followed, ih]

theorem compactFields_eq (fields : List (String × Json)) :
    compactFields fields = followed [] ['\x7d'] (memberText [':'] compactText) fields := by
  induction fields with
  | nil => rfl
  | cons field rest ih => simp [compactFields, followed, memberText, ih]

theorem prettyItems_eq (level : Nat) (items : List Json) :
    prettyItems level items =
      followed (newLine (level + 1)) (newLine level ++ [']']) (prettyText (level + 1)) items := by
  induction items with
  | nil => rfl
  | cons item rest ih => simp [prettyItems, followed, ih]

theorem prettyFields_eq (level : Nat) (fields : List (String × Json)) :
    prettyFields level fields =
      followed (newLine (level + 1)) (newLine level ++ ['\x7d'])
        (memberText [':', ' '] (prettyText (level + 1))) fields := by
  induction fields with
  | nil => rfl
  | cons field rest ih => simp [prettyFields, followed, memberText, ih]

theorem compactText_array (items : List Json) :
    compactText (array items) = '[' :: listed [] [] ']' compactText items := by
  cases items <;> simp [compactText, listed, compactItems_eq]

theorem compactText_object (fields : List (String × Json)) :
    compactText (object fields) =
      '\x7b' :: listed [] [] '\x7d' (memberText [':'] compactText) fields := by
  cases fields <;> simp [compactText, listed, memberText, compactFields_eq]

theorem prettyText_array (level : Nat) (items : List Json) :
    prettyText level (array items) =
      '[' :: listed (newLine (level + 1)) (newLine level) ']' (prettyText (level + 1)) items := by
  cases items <;> simp [prettyText, listed, prettyItems_eq]

theorem prettyText_object (level : Nat) (fields : List (String × Json)) :
    prettyText level (object fields) =
      '\x7b' :: listed (newLine (level + 1)) (newLine level) '\x7d'
        (memberText [':', ' '] (prettyText (level + 1))) fields := by
  cases fields <;> simp [prettyText, listed, memberText, prettyFields_eq]

variable {α β : Type} {ReadsOne : List Char → β → List Char → Prop} {gap blank : List Char}
  {closing : Char} {write : α → List Char}

/-- The rules read what is written for the element, whatever follows it. -/
def Readable (ReadsOne : List Char → β → List Char → Prop) (write : α → List Char) (a : α) (b : β) :
    Prop :=
  ∀ rest, ReadsOne (write a ++ rest) b rest

theorem isBlank_nil : IsBlank [] := by
  rintro c ⟨⟩

theorem isMark_cons (c : Char) (hgap : IsBlank gap) : IsMark c (c :: gap) :=
  .mark isBlank_nil hgap

theorem readsList_followed (hgap : IsBlank gap) (hblank : IsBlank blank) {a : α} {b : β}
    {elements : List α} {read : List β} (hfirst : Readable ReadsOne write a b)
    (hmore : List.Forall₂ (Readable ReadsOne write) elements read) (rest : List Char) :
    ReadsList closing ReadsOne
      (write a ++ followed gap (blank ++ [closing]) write elements ++ rest) (b :: read) rest := by
  induction hmore generalizing a b with
  | nil =>
      apply ReadsList.last _ hblank
      simpa [followed] using hfirst (blank ++ closing :: rest)
  | cons hsecond _ ih =>
      apply ReadsList.more _ (isMark_cons ',' hgap) (ih hsecond)
      simpa [followed] using hfirst _

theorem readsBody_listed (hgap : IsBlank gap) (hblank : IsBlank blank)
    {elements : List α} {read : List β}
    (helements : List.Forall₂ (Readable ReadsOne write) elements read) (rest : List Char) :
    ReadsBody closing ReadsOne (listed gap blank closing write elements ++ rest) read rest := by
  cases helements with
  | nil => exact .empty isBlank_nil rest
  | @cons a b elements read hfirst hmore =>
      have hlist : ReadsList closing ReadsOne
          (write a ++ followed gap (blank ++ [closing]) write elements ++ rest) (b :: read) rest :=
        readsList_followed hgap hblank hfirst hmore rest
      simpa [listed] using ReadsBody.list hgap hlist

theorem readable_memberText {key : String} {value : Json} {tree : TextTree}
    {write : Json → List Char} {colon : List Char} (hcolon : IsMark ':' colon) (hvalue : Readable Reads write value tree) :
    Readable (ReadsMember Reads) (memberText colon write) (key, value) (key, tree) := by
  intro rest
  have hkey := readsChars_flatMap key.toList (colon ++ (write value ++ rest))
  have hmember := ReadsMember.member hkey hcolon (hvalue rest)
  rw [String.ofList_toList] at hmember
  simpa [memberText, stringText] using hmember

theorem isBlank_newLine (level : Nat) : IsBlank (newLine level) := by
  refine List.forall_mem_cons.mpr ⟨rfl, fun c hc => ?_⟩
  rw [List.eq_of_mem_replicate hc]
  rfl

/-! ## Values -/

/-- The tree is the value, and both texts of the value are read as it. -/
structure Written (value : Json) (tree : TextTree) : Prop where
  shows : Shows value tree
  compact : Readable Reads compactText value tree
  pretty : ∀ level, Readable Reads (prettyText level) value tree

theorem written_scalar {value : Json} {tree : TextTree} (hshows : Shows value tree)
    (hcompact : compactText value = scalarText value)
    (hpretty : ∀ level, prettyText level value = scalarText value)
    (hscalar : ∀ rest, Reads (scalarText value ++ rest) tree rest) : Written value tree :=
  ⟨hshows, fun rest => hcompact ▸ hscalar rest, fun level rest => hpretty level ▸ hscalar rest⟩

theorem written_array {items : List Json} {trees : List TextTree}
    (hitems : List.Forall₂ Written items trees) : Written (array items) (.array trees) := by
  refine ⟨.array (hitems.imp fun _ _ h => h.shows), fun rest => ?_, fun level rest => ?_⟩
  · rw [compactText_array]
    exact .array (readsBody_listed isBlank_nil isBlank_nil (hitems.imp fun _ _ h => h.compact) rest)
  · rw [prettyText_array]
    exact .array (readsBody_listed (isBlank_newLine _) (isBlank_newLine _)
      (hitems.imp fun _ _ h => h.pretty _) rest)

/-- A field is written as the member with its key. -/
def WrittenField (field : String × Json) (member : String × TextTree) : Prop :=
  field.1 = member.1 ∧ Written field.2 member.2

theorem written_object {fields : List (String × Json)} {members : List (String × TextTree)}
    (hordered : Fields.Ordered fields) (hfields : List.Forall₂ WrittenField fields members) :
    Written (object fields) (.object members) := by
  have hmember : ∀ {colon write}, IsMark ':' colon →
      (∀ value tree, Written value tree → Readable Reads write value tree) →
      List.Forall₂ (Readable (ReadsMember Reads) (memberText colon write)) fields members := by
    intro colon write hcolon hwrite
    refine hfields.imp ?_
    rintro ⟨key, value⟩ ⟨_, tree⟩ ⟨rfl, hvalue⟩
    exact readable_memberText hcolon (hwrite value tree hvalue)
  have hkeys : members.map (·.1) = fields.map (·.1) := by
    rw [← List.forall₂_eq_eq_eq, List.forall₂_map_left_iff, List.forall₂_map_right_iff]
    exact hfields.flip.imp fun _ _ h => h.1.symm
  have hnodup : (members.map (·.1)).Nodup := by
    rw [hkeys, List.Nodup, List.pairwise_map]
    exact hordered.imp fun h => ne_of_lt h
  have hvalues : List.Forall₂ Shows (fields.map (·.2)) (members.map (·.2)) := by
    rw [List.forall₂_map_left_iff, List.forall₂_map_right_iff]
    exact hfields.imp fun _ _ h => h.2.shows
  refine ⟨.object hkeys hnodup hvalues, fun rest => ?_, fun level rest => ?_⟩
  · rw [compactText_object]
    exact .object (readsBody_listed isBlank_nil isBlank_nil
      (hmember (isMark_cons ':' isBlank_nil) fun _ _ h => h.compact) rest)
  · rw [prettyText_object]
    exact .object (readsBody_listed (isBlank_newLine _) (isBlank_newLine _)
      (hmember (isMark_cons ':' (by simp [IsBlank, isSpace])) fun _ _ h => h.pretty _) rest)

/-- A well-formed value is written, in both forms, as a tree that shows it. -/
theorem exists_written {value : Json} (hvalue : WellFormed value) : ∃ tree, Written value tree := by
  induction hvalue with
  | null => exact ⟨_, written_scalar .null rfl (fun _ => rfl) .null⟩
  | bool b =>
      refine ⟨_, written_scalar (.bool b) (by simp [compactText]) (by simp [prettyText]) ?_⟩
      cases b
      · exact .boolFalse
      · exact .boolTrue
  | integer n =>
      exact ⟨_, written_scalar (.integer n) rfl (fun _ => rfl)
        (.number (isInteger_integerText n.toInt).isNumber)⟩
  | float hfinite =>
      exact ⟨_, written_scalar (.float (isNumber_render _ hfinite) (not_isInteger_render _ hfinite)
        (readDecimal?_render _ hfinite)) rfl (fun _ => rfl) (.number (isNumber_render _ hfinite))⟩
  | string s =>
      refine ⟨_, written_scalar (.string s) rfl (fun _ => rfl) fun rest => ?_⟩
      have hread := Reads.string (readsChars_flatMap s.toList rest)
      rw [String.ofList_toList] at hread
      simp only [scalarText, stringText, List.cons_append, List.append_assoc, List.nil_append]
      exact hread
  | array _ ih =>
      obtain ⟨trees, htrees⟩ := exists_forall₂ ih
      exact ⟨_, written_array htrees⟩
  | object hordered _ ih =>
      have hpartner : ∀ field ∈ _, ∃ member, WrittenField field member := fun field hfield => by
        obtain ⟨tree, htree⟩ := ih field hfield
        exact ⟨(field.1, tree), rfl, htree⟩
      obtain ⟨members, hmembers⟩ := exists_forall₂ hpartner
      exact ⟨_, written_object hordered hmembers⟩

/-! ## The value of a tree -/

theorem toDigits_injective {m n : Nat} (heq : Nat.toDigits 10 m = Nat.toDigits 10 n) : m = n := by
  rw [← Nat.ofDigitChars_ten_toDigits (n := m), heq, Nat.ofDigitChars_ten_toDigits]

theorem integerText_injective {m n : Int} (heq : Number.integerText m = Number.integerText n) :
    m = n := by
  have hsign : ∀ k l, '-' :: Nat.toDigits 10 k ≠ Nat.toDigits 10 l := by
    intro k l hsame
    have hminus := (isDigits_toDigits l).2 '-' (hsame ▸ List.mem_cons_self)
    cases hminus
  unfold Number.integerText at heq
  split at heq <;> split at heq
  · have := toDigits_injective (List.cons.inj heq).2
    omega
  · exact absurd heq (hsign _ _)
  · exact absurd heq.symm (hsign _ _)
  · have := toDigits_injective heq
    omega

/-- Numbers with the same token are the same. -/
theorem number_unique {token : List Char} {value value' : Json}
    (hshows : Shows value (.number token)) (hshows' : Shows value' (.number token)) : value = value' := by
  generalize htree : TextTree.number token = tree at hshows'
  cases hshows with
  | integer n =>
      cases hshows' with
      | integer n' =>
          have hsame := integerText_injective (TextTree.number.inj htree)
          rw [Integer64.toInt_injective hsame]
      | float _ hinteger _ =>
          rw [← TextTree.number.inj htree] at hinteger
          exact absurd (isInteger_integerText n.toInt) hinteger
      | _ => cases htree
  | float _ hinteger hread =>
      cases hshows' with
      | integer n' =>
          rw [TextTree.number.inj htree] at hinteger
          exact absurd (isInteger_integerText n'.toInt) hinteger
      | float _ _ hread' =>
          rw [← TextTree.number.inj htree, hread] at hread'
          rw [Option.some.inj hread']
      | _ => cases htree

/-- A tree shows one value only. -/
theorem Shows.value_unique {tree : TextTree} {value value' : Json} (hshows : Shows value tree)
    (hshows' : Shows value' tree) : value = value' := by
  induction tree using TextTree.induction generalizing value value' with
  | null =>
      cases hshows
      cases hshows'
      rfl
  | bool b =>
      cases hshows
      cases hshows'
      rfl
  | number token => exact number_unique hshows hshows'
  | string s =>
      cases hshows
      cases hshows'
      rfl
  | array trees ih =>
      cases hshows with
      | array hitems =>
          cases hshows' with
          | array hitems' =>
              rw [eq_of_forall₂ hitems hitems' fun tree htree _ _ => ih tree htree]
  | object members ih =>
      cases hshows with
      | @object fields _ hkeys _ hvalues =>
          cases hshows' with
          | @object fields' _ hkeys' _ hvalues' =>
              have hown : ∀ tree ∈ members.map (·.2), ∀ value value', Shows value tree →
                  Shows value' tree → value = value' := by
                intro tree htree value value'
                obtain ⟨member, hmember, rfl⟩ := List.mem_map.mp htree
                exact ih member hmember
              have hsame : fields.map (·.2) = fields'.map (·.2) :=
                eq_of_forall₂ hvalues hvalues' hown
              have hpairs : fields.unzip = fields'.unzip := by
                rw [List.unzip_eq_map, List.unzip_eq_map]
                exact Prod.ext (hkeys.symm.trans hkeys') hsame
              rw [← List.zip_unzip fields, hpairs, List.zip_unzip]

end Shipment.Json
