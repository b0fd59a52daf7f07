import Mathlib.Data.List.TakeWhile
import Shipment.Proofs.Json.Grammar

/-!
# Unambiguity of JSON

A text says one thing at most.  Blanks and numbers end where the first character
stands that cannot belong to them, so there is one place only at which a token can
end; a value is then told by its first character.
-/

namespace Shipment.Json.Grammar

/-! ## Where a token ends -/

variable {α : Type} {text rest text' rest' token : List Char} {tree tree' : TextTree} {c : Char}

theorem takeWhile_cut {p : Char → Bool} {front back : List Char} (hfront : ∀ c ∈ front, p c = true)
    (hback : ∀ c, back.head? = some c → p c = false) : (front ++ back).takeWhile p = front := by
  rw [List.takeWhile_append_of_pos hfront]
  cases back with
  | nil => simp
  | cons c more => simp [hback c rfl]

theorem dropWhile_cut {p : Char → Bool} {front back : List Char} (hfront : ∀ c ∈ front, p c = true)
    (hback : ∀ c, back.head? = some c → p c = false) : (front ++ back).dropWhile p = back := by
  rw [List.dropWhile_append_of_pos hfront]
  cases back with
  | nil => rfl
  | cons c more => simp [hback c rfl]

/-- Two texts that are cut where a kind of character ends are cut alike. -/
theorem cut_unique {p : Char → Bool} {left right : List Char} (hleft : ∀ c ∈ left, p c = true)
    (hrest : ∀ c, rest.head? = some c → p c = false) (hright : ∀ c ∈ right, p c = true)
    (hrest' : ∀ c, rest'.head? = some c → p c = false) (heq : left ++ rest = right ++ rest') :
    left = right ∧ rest = rest' := by
  constructor
  · rw [← takeWhile_cut hleft hrest, heq, takeWhile_cut hright hrest']
  · rw [← dropWhile_cut hleft hrest, heq, dropWhile_cut hright hrest']

/-- The characters of which numbers are made. -/
def isNumberChar (c : Char) : Bool :=
  c.isDigit || c == '-' || c == '+' || c == '.' || c == 'e' || c == 'E'

/-- A number that ends in front of this text ends nowhere else. -/
def Stops (rest : List Char) : Prop :=
  ∀ c, rest.head? = some c → isNumberChar c = false

theorem isNumberChar_of_isDigit (hc : c.isDigit = true) : isNumberChar c = true := by
  simp [isNumberChar, hc]

theorem IsWhole.isDigit (hwhole : IsWhole token) : ∀ c ∈ token, c.isDigit = true := by
  cases hwhole with
  | zero => exact List.forall_mem_singleton.mpr rfl
  | digits hc _ hrest => exact List.forall_mem_cons.mpr ⟨hc, hrest⟩

theorem IsWhole.ne_nil (hwhole : IsWhole token) : token ≠ [] := by
  cases hwhole <;> simp

theorem IsFraction.isNumberChar (hfraction : IsFraction token) :
    ∀ c ∈ token, isNumberChar c = true := by
  cases hfraction with
  | none => simp
  | digits htext =>
      exact List.forall_mem_cons.mpr ⟨by decide, fun c hc => isNumberChar_of_isDigit (htext.2 c hc)⟩

theorem IsExponent.isNumberChar (hexponent : IsExponent token) :
    ∀ c ∈ token, isNumberChar c = true := by
  have hletter : ∀ {e : Char}, e = 'e' ∨ e = 'E' → Grammar.isNumberChar e = true := by
    rintro e (rfl | rfl) <;> decide
  cases hexponent with
  | none => simp
  | digits he htext =>
      exact List.forall_mem_cons.mpr
        ⟨hletter he, fun c hc => isNumberChar_of_isDigit (htext.2 c hc)⟩
  | signed he hsign htext =>
      refine List.forall_mem_cons.mpr ⟨hletter he, List.forall_mem_cons.mpr ⟨?_, ?_⟩⟩
      · rcases hsign with rfl | rfl <;> decide
      · exact fun c hc => isNumberChar_of_isDigit (htext.2 c hc)

theorem IsNumber.isNumberChar (htoken : IsNumber token) : ∀ c ∈ token, isNumberChar c = true := by
  cases htoken with
  | number hsign hwhole hfraction hexponent =>
      simp only [List.forall_mem_append]
      refine ⟨⟨⟨?_, fun c hc => isNumberChar_of_isDigit (hwhole.isDigit c hc)⟩,
        hfraction.isNumberChar⟩, hexponent.isNumberChar⟩
      rcases hsign with rfl | rfl
      · exact List.forall_mem_nil _
      · exact List.forall_mem_singleton.mpr rfl

/-- A number begins with a minus sign or a digit. -/
theorem IsNumber.head? (htoken : IsNumber token) :
    ∃ c more, token = c :: more ∧ (c = '-' ∨ c.isDigit = true) := by
  cases htoken with
  | number hsign hwhole =>
      rcases hsign with rfl | rfl
      · cases hwhole with
        | zero => exact ⟨_, _, rfl, Or.inr rfl⟩
        | digits hc => exact ⟨_, _, rfl, Or.inr hc⟩
      · exact ⟨_, _, rfl, Or.inl rfl⟩

theorem isNumberChar_of_isSpace (hc : isSpace c = true) : isNumberChar c = false := by
  simp only [isSpace, Bool.or_eq_true, beq_iff_eq] at hc
  rcases hc with ((rfl | rfl) | rfl) | rfl <;> rfl

theorem stops_blank {blank : List Char} (hblank : IsBlank blank) (hrest : Stops rest) :
    Stops (blank ++ rest) := by
  cases blank with
  | nil => exact hrest
  | cons d more =>
      rintro c ⟨⟩
      exact isNumberChar_of_isSpace (hblank d List.mem_cons_self)

theorem stops_cons (hc : isNumberChar c = false) : Stops (c :: rest) := by
  rintro d ⟨⟩
  exact hc

theorem IsMark.stops {mark : List Char} (hmark : IsMark c mark) (hc : isNumberChar c = false) :
    Stops (mark ++ rest) := by
  cases hmark with
  | mark hbefore hafter =>
      rw [List.append_assoc]
      exact stops_blank hbefore (stops_cons hc)

/-! ## Unambiguity -/

theorem ReadsChars.unique {chars chars' : List Char} (hchars : ReadsChars text chars rest)
    (hchars' : ReadsChars text chars' rest') : chars = chars' ∧ rest = rest' := by
  induction hchars generalizing chars' with
  | close =>
      cases hchars' with
      | close => exact ⟨rfl, rfl⟩
      | plain _ hquote => exact absurd rfl hquote
  | plain hcontrol hquote hbackslash hmore ih =>
      cases hchars' with
      | close => exact absurd rfl hquote
      | plain _ _ _ hmore' =>
          obtain ⟨rfl, rfl⟩ := ih hmore'
          exact ⟨rfl, rfl⟩
      | _ => exact absurd rfl hbackslash
  | letter hletter hmore ih =>
      cases hchars' with
      | plain _ _ hbackslash => exact absurd rfl hbackslash
      | letter hletter' hmore' =>
          obtain ⟨rfl, rfl⟩ := ih hmore'
          cases hletter.symm.trans hletter'
          exact ⟨rfl, rfl⟩
      | _ => cases hletter
  | unit hunit hscalar hmore ih =>
      cases hchars' with
      | plain _ _ hbackslash => exact absurd rfl hbackslash
      | letter hletter => cases hletter
      | unit hunit' _ hmore' =>
          obtain ⟨rfl, rfl⟩ := ih hmore'
          cases hunit.symm.trans hunit'
          exact ⟨rfl, rfl⟩
      | pair hhigh hrange =>
          cases hunit.symm.trans hhigh
          omega
  | pair hhigh hhighRange hlow hlowRange hmore ih =>
      cases hchars' with
      | plain _ _ hbackslash => exact absurd rfl hbackslash
      | letter hletter => cases hletter
      | unit hunit hscalar _ =>
          cases hhigh.symm.trans hunit
          omega
      | pair hhigh' _ hlow' _ hmore' =>
          obtain ⟨rfl, rfl⟩ := ih hmore'
          cases hhigh.symm.trans hhigh'
          cases hlow.symm.trans hlow'
          exact ⟨rfl, rfl⟩

/-- The text does not begin with a blank. -/
def Flush (text : List Char) : Prop :=
  ∀ c, text.head? = some c → isSpace c = false

theorem flush_cons (hc : isSpace c = false) : Flush (c :: rest) := by
  rintro d ⟨⟩
  exact hc

/-- Behind blanks, the same text goes on from the first character that is none. -/
theorem blank_unique {blank blank' : List Char} (hblank : IsBlank blank) (hblank' : IsBlank blank')
    (hrest : Flush rest) (hrest' : Flush rest') (heq : blank ++ rest = blank' ++ rest') :
    rest = rest' :=
  (cut_unique hblank hrest hblank' hrest' heq).2

theorem IsMark.append_eq {mark : List Char} (hmark : IsMark c mark) (rest : List Char) :
    ∃ before after, IsBlank before ∧ IsBlank after ∧
      mark ++ rest = before ++ c :: (after ++ rest) := by
  cases hmark with
  | mark hbefore hafter => exact ⟨_, _, hbefore, hafter, by simp⟩

/-- Behind blanks, the same text goes on with the same character and the same rest. -/
theorem next_unique {before before' : List Char} {c c' : Char} (hbefore : IsBlank before)
    (hbefore' : IsBlank before') (hc : isSpace c = false) (hc' : isSpace c' = false)
    (heq : before ++ c :: rest = before' ++ c' :: rest') : c = c' ∧ rest = rest' := by
  have htail := blank_unique hbefore hbefore' (flush_cons hc) (flush_cons hc') heq
  exact ⟨(List.cons.inj htail).1, (List.cons.inj htail).2⟩

theorem IsMark.unique {mark mark' : List Char} (hmark : IsMark c mark) (hmark' : IsMark c mark')
    (hc : isSpace c = false) (hrest : Flush rest) (hrest' : Flush rest')
    (heq : mark ++ rest = mark' ++ rest') : rest = rest' := by
  obtain ⟨before, after, hbefore, hafter, hsplit⟩ := hmark.append_eq rest
  obtain ⟨before', after', hbefore', hafter', hsplit'⟩ := hmark'.append_eq rest'
  rw [hsplit, hsplit'] at heq
  exact blank_unique hafter hafter' hrest hrest' (next_unique hbefore hbefore' hc hc heq).2

/-- What the rules read as this one thing, they read as nothing else. -/
def Determined (ReadsOne : List Char → α → List Char → Prop) (a : α) : Prop :=
  ∀ ⦃text rest rest' : List Char⦄ ⦃a' : α⦄, ReadsOne text a rest → ReadsOne text a' rest' →
    Stops rest → Stops rest' → a = a' ∧ rest = rest'

variable {ReadsOne : List Char → α → List Char → Prop}

theorem ReadsList.flush {closing : Char} {elements : List α}
    (hflush : ∀ text a rest, ReadsOne text a rest → Flush text)
    (hread : ReadsList closing ReadsOne text elements rest) : Flush text := by
  cases hread with
  | last helement => exact hflush _ _ _ helement
  | more helement => exact hflush _ _ _ helement

/-- A character that closes a list stands for nothing else behind an element. -/
structure Closes (closing : Char) : Prop where
  space : isSpace closing = false
  number : isNumberChar closing = false
  comma : closing ≠ ','

variable {closing : Char}

theorem Closes.stops (hcloses : Closes closing) {blank : List Char} (hblank : IsBlank blank)
    {rest : List Char} : Stops (blank ++ closing :: rest) :=
  stops_blank hblank (stops_cons hcloses.number)

theorem Closes.ne_mark (hcloses : Closes closing) {blank mark : List Char} (hblank : IsBlank blank)
    (hmark : IsMark ',' mark) : blank ++ closing :: rest ≠ mark ++ rest' := by
  intro heq
  obtain ⟨before, after, hbefore, -, hsplit⟩ := hmark.append_eq rest'
  exact hcloses.comma (next_unique hblank hbefore hcloses.space rfl (heq.trans hsplit)).1

theorem ReadsList.unique {elements elements' : List α}
    (hflush : ∀ text a rest, ReadsOne text a rest → Flush text) (hcloses : Closes closing)
    (hdetermined : ∀ element ∈ elements, Determined ReadsOne element)
    (hread : ReadsList closing ReadsOne text elements rest)
    (hread' : ReadsList closing ReadsOne text elements' rest') :
    elements = elements' ∧ rest = rest' := by
  have hcomma : ∀ {mark between}, IsMark ',' mark → Stops (mark ++ between) :=
    fun hmark => hmark.stops rfl
  induction hread generalizing elements' with
  | last helement hblank =>
      have hown := hdetermined _ List.mem_cons_self
      cases hread' with
      | last helement' hblank' =>
          obtain ⟨rfl, htail⟩ :=
            hown helement helement' (hcloses.stops hblank) (hcloses.stops hblank')
          exact ⟨rfl, (next_unique hblank hblank' hcloses.space hcloses.space htail).2⟩
      | more helement' hmark' =>
          have htail := (hown helement helement' (hcloses.stops hblank) (hcomma hmark')).2
          exact absurd htail (hcloses.ne_mark hblank hmark')
  | more helement hmark hmore ih =>
      obtain ⟨hown, hothers⟩ := List.forall_mem_cons.mp hdetermined
      cases hread' with
      | last helement' hblank' =>
          have htail := (hown helement helement' (hcomma hmark) (hcloses.stops hblank')).2
          exact absurd htail.symm (hcloses.ne_mark hblank' hmark)
      | more helement' hmark' hmore' =>
          obtain ⟨rfl, htail⟩ := hown helement helement' (hcomma hmark) (hcomma hmark')
          obtain rfl := hmark.unique hmark' rfl (hmore.flush hflush) (hmore'.flush hflush) htail
          obtain ⟨rfl, rfl⟩ := ih hothers hmore'
          exact ⟨rfl, rfl⟩

theorem ReadsBody.unique {elements elements' : List α}
    (hflush : ∀ text a rest, ReadsOne text a rest → Flush text)
    (hopen : ∀ more a rest, ¬ReadsOne (closing :: more) a rest) (hcloses : Closes closing)
    (hdetermined : ∀ element ∈ elements, Determined ReadsOne element)
    (hread : ReadsBody closing ReadsOne text elements rest)
    (hread' : ReadsBody closing ReadsOne text elements' rest') :
    elements = elements' ∧ rest = rest' := by
  have hclosing : ∀ {rest : List Char}, Flush (closing :: rest) := flush_cons hcloses.space
  -- what begins with an element does not begin with the closing character
  have hnonempty : ∀ {more elements rest},
      ¬ReadsList closing ReadsOne (closing :: more) elements rest := by
    intro more elements rest hlist
    cases hlist with
    | last helement => exact hopen _ _ _ helement
    | more helement => exact hopen _ _ _ helement
  generalize htext : text = text' at hread'
  cases hread with
  | empty hblank =>
      cases hread' with
      | empty hblank' =>
          exact ⟨rfl, (next_unique hblank hblank' hcloses.space hcloses.space htext).2⟩
      | list hblank' hlist' =>
          obtain rfl := blank_unique hblank hblank' hclosing (hlist'.flush hflush) htext
          exact absurd hlist' hnonempty
  | list hblank hlist =>
      cases hread' with
      | empty hblank' =>
          obtain rfl := blank_unique hblank hblank' (hlist.flush hflush) hclosing htext
          exact absurd hlist hnonempty
      | list hblank' hlist' =>
          obtain rfl :=
            blank_unique hblank hblank' (hlist.flush hflush) (hlist'.flush hflush) htext
          exact hlist.unique hflush hcloses hdetermined hlist'

theorem ReadsMember.flush {member : String × α} (hread : ReadsMember ReadsOne text member rest) :
    Flush text := by
  cases hread with
  | member => exact flush_cons rfl

theorem determined_member {member : String × α}
    (hflush : ∀ text a rest, ReadsOne text a rest → Flush text)
    (hvalue : Determined ReadsOne member.2) : Determined (ReadsMember ReadsOne) member := by
  intro text rest rest' member' hread hread' hstops hstops'
  cases hread with
  | member hkey hcolon hread =>
      cases hread' with
      | member hkey' hcolon' hread' =>
          obtain ⟨rfl, htail⟩ := hkey.unique hkey'
          obtain rfl := hcolon.unique hcolon' rfl (hflush _ _ _ hread) (hflush _ _ _ hread') htail
          obtain ⟨rfl, rfl⟩ := hvalue hread hread' hstops hstops'
          exact ⟨rfl, rfl⟩

/-- The character with which the text of a value begins; a zero stands for all
characters that begin a number. -/
def TextTree.lead : TextTree → Char
  | null => 'n'
  | bool true => 't'
  | bool false => 'f'
  | number _ => '0'
  | string _ => '"'
  | array _ => '['
  | object _ => '\x7b'

theorem Reads.lead (hread : Reads text tree rest) :
    ∃ c more, text = c :: more ∧ isSpace c = false ∧
      (if c = '-' ∨ c.isDigit then '0' else c) = tree.lead := by
  cases hread with
  | number htoken =>
      obtain ⟨c, more, rfl, hc⟩ := htoken.head?
      refine ⟨c, more ++ rest, rfl, ?_, if_pos hc⟩
      have hnumber := htoken.isNumberChar c List.mem_cons_self
      exact Bool.eq_false_iff.mpr fun hspace => by
        rw [isNumberChar_of_isSpace hspace] at hnumber
        cases hnumber
  | _ => exact ⟨_, _, rfl, rfl, rfl⟩

theorem Reads.flush (hread : Reads text tree rest) : Flush text := by
  obtain ⟨c, more, rfl, hspace, -⟩ := hread.lead
  exact flush_cons hspace

theorem not_reads_bracket (more : List Char) (tree : TextTree) (rest : List Char) :
    ¬Reads (']' :: more) tree rest := by
  intro hread
  obtain ⟨c, more', heq, -, hlead⟩ := hread.lead
  obtain ⟨rfl, -⟩ := List.cons.inj heq
  cases tree with
  | bool b => cases b <;> cases hlead
  | _ => cases hlead

/-- Values of one kind; the words have no other kind than themselves. -/
inductive TextTree.Alike : TextTree → TextTree → Prop
  | null : Alike null null
  | bool (b : Bool) : Alike (bool b) (bool b)
  | number (token token' : List Char) : Alike (number token) (number token')
  | string (s s' : String) : Alike (string s) (string s')
  | array (items items' : List TextTree) : Alike (array items) (array items')
  | object (members members' : List (String × TextTree)) : Alike (object members) (object members')

theorem TextTree.alike_of_lead_eq (hlead : tree.lead = tree'.lead) : tree.Alike tree' := by
  rcases tree with _ | (_ | _) | _ | _ | _ | _ <;>
    rcases tree' with _ | (_ | _) | _ | _ | _ | _ <;> first | constructor | cases hlead

/-- Values that are read from the same text are of one kind. -/
theorem Reads.alike (hread : Reads text tree rest) (hread' : Reads text tree' rest') :
    tree.Alike tree' := by
  obtain ⟨c, more, rfl, -, hlead⟩ := hread.lead
  obtain ⟨d, more', heq, -, hlead'⟩ := hread'.lead
  obtain ⟨rfl, -⟩ := List.cons.inj heq
  exact TextTree.alike_of_lead_eq (hlead.symm.trans hlead')

theorem closes_bracket : Closes ']' := ⟨rfl, rfl, by decide⟩

theorem closes_brace : Closes '\x7d' := ⟨rfl, rfl, by decide⟩

theorem reads_null (hread : Reads text .null rest) : text = "null".toList ++ rest := by
  cases hread
  rfl

theorem reads_bool {b : Bool} (hread : Reads text (.bool b) rest) :
    text = (if b then "true" else "false").toList ++ rest := by
  cases hread <;> rfl

theorem reads_number (hread : Reads text (.number token) rest) :
    IsNumber token ∧ text = token ++ rest := by
  cases hread with
  | number htoken => exact ⟨htoken, rfl⟩

theorem reads_string {s : String} (hread : Reads text (.string s) rest) :
    ∃ more chars, text = '"' :: more ∧ s = String.ofList chars ∧ ReadsChars more chars rest := by
  cases hread with
  | string hchars => exact ⟨_, _, rfl, rfl, hchars⟩

theorem reads_array {items : List TextTree} (hread : Reads text (.array items) rest) :
    ∃ more, text = '[' :: more ∧ ReadsBody ']' Reads more items rest := by
  cases hread with
  | array hitems => exact ⟨_, rfl, hitems⟩

theorem reads_object {members : List (String × TextTree)}
    (hread : Reads text (.object members) rest) :
    ∃ more, text = '\x7b' :: more ∧ ReadsBody '\x7d' (ReadsMember Reads) more members rest := by
  cases hread with
  | object hmembers => exact ⟨_, rfl, hmembers⟩

/-- A value is read from the front of a text in one way only. -/
theorem Reads.unique (tree : TextTree) : Determined Reads tree := by
  have hflush : ∀ text tree rest, Reads text tree rest → Flush text := fun _ _ _ h => h.flush
  induction tree using TextTree.induction with
  | null =>
      intro text rest rest' tree' hread hread' _ _
      cases hread.alike hread'
      have heq := (reads_null hread).symm.trans (reads_null hread')
      exact ⟨rfl, List.append_cancel_left heq⟩
  | bool b =>
      intro text rest rest' tree' hread hread' _ _
      cases hread.alike hread'
      have heq := (reads_bool hread).symm.trans (reads_bool hread')
      exact ⟨rfl, List.append_cancel_left heq⟩
  | number token =>
      intro text rest rest' tree' hread hread' hstops hstops'
      cases hread.alike hread'
      obtain ⟨htoken, htext⟩ := reads_number hread
      obtain ⟨htoken', htext'⟩ := reads_number hread'
      obtain ⟨rfl, rfl⟩ := cut_unique htoken.isNumberChar hstops htoken'.isNumberChar hstops'
        (htext.symm.trans htext')
      exact ⟨rfl, rfl⟩
  | string s =>
      intro text rest rest' tree' hread hread' _ _
      cases hread.alike hread'
      obtain ⟨more, chars, rfl, rfl, hchars⟩ := reads_string hread
      obtain ⟨more', chars', hmore, rfl, hchars'⟩ := reads_string hread'
      obtain ⟨-, rfl⟩ := List.cons.inj hmore
      obtain ⟨rfl, rfl⟩ := hchars.unique hchars'
      exact ⟨rfl, rfl⟩
  | array items ih =>
      intro text rest rest' tree' hread hread' _ _
      cases hread.alike hread'
      obtain ⟨more, rfl, hitems⟩ := reads_array hread
      obtain ⟨more', hmore, hitems'⟩ := reads_array hread'
      obtain ⟨-, rfl⟩ := List.cons.inj hmore
      obtain ⟨rfl, rfl⟩ := hitems.unique hflush not_reads_bracket closes_bracket ih hitems'
      exact ⟨rfl, rfl⟩
  | object members ih =>
      intro text rest rest' tree' hread hread' _ _
      cases hread.alike hread'
      obtain ⟨more, rfl, hmembers⟩ := reads_object hread
      obtain ⟨more', hmore, hmembers'⟩ := reads_object hread'
      obtain ⟨-, rfl⟩ := List.cons.inj hmore
      have hdetermined : ∀ member ∈ members, Determined (ReadsMember Reads) member :=
        fun member hmember => determined_member hflush (ih member hmember)
      have hopen : ∀ more member rest, ¬ReadsMember Reads ('\x7d' :: more) member rest := by
        intro more member rest hread
        cases hread
      obtain ⟨rfl, rfl⟩ := hmembers.unique (fun _ _ _ h => h.flush) hopen closes_brace
        hdetermined hmembers'
      exact ⟨rfl, rfl⟩

/-- A text says one thing at most. -/
theorem Says.unique (hsaid : Says text tree) (hsaid' : Says text tree') : tree = tree' := by
  have hstops : ∀ {blank}, IsBlank blank → Stops blank :=
    fun hblank c hc => isNumberChar_of_isSpace (hblank c (List.mem_of_head? hc))
  obtain ⟨before, value, after, htext, hbefore, hvalue, hafter⟩ := hsaid
  obtain ⟨before', value', after', htext', hbefore', hvalue', hafter'⟩ := hsaid'
  obtain rfl := blank_unique hbefore hbefore' hvalue.flush hvalue'.flush (htext.symm.trans htext')
  exact (Reads.unique tree hvalue hvalue' (hstops hafter) (hstops hafter')).1

end Shipment.Json.Grammar
