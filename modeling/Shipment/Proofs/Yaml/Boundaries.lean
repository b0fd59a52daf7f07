import Shipment.Yaml.ScalarText

/-!
# Positions between characters

A cursor has read a front of the text, and the index of its mark counts the bytes of this
front.  So every mark that reading takes, and every fault, is between two characters of the
text.  Each function that reads keeps its cursor so, or stops with such a fault.
-/

namespace Shipment.Yaml

variable {source : List Char} {α β : Type}

/-- The mark stands behind a front of the text and counts its bytes. -/
def Mark.Within (source : List Char) (m : Mark) : Prop :=
  ∃ front, front <+: source ∧ m.index = Text.byteLength front

theorem Mark.within_start : Mark.start.Within source :=
  ⟨[], List.nil_prefix, rfl⟩

/-- The cursor has read a front of the text, and its mark counts the bytes of this front. -/
def Cursor.Within (source : List Char) (c : Cursor) : Prop :=
  ∃ front, source = front ++ c.rest ∧ c.mark.index = Text.byteLength front

/-- Both marks of the token are between characters. -/
def Token.Within (source : List Char) (token : Token) : Prop :=
  token.start.Within source ∧ token.stop.Within source

/-! ## Cursors -/

namespace Cursor

variable {c : Cursor}

theorem within_ofText (source : List Char) : (ofText source).Within source :=
  ⟨[], rfl, rfl⟩

@[grind ←]
theorem Within.mark (h : c.Within source) : c.mark.Within source := by
  obtain ⟨front, hfront, hindex⟩ := h
  exact ⟨front, ⟨c.rest, hfront.symm⟩, hindex⟩

/-- A cursor goes on behind some of the characters that are left. -/
theorem Within.advance (h : c.Within source) (run : List Char) {rest : List Char} {m : Mark}
    (hrest : c.rest = run ++ rest) (hindex : m.index = c.mark.index + Text.byteLength run) :
    (⟨rest, m⟩ : Cursor).Within source := by
  obtain ⟨front, hfront, hcount⟩ := h
  refine ⟨front ++ run, ?_, ?_⟩
  · rw [hfront, hrest, List.append_assoc]
  · rw [hindex, hcount, Text.byteLength_append]

@[grind ←]
theorem Within.skip (h : c.Within source) (n : Nat) : (c.skip n).Within source :=
  h.advance (c.rest.take n) (List.take_append_drop n c.rest).symm rfl

@[grind ←]
theorem Within.skipWhile (h : c.Within source) (p : Char → Bool) :
    (c.skipWhile p).Within source :=
  h.skip _

@[grind ←]
theorem Within.takeWhile (h : c.Within source) (p : Char → Bool) :
    (c.takeWhile p).2.Within source :=
  h.skip _

@[grind ←]
theorem Within.takeBreak (h : c.Within source) : c.takeBreak.2.Within source := by
  have hone : ∀ {b rest}, c.rest = b :: rest →
      (⟨rest, c.mark.nextLine b.utf8Size⟩ : Cursor).Within source := by
    intro b rest hrest
    exact h.advance [b] hrest (by simp [Mark.nextLine])
  unfold Cursor.takeBreak
  split
  · next rest hrest => exact h.advance ['\r', '\n'] hrest (by simp [Mark.nextLine]; rfl)
  · next b rest _ hrest =>
      split
      · exact hone hrest
      · split
        · exact hone hrest
        · exact h
  · exact h

@[grind ←]
theorem Within.skipBreak (h : c.Within source) : c.skipBreak.Within source :=
  h.takeBreak

@[grind ←]
theorem Within.skipComment (h : c.Within source) : c.skipComment.Within source := by
  unfold Cursor.skipComment
  grind

end Cursor

/-! ## Results and faults -/

/-- The result has a property, or there is a fault between two characters of the text. -/
def Stops (source : List Char) (P : α → Prop) : Except Fault α → Prop
  | .ok a => P a
  | .error fault => fault.mark.Within source

variable {P : α → Prop} {Q : β → Prop}

@[grind =]
theorem stops_ok {a : α} : Stops source P (.ok a) ↔ P a :=
  Iff.rfl

@[grind =]
theorem stops_error {fault : Fault} :
    Stops source P (.error fault) ↔ fault.mark.Within source :=
  Iff.rfl

@[grind =]
theorem stops_fault {c : Cursor} {construct : Construct} {start : Mark} {problem : Problem} :
    Stops source P (c.fault construct start problem) ↔ c.mark.Within source :=
  Iff.rfl

theorem Stops.bind {x : Except Fault α} {f : α → Except Fault β} (h : Stops source P x)
    (hf : ∀ a, P a → Stops source Q (f a)) : Stops source Q (x >>= f) := by
  cases x with
  | ok a => exact hf a h
  | error fault => exact h

theorem Stops.ite {condition : Prop} [Decidable condition] {x y : Except Fault α}
    (hx : Stops source P x) (hy : Stops source P y) :
    Stops source P (if condition then x else y) := by
  split
  · exact hx
  · exact hy

/-! ## Directives, anchors and tags -/

namespace Lexeme

variable {c : Cursor} {start : Mark}

theorem stops_versionNumber (h : c.Within source) :
    Stops source (·.2.Within source) (versionNumber start c) := by
  unfold versionNumber
  grind

theorem stops_version (h : c.Within source) :
    Stops source (·.2.Within source) (version start c) := by
  apply (stops_versionNumber (h.skipWhile _)).bind
  rintro ⟨major, c⟩ h
  dsimp only
  split
  · apply (stops_versionNumber (h.skip 1)).bind
    exact fun _ h => h
  · exact h.mark

theorem stops_tagHandle {inDirective : Bool} (h : c.Within source) :
    Stops source (·.2.Within source) (tagHandle inDirective start c) := by
  unfold tagHandle
  grind

theorem stops_trailingOctets {construct : Construct} {n value : Nat} (h : c.Within source) :
    Stops source (·.2.Within source) (trailingOctets construct start n value c) := by
  induction n generalizing value c with
  | zero => exact h
  | succ n ih =>
      rw [trailingOctets]
      split
      · exact h.mark
      · split
        · exact ih (h.skip 3)
        · exact h.mark

theorem stops_escapedTagChar (construct : Construct) (start : Mark) (h : c.Within source) :
    Stops source (·.2.Within source) (escapedTagChar construct start c) := by
  unfold escapedTagChar
  split
  · exact h.mark
  · split
    · exact h.mark
    · apply (stops_trailingOctets (h.skip 3)).bind
      rintro ⟨n, after⟩ hafter
      dsimp only
      split
      · exact hafter
      · exact hafter

theorem stops_tagChars {verbatim : Bool} {construct : Construct} {fuel : Nat} {found : TagText}
    (h : c.Within source) :
    Stops source (·.2.Within source) (tagChars verbatim construct start fuel found c) := by
  induction fuel generalizing found c with
  | zero => exact h
  | succ fuel ih =>
      have hescaped := stops_escapedTagChar construct start h
      rw [tagChars]
      split
      · exact h
      · split
        · split
          · next heq =>
              rw [heq] at hescaped
              exact hescaped
          · next heq =>
              rw [heq] at hescaped
              exact ih hescaped
          · next heq =>
              rw [heq] at hescaped
              exact ih hescaped
        · split
          · exact ih (h.skip 1)
          · exact h

theorem stops_tagText {verbatim inDirective : Bool} {head : List Char} (h : c.Within source) :
    Stops source (·.2.Within source) (tagText verbatim inDirective head start c) := by
  apply (stops_tagChars h).bind
  rintro ⟨text, after⟩ hafter
  dsimp only
  split
  · exact hafter.mark
  · exact hafter

theorem stops_tagDirective (h : c.Within source) :
    Stops source (·.2.Within source) (tagDirective start c) := by
  apply (stops_tagHandle (h.skipWhile _)).bind
  rintro ⟨handle, c⟩ h
  dsimp only
  split
  · exact h.mark
  · apply (stops_tagText (h.skipWhile _)).bind
    rintro ⟨text, c⟩ h
    dsimp only
    split
    · exact h
    · exact h.mark

/-- A token is read from the cursor on. -/
def StopsAtToken (source : List Char) (x : Except Fault (Token × Cursor)) : Prop :=
  Stops source (fun result => result.1.Within source ∧ result.2.Within source) x

/-- Behind the value of a directive, its line ends. -/
theorem stops_lineEnd (kind : TokenKind) (hstart : start.Within source) (h : c.Within source) :
    StopsAtToken source
      (if c.skipComment.breakOrEnd then .ok (⟨kind, start, c.mark⟩, c.skipComment.skipBreak)
      else c.skipComment.fault .directive start .noLineEnd) := by
  split
  · exact ⟨⟨hstart, h.mark⟩, h.skipComment.skipBreak⟩
  · exact h.skipComment.mark

theorem stops_directive (h : c.Within source) : StopsAtToken source (directive c) := by
  have hname := (h.skip 1).takeWhile isWordChar
  unfold directive
  dsimp only
  split
  · exact hname.mark
  · split
    · exact hname.mark
    · split
      · apply (stops_version hname).bind
        exact fun _ hafter => stops_lineEnd _ h.mark hafter
      · split
        · apply (stops_tagDirective hname).bind
          exact fun _ hafter => stops_lineEnd _ h.mark hafter
        · exact hname.mark

theorem stops_anchor {isAlias : Bool} (h : c.Within source) :
    StopsAtToken source (anchor isAlias c) := by
  have hname := (h.skip 1).takeWhile isWordChar
  unfold anchor
  dsimp only
  split
  · exact hname.mark
  · exact ⟨⟨h.mark, hname.mark⟩, hname⟩

theorem stops_tagParts (h : c.Within source) :
    Stops source (·.2.2.Within source) (tagParts start c) := by
  unfold tagParts
  split
  · apply (stops_tagText (h.skip 2)).bind
    rintro ⟨text, after⟩ hafter
    dsimp only
    split
    · exact hafter.skip 1
    · exact hafter.mark
  · apply (stops_tagHandle h).bind
    rintro ⟨handle, after⟩ hafter
    dsimp only
    split
    · apply (stops_tagText hafter).bind
      exact fun _ h => h
    · apply (stops_tagText hafter).bind
      rintro ⟨text, last⟩ hlast
      dsimp only
      split
      · exact hlast
      · exact hlast

theorem stops_tag {inFlow : Bool} (h : c.Within source) : StopsAtToken source (tag inFlow c) := by
  apply (stops_tagParts h).bind
  rintro ⟨handle, text, after⟩ hafter
  dsimp only
  split
  · exact ⟨⟨h.mark, hafter.mark⟩, hafter⟩
  · exact hafter.mark

end Lexeme

open Lexeme (StopsAtToken)

/-! ## Plain scalars -/

theorem PlainScalar.stops_scan {inFlow : Bool} {indent fuel : Nat} {start : Mark}
    {s : PlainScalar.State} {c : Cursor} (hstop : s.stop.Within source) (h : c.Within source) :
    Stops source (fun result => result.1.stop.Within source ∧ result.2.Within source)
      (scan inFlow indent start fuel s c) := by
  induction fuel generalizing s c with
  | zero => exact ⟨hstop, h⟩
  | succ fuel ih =>
      rw [scan]
      split
      · exact ⟨hstop, h⟩
      · split
        · split
          · exact h.mark
          · exact ih hstop (h.skip 1)
        · split
          · exact ih hstop h.takeBreak
          · split
            · exact ⟨hstop, h⟩
            · split
              · exact h.mark
              · split
                · exact ⟨hstop, h⟩
                · exact ih (h.skip 1).mark (h.skip 1)

theorem stops_plainScalar {inFlow : Bool} {indent : Nat} {c : Cursor} (h : c.Within source) :
    Stops source (fun result => result.1.Within source ∧ result.2.2.Within source)
      (plainScalar inFlow indent c) := by
  apply (PlainScalar.stops_scan h.mark h).bind
  rintro ⟨s, after⟩ ⟨hstop, hafter⟩
  exact ⟨⟨h.mark, hstop⟩, hafter⟩

/-! ## Quoted scalars -/

theorem QuotedScalar.stops_escape (start : Mark) {c : Cursor} (h : c.Within source) :
    Stops source (·.2.Within source) (escape start c) := by
  unfold escape
  split
  · exact h.mark
  · split
    · exact h.skip 2
    · exact h.mark
    · dsimp only
      split
      · exact (h.skip 2).mark
      · split
        · exact (h.skip 2).skip _
        · exact (h.skip 2).mark

theorem QuotedScalar.stops_scan {single : Bool} {fuel : Nat} {start : Mark} {text : List Char}
    {gap : Gap} {c : Cursor} (h : c.Within source) :
    Stops source (·.2.Within source) (scan single start fuel text gap c) := by
  induction fuel generalizing text gap c with
  | zero => exact h.mark
  | succ fuel ih =>
      have hescape := stops_escape start h
      rw [scan]
      split
      · exact h.mark
      · dsimp only
        split
        · exact ih (h.skip 1)
        · split
          · exact ih h.takeBreak
          · split
            · exact h.mark
            · split
              · split
                · split
                  · exact ih (h.skip 2)
                  · exact h.skip 1
                · exact ih (h.skip 1)
              · split
                · exact h.skip 1
                · split
                  · split
                    · exact ih (h.skip 1).skipBreak
                    · split
                      · next heq =>
                          rw [heq] at hescape
                          exact hescape
                      · next heq =>
                          rw [heq] at hescape
                          exact ih hescape
                  · exact ih (h.skip 1)

theorem stops_quotedScalar {single : Bool} {c : Cursor} (h : c.Within source) :
    StopsAtToken source (quotedScalar single c) := by
  apply (QuotedScalar.stops_scan (h.skip 1)).bind
  rintro ⟨text, after⟩ hafter
  exact ⟨⟨h.mark, hafter.mark⟩, hafter⟩

/-! ## Block scalars -/

namespace BlockScalar

variable {start : Mark} {indent fuel : Nat} {c : Cursor}

/-- The blank lines end between characters. -/
def Blanks.Within (source : List Char) (b : Blanks) : Prop :=
  b.stop.Within source ∧ b.cursor.Within source

theorem stops_header (h : c.Within source) :
    Stops source (·.2.2.Within source) (header start c) := by
  unfold header
  grind

theorem stops_skipBlanks {b : Blanks} (h : b.Within source) :
    Stops source (Blanks.Within source) (skipBlanks start indent fuel b) := by
  induction fuel generalizing b with
  | zero => exact h
  | succ fuel ih =>
      obtain ⟨hstop, hcursor⟩ := h
      rw [skipBlanks]
      dsimp only
      -- how much indentation is passed over does not matter
      generalize (if indent = 0 then _ else _ : Nat) = n
      split
      · exact (hcursor.skip n).mark
      · split
        · have hbreak := (hcursor.skip n).takeBreak
          exact ih ⟨hbreak.mark, hbreak⟩
        · exact ⟨hstop, hcursor.skip n⟩

theorem stops_blanksAt (start : Mark) (indent : Nat) (h : c.Within source) :
    Stops source (Blanks.Within source) (blanksAt start indent c) :=
  stops_skipBlanks ⟨h.mark, h⟩

theorem stops_scan {literal : Bool} {s : State} {b : Blanks} (h : b.Within source) :
    Stops source (·.2.Within source) (scan literal start indent fuel s b) := by
  induction fuel generalizing s b with
  | zero => exact h
  | succ fuel ih =>
      have hblanks := stops_blanksAt start indent (h.2.takeWhile (!isBreak ·)).takeBreak
      rw [scan]
      dsimp only
      split
      · exact h
      · split
        · next heq =>
            rw [heq] at hblanks
            exact hblanks
        · next heq =>
            rw [heq] at hblanks
            exact ih hblanks

end BlockScalar

theorem stops_blockScalar {literal : Bool} {parent : Option Nat} {c : Cursor}
    (h : c.Within source) : StopsAtToken source (blockScalar literal parent c) := by
  apply (BlockScalar.stops_header (h.skip 1)).bind
  rintro ⟨chomping, increment, header⟩ hheader
  dsimp only
  split
  · exact hheader.skipComment.mark
  · apply (BlockScalar.stops_blanksAt _ _ hheader.skipComment.skipBreak).bind
    intro blanks hblanks
    apply (BlockScalar.stops_scan hblanks).bind
    rintro ⟨s, b⟩ ⟨hstop, hcursor⟩
    exact ⟨⟨h.mark, hstop⟩, hcursor⟩

end Shipment.Yaml
