import Shipment.Proofs.Yaml.Boundaries
import Shipment.Yaml.Tokens

/-!
# Tokens between characters

A scanner that has read a front of the text keeps this: its cursor, its pending keys and the
tokens so far all have their marks between characters.  Each step of the scanner keeps it or
stops at a fault between characters, so every token of a text and its fault stand so.
-/

namespace Shipment.Yaml

open Lexeme (StopsAtToken)

variable {source : List Char}

/-- A token made from the indentation is at one mark. -/
theorem Token.within_at {m : Mark} (kind : TokenKind) (h : m.Within source) :
    Token.Within source ⟨kind, m, m⟩ :=
  ⟨h, h⟩

namespace Scanner

variable {s : Scanner}

/-- All that a scanner remembers is between characters. -/
structure Within (source : List Char) (s : Scanner) : Prop where
  cursor : s.cursor.Within source
  keys : ∀ key, some key ∈ s.keys → key.mark.Within source
  tokens : ∀ token ∈ s.tokens, token.Within source

theorem within_ofText (source : List Char) : (ofText source).Within source where
  cursor := Cursor.within_ofText source
  keys := by simp [ofText]
  tokens := by simp [ofText, Token.Within, Mark.within_start]

/-! ## Putting in tokens -/

theorem Within.mark (h : s.Within source) : s.mark.Within source :=
  h.cursor.mark

theorem Within.emit {token : Token} (h : s.Within source) (htoken : token.Within source) :
    (s.emit token).Within source where
  cursor := h.cursor
  keys := h.keys
  tokens := List.forall_mem_cons.2 ⟨htoken, h.tokens⟩

theorem Within.emitAt {token : Token} (h : s.Within source) (index : Nat)
    (htoken : token.Within source) : (s.emitAt index token).Within source where
  cursor := h.cursor
  keys := h.keys
  tokens := by
    intro other hother
    rcases List.mem_append.1 hother with hbefore | hafter
    · exact h.tokens other (List.mem_of_mem_take hbefore)
    · rcases List.mem_cons.1 hafter with rfl | hafter
      · exact htoken
      · exact h.tokens other (List.mem_of_mem_drop hafter)

theorem Within.emitSigns (h : s.Within source) (kind : TokenKind) (n : Nat) :
    (s.emitSigns kind n).Within source where
  cursor := h.cursor.skip n
  keys := h.keys
  tokens := List.forall_mem_cons.2 ⟨⟨h.mark, (h.cursor.skip n).mark⟩, h.tokens⟩

theorem Within.allow (h : s.Within source) (allowed : Bool) :
    Within source { s with keyAllowed := allowed } :=
  ⟨h.cursor, h.keys, h.tokens⟩

theorem Within.withKeys {keys : List (Option PendingKey)} (h : s.Within source)
    (hkeys : ∀ key, some key ∈ keys → key.mark.Within source) (allowed : Bool) :
    Within source { s with keys := keys, keyAllowed := allowed } :=
  ⟨h.cursor, hkeys, h.tokens⟩

/-- The token of a lexeme is put in and reading goes on behind it. -/
theorem Within.stops_read {x : Except Fault (Token × Cursor)} {allowed : Bool}
    (h : s.Within source) (hx : StopsAtToken source x) :
    Stops source (Within source) (do
      let (token, after) ← x
      .ok { s.emit token with cursor := after, keyAllowed := allowed }) := by
  apply hx.bind
  rintro ⟨token, after⟩ ⟨htoken, hafter⟩
  exact ⟨hafter, h.keys, (h.emit htoken).tokens⟩

/-! ## Pending keys -/

theorem Within.stops_dropStale (h : s.Within source) :
    Stops source (Within source) s.dropStale := by
  unfold dropStale
  dsimp only
  split
  · exact h.mark
  · refine ⟨h.cursor, ?_, h.tokens⟩
    intro key hkey
    obtain ⟨slot, hslot, hfilter⟩ := List.mem_map.1 hkey
    obtain ⟨rfl, -⟩ := Option.filter_eq_some_iff.1 hfilter
    exact h.keys key hslot

theorem Within.stops_dropKey (h : s.Within source) :
    Stops source (Within source) s.dropKey := by
  unfold dropKey
  split
  · next key rest hkeys =>
      split
      · exact h.mark
      · refine ⟨h.cursor, ?_, h.tokens⟩
        intro other hother
        exact h.keys other (hkeys ▸ by simpa using Or.inr hother)
  · exact h

theorem Within.stops_saveKey (h : s.Within source) :
    Stops source (Within source) s.saveKey := by
  unfold saveKey
  split
  · apply h.stops_dropKey.bind
    intro s h
    refine ⟨h.cursor, ?_, h.tokens⟩
    intro key hkey
    rcases List.mem_cons.1 hkey with heq | hkey
    · cases heq
      exact h.mark
    · exact h.keys key (List.mem_of_mem_drop hkey)
  · exact h

/-! ## Block collections -/

theorem Within.closeBlocks {column : Option Nat} {outer : List (Option Nat)}
    (h : s.Within source) : (s.closeBlocks column outer).Within source := by
  induction outer generalizing s with
  | nil => exact ⟨h.cursor, h.keys, h.tokens⟩
  | cons next rest ih =>
      have hclosed := h.emit (Token.within_at .blockEnd h.mark)
      exact iteInduction (motive := Within source)
        (fun _ => ih ⟨hclosed.cursor, hclosed.keys, hclosed.tokens⟩)
        (fun _ => ⟨h.cursor, h.keys, h.tokens⟩)

theorem Within.unroll (h : s.Within source) (column : Option Nat) :
    (s.unroll column).Within source := by
  unfold Scanner.unroll
  split
  · exact h
  · exact h.closeBlocks

theorem Within.roll {m : Mark} (h : s.Within source) (column index : Nat) (kind : TokenKind)
    (hm : m.Within source) : (s.roll column index kind m).Within source := by
  unfold Scanner.roll
  split
  · have hopened := h.emitAt index (Token.within_at kind hm)
    exact ⟨hopened.cursor, hopened.keys, hopened.tokens⟩
  · exact h

/-! ## The next token -/

theorem Within.skipGap {fuel : Nat} (h : s.Within source) : (skipGap fuel s).Within source := by
  induction fuel generalizing s with
  | zero => exact h
  | succ fuel ih =>
      rw [Scanner.skipGap]
      have hmark : (if s.cursor.mark.column == 0 && s.cursor.sees '\ufeff' then s.cursor.skip 1
          else s.cursor).Within source := by
        split
        · exact h.cursor.skip 1
        · exact h.cursor
      have hblank := hmark.skipWhile fun x => x == ' ' || ((s.inFlow || !s.keyAllowed) && x == '\t')
      generalize Cursor.skipWhile _ (if s.cursor.mark.column == 0 && _ then _ else _) = c
        at hblank ⊢
      have hcomment : (if c.sees '#' then c.skipWhile (!isBreak ·) else c).Within source := by
        split
        · exact hblank.skipWhile _
        · exact hblank
      generalize (if c.sees '#' then _ else c : Cursor) = c at hcomment ⊢
      split
      · exact ih ⟨hcomment.skipBreak, h.keys, h.tokens⟩
      · exact ⟨hcomment, h.keys, h.tokens⟩

theorem Within.stops_unrolled (h : s.Within source) :
    Stops source (Within source) (s.unroll none).dropKey :=
  (h.unroll none).stops_dropKey

theorem Within.stops_fetchEnd (h : s.Within source) :
    Stops source (Within source) s.fetchEnd := by
  -- the end of a text that ends within a line is on a line of its own
  have hindex : (if s.mark.column = 0 then s.mark else ⟨s.mark.index, s.mark.line + 1, 0⟩).index
      = s.cursor.mark.index := by
    split <;> rfl
  unfold fetchEnd
  dsimp only
  generalize (if s.mark.column = 0 then s.mark else _ : Mark) = m at hindex ⊢
  have hcursor : (⟨s.cursor.rest, m⟩ : Cursor).Within source :=
    h.cursor.advance [] rfl (by simpa using hindex)
  have hend : { s with cursor := ⟨s.cursor.rest, m⟩ }.Within source :=
    ⟨hcursor, h.keys, h.tokens⟩
  apply hend.stops_unrolled.bind
  intro s h
  exact ⟨h.cursor, h.keys, (h.emit (Token.within_at _ hcursor.mark)).tokens⟩

theorem Within.stops_fetchDirective (h : s.Within source) :
    Stops source (Within source) s.fetchDirective := by
  apply h.stops_unrolled.bind
  exact fun s h => h.stops_read (Lexeme.stops_directive h.cursor)

theorem Within.stops_fetchMarker (h : s.Within source) (kind : TokenKind) :
    Stops source (Within source) (s.fetchMarker kind) := by
  apply h.stops_unrolled.bind
  exact fun s h => (h.emitSigns kind 3).allow false

theorem Within.stops_fetchOpen (h : s.Within source) (kind : TokenKind) :
    Stops source (Within source) (s.fetchOpen kind) := by
  apply h.stops_saveKey.bind
  intro s h
  refine (h.emitSigns kind 1).withKeys ?_ true
  intro key hkey
  exact h.keys key (by simpa using hkey)

theorem Within.stops_fetchClose (h : s.Within source) (kind : TokenKind) :
    Stops source (Within source) (s.fetchClose kind) := by
  apply h.stops_dropKey.bind
  intro s h
  refine (h.emitSigns kind 1).withKeys ?_ false
  intro key hkey
  apply h.keys key
  split at hkey
  · next heq => exact heq ▸ List.mem_cons_of_mem _ hkey
  · exact hkey

theorem Within.stops_fetchFlowEntry (h : s.Within source) :
    Stops source (Within source) s.fetchFlowEntry := by
  apply h.stops_dropKey.bind
  exact fun s h => (h.emitSigns .flowEntry 1).allow true

/-- An indicator of a block collection opens the collection where none is open yet. -/
theorem Within.stops_rolled (h : s.Within source) (kind sign : TokenKind) (allowed : Scanner → Bool) :
    Stops source (Within source) (do
      let s ← (s.roll s.mark.column s.count kind s.mark).dropKey
      .ok { s.emitSigns sign 1 with keyAllowed := allowed s }) := by
  apply (h.roll _ _ kind h.mark).stops_dropKey.bind
  exact fun s h => (h.emitSigns sign 1).allow (allowed s)

theorem Within.stops_fetchBlockEntry (h : s.Within source) :
    Stops source (Within source) s.fetchBlockEntry := by
  unfold fetchBlockEntry
  split
  · exact h.mark
  · exact h.stops_rolled _ _ fun _ => true

theorem Within.stops_fetchKey (h : s.Within source) :
    Stops source (Within source) s.fetchKey := by
  unfold fetchKey
  split
  · exact h.mark
  · exact h.stops_rolled _ _ fun s => !s.inFlow

theorem Within.stops_fetchValue (h : s.Within source) :
    Stops source (Within source) s.fetchValue := by
  unfold fetchValue
  split
  · next key rest hkeys =>
      have hkey := h.keys key (by simp [hkeys])
      have hopened := (h.emitAt key.index (Token.within_at .key hkey)).roll key.mark.column
        key.index .blockMappingStart hkey
      refine (hopened.emitSigns .value 1).withKeys ?_ false
      intro other hother
      exact h.keys other (hkeys ▸ by simpa using Or.inr hother)
  · split
    · exact h.mark
    · have hopened := h.roll s.mark.column s.count .blockMappingStart h.mark
      exact (hopened.emitSigns .value 1).allow _

theorem Within.stops_fetchAnchor (h : s.Within source) (isAlias : Bool) :
    Stops source (Within source) (s.fetchAnchor isAlias) := by
  apply h.stops_saveKey.bind
  exact fun s h => h.stops_read (Lexeme.stops_anchor h.cursor)

theorem Within.stops_fetchTag (h : s.Within source) :
    Stops source (Within source) s.fetchTag := by
  apply h.stops_saveKey.bind
  exact fun s h => h.stops_read (Lexeme.stops_tag h.cursor)

theorem Within.stops_fetchBlockScalar (h : s.Within source) (literal : Bool) :
    Stops source (Within source) (s.fetchBlockScalar literal) := by
  apply h.stops_dropKey.bind
  exact fun s h => h.stops_read (stops_blockScalar h.cursor)

theorem Within.stops_fetchQuotedScalar (h : s.Within source) (single : Bool) :
    Stops source (Within source) (s.fetchQuotedScalar single) := by
  apply h.stops_saveKey.bind
  exact fun s h => h.stops_read (stops_quotedScalar h.cursor)

theorem Within.stops_fetchPlainScalar (h : s.Within source) :
    Stops source (Within source) s.fetchPlainScalar := by
  apply h.stops_saveKey.bind
  intro s h
  apply (stops_plainScalar h.cursor).bind
  rintro ⟨token, lineEnded, after⟩ ⟨htoken, hafter⟩
  exact ⟨hafter, h.keys, (h.emit htoken).tokens⟩

theorem Within.stops_fetchAt (h : s.Within source) (x : Char) :
    Stops source (Within source) (s.fetchAt x) := by
  refine .ite h.stops_fetchDirective ?_
  refine .ite (h.stops_fetchMarker _) ?_
  refine .ite (h.stops_fetchMarker _) ?_
  refine .ite (h.stops_fetchOpen _) ?_
  refine .ite (h.stops_fetchOpen _) ?_
  refine .ite (h.stops_fetchClose _) ?_
  refine .ite (h.stops_fetchClose _) ?_
  refine .ite h.stops_fetchFlowEntry ?_
  refine .ite h.stops_fetchBlockEntry ?_
  refine .ite h.stops_fetchKey ?_
  refine .ite h.stops_fetchValue ?_
  refine .ite (h.stops_fetchAnchor _) ?_
  refine .ite (h.stops_fetchAnchor _) ?_
  refine .ite h.stops_fetchTag ?_
  refine .ite (h.stops_fetchBlockScalar _) ?_
  refine .ite (h.stops_fetchBlockScalar _) ?_
  refine .ite (h.stops_fetchQuotedScalar _) ?_
  refine .ite (h.stops_fetchQuotedScalar _) ?_
  exact .ite h.stops_fetchPlainScalar h.mark

theorem Within.stops_fetch (h : s.Within source) : Stops source (Within source) s.fetch := by
  apply h.skipGap.stops_dropStale.bind
  intro s h
  have hrolled := h.unroll (some s.mark.column)
  dsimp only
  split
  · exact hrolled.stops_fetchEnd
  · exact hrolled.stops_fetchAt _

end Scanner

/-! ## All tokens -/

/-- A reading gives things with a property, up to a fault between characters. -/
def ReadsWithin {α : Type} (source : List Char) (P : α → Prop)
    (reading : List α × Option Fault) : Prop :=
  (∀ a ∈ reading.1, P a) ∧ ∀ fault ∈ reading.2, fault.mark.Within source

theorem Scanner.Within.run {s : Scanner} (fuel ready : Nat) (h : s.Within source) :
    ReadsWithin source (Token.Within source) (run fuel ready s) := by
  have hread : ∀ {s : Scanner}, s.Within source →
      ∀ token ∈ s.tokens.reverse, token.Within source :=
    fun h token htoken => h.tokens token (List.mem_reverse.1 htoken)
  -- a fault cuts off the tokens that are held back
  have hcut : ∀ {s : Scanner} {fault : Fault} (n : Nat), s.Within source →
      fault.mark.Within source →
      ReadsWithin source (Token.Within source) (s.tokens.reverse.take n, some fault) := by
    intro s fault n h hfault
    exact ⟨fun token htoken => hread h token (List.mem_of_mem_take htoken), by simpa using hfault⟩
  induction fuel generalizing ready s with
  | zero => exact ⟨hread h, by simp [Scanner.run]⟩
  | succ fuel ih =>
      have hfresh := h.stops_dropStale
      rw [Scanner.run]
      split
      · next heq =>
          rw [heq] at hfresh
          exact hcut _ h hfresh
      · next fresh heq =>
          rw [heq] at hfresh
          have hnext := Within.stops_fetch hfresh
          dsimp only
          split
          · next heq =>
              rw [heq] at hnext
              exact hcut _ hfresh hnext
          · next next heq =>
              rw [heq] at hnext
              split
              · exact ⟨hread hnext, by simp⟩
              · exact ih _ hnext

/-- Every token of a text is between characters, and so is the fault that ends them. -/
theorem readsWithin_tokens (source : List Char) :
    ReadsWithin source (Token.Within source) (tokens source) := by
  unfold tokens
  split
  · exact (Scanner.within_ofText source).run _ _
  · exact ⟨by simp, by simpa using Mark.within_start⟩

end Shipment.Yaml
