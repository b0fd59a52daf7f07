import Shipment.Proofs.Yaml.TokenBoundaries
import Shipment.Yaml.Grammar

/-!
# Events between characters

The grammar takes its marks from tokens alone.  A machine whose tokens are between characters
steps to an event between characters, and what is left is again such a machine; where it
faults, it is at one of the tokens or at the fault that ended them.
-/

namespace Shipment.Yaml

variable {source : List Char}

namespace Grammar

variable {m : Machine}

/-- What the machine has still to read is between characters. -/
structure Machine.Within (source : List Char) (m : Machine) : Prop where
  tokens : ∀ token ∈ m.tokens, token.Within source
  fault : m.fault.mark.Within source

/-- The event is between characters, and so is what is left after it. -/
structure Outcome.Within (source : List Char) (o : Outcome) : Prop where
  event : ∀ event ∈ o.event, event.2.Within source
  machine : o.machine.Within source

/-- The properties of a node, and its tag, start between characters. -/
structure Properties.Within (source : List Char) (p : Properties) : Prop where
  tag : ∀ tag ∈ p.tag, tag.2.2.Within source
  start : p.start.Within source

/-! ## Reading tokens -/

namespace Machine

theorem Within.stops_pull (h : m.Within source) :
    Stops source (fun r => r.1.Within source ∧ r.2.Within source) m.pull := by
  obtain ⟨htokens, hfault⟩ := h
  unfold pull
  split
  · exact hfault
  · next token rest heq =>
      rw [heq] at htokens
      obtain ⟨htoken, hrest⟩ := List.forall_mem_cons.1 htokens
      exact ⟨htoken, hrest, hfault⟩

theorem Within.stops_look (h : m.Within source) : Stops source (Token.Within source) m.look := by
  unfold look
  split
  · exact h.fault
  · next heq => exact h.tokens _ (heq ▸ List.mem_cons_self)

theorem Within.skip (h : m.Within source) : m.skip.Within source where
  tokens := fun token htoken => h.tokens token (List.mem_of_mem_drop htoken)
  fault := h.fault

theorem Within.push (h : m.Within source) (place : Place) : (m.push place).Within source :=
  ⟨h.tokens, h.fault⟩

theorem Within.opens (h : m.Within source) (mark : Mark) : (m.opens mark).Within source :=
  ⟨h.tokens, h.fault⟩

theorem Within.closes (h : m.Within source) : m.closes.Within source :=
  ⟨h.tokens, h.fault⟩

/-! ## Giving events -/

variable {event : Event} {mark : Mark} {next : Place}

theorem Within.stops_emit (h : m.Within source) (hmark : mark.Within source) :
    Stops source (Outcome.Within source) (m.emit event mark next) :=
  ⟨by simpa using hmark, h⟩

theorem Within.stops_finish (h : m.Within source) (hmark : mark.Within source) :
    Stops source (Outcome.Within source) (m.finish event mark) :=
  Within.stops_emit ⟨h.tokens, h.fault⟩ hmark

theorem Within.stops_missing (h : m.Within source) (hmark : mark.Within source) :
    Stops source (Outcome.Within source) (m.missing mark next) :=
  h.stops_emit hmark

end Machine

/-! ## Nodes -/

theorem stops_properties (h : m.Within source) :
    Stops source (fun r => r.1.Within source ∧ r.2.Within source) (properties m) := by
  apply h.stops_look.bind
  intro first hfirst
  dsimp only
  split
  · apply h.skip.stops_look.bind
    intro second hsecond
    split
    · exact ⟨⟨by simpa using hsecond.1, hfirst.1⟩, h.skip.skip⟩
    · exact ⟨⟨by simp, hfirst.1⟩, h.skip⟩
  · apply h.skip.stops_look.bind
    intro second hsecond
    split
    · exact ⟨⟨by simpa using hfirst.1, hfirst.1⟩, h.skip.skip⟩
    · exact ⟨⟨by simpa using hfirst.1, hfirst.1⟩, h.skip⟩
  · exact ⟨⟨by simp, hfirst.1⟩, h⟩

theorem stops_fullTag {p : Properties} (hp : p.Within source) :
    Stops source (fun _ => True) (fullTag m p) := by
  unfold fullTag
  split
  · trivial
  · next heq =>
      split
      · trivial
      · split
        · trivial
        · exact hp.tag _ heq

theorem stops_nodeOther (block : Bool) (tag : Option TagText) {p : Properties} {token : Token}
    (h : m.Within source) (hp : p.Within source) (htoken : token.Within source) :
    Stops source (Outcome.Within source) (node.other block m p tag token) := by
  unfold node.other
  split
  · exact h.stops_finish hp.start
  · exact htoken.1

theorem stops_node {block indentless : Bool} (h : m.Within source) :
    Stops source (Outcome.Within source) (node block indentless m) := by
  apply h.stops_look.bind
  intro first hfirst
  dsimp only
  split
  · exact h.skip.stops_finish hfirst.1
  · apply (stops_properties h).bind
    rintro ⟨p, m⟩ ⟨hp, h⟩
    apply h.stops_look.bind
    intro token htoken
    apply (stops_fullTag hp).bind
    intro tag _
    have hother := stops_nodeOther block tag h hp htoken
    dsimp only
    split
    · split
      · exact h.stops_emit hp.start
      · exact hother
    · exact h.skip.stops_finish hp.start
    · exact h.stops_emit hp.start
    · exact h.stops_emit hp.start
    · split
      · exact h.stops_emit hp.start
      · exact hother
    · split
      · exact h.stops_emit hp.start
      · exact hother
    · exact hother

/-! ## Documents -/

theorem stops_directives {versioned : Bool} {handles : List (List Char × TagText)}
    {fault : Fault} {tokens : List Token} (hfault : fault.mark.Within source)
    (h : ∀ token ∈ tokens, token.Within source) :
    Stops source (fun r => ∀ token ∈ r.2, token.Within source)
      (directives versioned handles fault tokens) := by
  induction tokens generalizing versioned handles with
  | nil => exact hfault
  | cons token rest ih =>
      obtain ⟨htoken, hrest⟩ := List.forall_mem_cons.1 h
      rw [directives]
      split
      · split
        · exact htoken.1
        · split
          · exact htoken.1
          · exact ih hrest
      · split
        · exact htoken.1
        · exact ih hrest
      · exact h

theorem stops_documentStart {first : Bool} (h : m.Within source) :
    Stops source (Outcome.Within source) (documentStart first m) := by
  have hskipped : ∀ token ∈ m.tokens.dropWhile (·.kind == .documentEnd), token.Within source :=
    fun token htoken => h.tokens token (List.dropWhile_sublist _ |>.mem htoken)
  have htokens : ∀ token ∈ (if first then m.tokens else
      m.tokens.dropWhile (·.kind == .documentEnd)), token.Within source := by
    split
    · exact h.tokens
    · exact hskipped
  have hfresh : { m with tokens := _ }.Within source := ⟨htokens, h.fault⟩
  apply hfresh.stops_look.bind
  intro token htoken
  dsimp only
  split
  · exact ⟨by simp, hfresh⟩
  · apply (stops_directives h.fault htokens).bind
    rintro ⟨handles, tokens⟩ htokens
    have hread : { m with tokens, handles }.Within source := ⟨htokens, h.fault⟩
    dsimp only
    refine iteInduction (motive := Stops source (Outcome.Within source)) (fun _ => ?_)
      (fun _ => (hread.push _).stops_emit htoken.1)
    apply hread.stops_pull.bind
    rintro ⟨marker, m⟩ ⟨hmarker, h⟩
    dsimp only
    split
    · exact hmarker.1
    · exact (h.push _).stops_emit htoken.1

theorem stops_documentContent (h : m.Within source) :
    Stops source (Outcome.Within source) (documentContent m) := by
  apply h.stops_look.bind
  intro token htoken
  split
  · exact h.stops_finish htoken.1
  · exact stops_node h

theorem stops_documentEnd (h : m.Within source) :
    Stops source (Outcome.Within source) (documentEnd m) := by
  apply h.stops_look.bind
  intro token htoken
  refine Machine.Within.stops_emit ⟨?_, h.fault⟩ htoken.1
  dsimp only
  split
  · exact h.skip.tokens
  · exact h.tokens

/-! ## Collections -/

theorem stops_blockEntryNode {ends : TokenKind → Bool} {indentless : Bool} {here next : Place}
    {mark : Mark} (h : m.Within source) (hmark : mark.Within source) :
    Stops source (Outcome.Within source) (blockEntryNode ends indentless here next mark m) := by
  apply h.stops_look.bind
  intro token _
  split
  · exact h.stops_missing hmark
  · exact stops_node (h.push _)

theorem stops_enter {first : Bool} (h : m.Within source) :
    Stops source (Machine.Within source) (enter first m) := by
  unfold enter
  split
  · apply h.stops_pull.bind
    rintro ⟨token, m⟩ ⟨_, h⟩
    exact h.opens _
  · exact h

theorem stops_separator {first : Bool} {construct : Construct} {problem : Problem}
    (h : m.Within source) :
    Stops source (Machine.Within source) (separator first construct problem m) := by
  unfold separator
  split
  · exact h
  · apply h.stops_pull.bind
    rintro ⟨token, rest⟩ ⟨htoken, hrest⟩
    dsimp only
    split
    · exact hrest
    · exact htoken.1

theorem stops_blockSequenceEntry {first : Bool} (h : m.Within source) :
    Stops source (Outcome.Within source) (blockSequenceEntry first m) := by
  apply (stops_enter h).bind
  intro m h
  apply h.stops_pull.bind
  rintro ⟨token, rest⟩ ⟨htoken, hrest⟩
  dsimp only
  split
  · exact stops_blockEntryNode hrest htoken.2
  · exact hrest.closes.stops_finish htoken.1
  · exact htoken.1

theorem stops_indentlessEntry (h : m.Within source) :
    Stops source (Outcome.Within source) (indentlessEntry m) := by
  apply h.stops_pull.bind
  rintro ⟨token, rest⟩ ⟨htoken, hrest⟩
  dsimp only
  split
  · exact stops_blockEntryNode hrest htoken.2
  · exact h.stops_finish htoken.1

theorem stops_blockMappingKey {first : Bool} (h : m.Within source) :
    Stops source (Outcome.Within source) (blockMappingKey first m) := by
  apply (stops_enter h).bind
  intro m h
  apply h.stops_pull.bind
  rintro ⟨token, rest⟩ ⟨htoken, hrest⟩
  dsimp only
  split
  · exact stops_blockEntryNode hrest htoken.2
  · exact hrest.closes.stops_finish htoken.1
  · exact htoken.1

theorem stops_blockMappingValue (h : m.Within source) :
    Stops source (Outcome.Within source) (blockMappingValue m) := by
  apply h.stops_pull.bind
  rintro ⟨token, rest⟩ ⟨htoken, hrest⟩
  dsimp only
  split
  · exact stops_blockEntryNode hrest htoken.2
  · exact h.stops_missing htoken.1

/-- An entry of a flow collection starts behind a comma, unless the collection ends there. -/
theorem stops_betweenEntries {first : Bool} {close : TokenKind} {construct : Construct}
    {problem : Problem} {read : Machine → Except Fault Outcome} (h : m.Within source)
    (hread : ∀ {m : Machine}, m.Within source → Stops source (Outcome.Within source) (read m)) :
    Stops source (Outcome.Within source) (do
      let m ← enter first m
      let token ← m.look
      let m ← if token.kind == close then .ok m else separator first construct problem m
      read m) := by
  apply (stops_enter h).bind
  intro m h
  apply h.stops_look.bind
  intro token _
  refine .ite (hread h) ?_
  exact (stops_separator h).bind fun _ h => hread h

theorem stops_flowSequenceEntry {first : Bool} (h : m.Within source) :
    Stops source (Outcome.Within source) (flowSequenceEntry first m) := by
  refine stops_betweenEntries h fun h => ?_
  apply h.stops_pull.bind
  rintro ⟨token, rest⟩ ⟨htoken, hrest⟩
  dsimp only
  split
  · exact hrest.stops_emit htoken.1
  · exact hrest.closes.stops_finish htoken.1
  · exact stops_node (h.push _)

theorem stops_flowPairKey (h : m.Within source) :
    Stops source (Outcome.Within source) (flowPairKey m) := by
  apply h.stops_pull.bind
  rintro ⟨token, rest⟩ ⟨htoken, hrest⟩
  dsimp only
  split
  · exact hrest.stops_missing htoken.2
  · exact stops_node (h.push _)

/-- A node in a flow collection, or nothing before one of the tokens that end it. -/
theorem stops_flowNode (ends : TokenKind → Bool) {next : Place} (h : m.Within source) :
    Stops source (Outcome.Within source) (do
      let after ← m.look
      if ends after.kind then m.missing after.start next
      else node false false (m.push next)) := by
  apply h.stops_look.bind
  intro after hafter
  split
  · exact h.stops_missing hafter.1
  · exact stops_node (h.push _)

theorem stops_flowPairValue (h : m.Within source) :
    Stops source (Outcome.Within source) (flowPairValue m) := by
  apply h.stops_pull.bind
  rintro ⟨token, rest⟩ ⟨htoken, hrest⟩
  dsimp only
  split
  · exact stops_flowNode (fun kind => kind == .flowEntry || kind == .flowSequenceEnd) hrest
  · exact h.stops_missing htoken.1

theorem stops_flowPairEnd (h : m.Within source) :
    Stops source (Outcome.Within source) (flowPairEnd m) := by
  apply h.stops_look.bind
  exact fun token htoken => h.stops_emit htoken.1

theorem stops_flowMappingKey {first : Bool} (h : m.Within source) :
    Stops source (Outcome.Within source) (flowMappingKey first m) := by
  refine stops_betweenEntries h fun h => ?_
  apply h.stops_pull.bind
  rintro ⟨token, rest⟩ ⟨htoken, hrest⟩
  dsimp only
  split
  · exact stops_flowNode
      (fun kind => kind == .value || kind == .flowEntry || kind == .flowMappingEnd) hrest
  · exact hrest.closes.stops_finish htoken.1
  · exact stops_node (h.push _)

theorem stops_flowMappingValue {absent : Bool} (h : m.Within source) :
    Stops source (Outcome.Within source) (flowMappingValue absent m) := by
  apply h.stops_pull.bind
  rintro ⟨token, rest⟩ ⟨htoken, hrest⟩
  dsimp only
  split
  · exact stops_flowNode (fun kind => kind == .flowEntry || kind == .flowMappingEnd) hrest
  · exact h.stops_missing htoken.1

/-! ## All events -/

theorem stops_step (place : Place) (h : m.Within source) :
    Stops source (Outcome.Within source) (step place m) :=
  match place with
  | .documentStart _ => stops_documentStart h
  | .documentContent => stops_documentContent h
  | .documentEnd => stops_documentEnd h
  | .blockNode => stops_node h
  | .blockSequenceEntry _ => stops_blockSequenceEntry h
  | .indentlessEntry => stops_indentlessEntry h
  | .blockMappingKey _ => stops_blockMappingKey h
  | .blockMappingValue => stops_blockMappingValue h
  | .flowSequenceEntry _ => stops_flowSequenceEntry h
  | .flowPairKey => stops_flowPairKey h
  | .flowPairValue => stops_flowPairValue h
  | .flowPairEnd => stops_flowPairEnd h
  | .flowMappingKey _ => stops_flowMappingKey h
  | .flowMappingValue _ => stops_flowMappingValue h

theorem Machine.Within.run {fuel : Nat} {found : List (Event × Mark)} {place : Place}
    (hfound : ∀ event ∈ found, event.2.Within source) (h : m.Within source) :
    ReadsWithin source (·.2.Within source) (run fuel found place m) := by
  have hread : ∀ event ∈ found.reverse, event.2.Within source :=
    fun event hevent => hfound event (List.mem_reverse.1 hevent)
  induction fuel generalizing found place m with
  | zero => exact ⟨hread, by simp [Grammar.run]⟩
  | succ fuel ih =>
      have hstep := stops_step place h
      rw [Grammar.run]
      split
      · next heq =>
          rw [heq] at hstep
          exact ⟨hread, by simpa using stops_error.1 hstep⟩
      · exact ⟨hread, by simp⟩
      · next event next m heq =>
          rw [heq] at hstep
          have hfound : ∀ e ∈ event :: found, e.2.Within source :=
            List.forall_mem_cons.2 ⟨hstep.event event rfl, hfound⟩
          exact ih hfound hstep.machine
            fun e he => hfound e (List.mem_reverse.1 he)

end Grammar

/-- Every event of a text is between characters, and so is the fault that ends them. -/
theorem readsWithin_events (source : List Char) :
    ReadsWithin source (·.2.Within source) (events source) := by
  obtain ⟨htokens, hfault⟩ := readsWithin_tokens source
  have hending : ((tokens source).2.getD ⟨.endOfText, .start, none⟩).mark.Within source := by
    cases heq : (tokens source).2 with
    | none => exact Mark.within_start
    | some fault => exact hfault fault heq
  unfold events
  dsimp only
  split
  · exact ⟨by simp, by simpa using hending⟩
  · next heq =>
      refine Grammar.Machine.Within.run (by simp) ⟨?_, hending⟩
      intro token htoken
      exact htokens token (heq ▸ List.mem_cons_of_mem _ htoken)

end Shipment.Yaml
