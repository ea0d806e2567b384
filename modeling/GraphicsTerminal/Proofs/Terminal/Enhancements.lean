import GraphicsTerminal.Proofs.Protocol.CodeLists
import GraphicsTerminal.Proofs.Terminal.HardReset

/-!
# Enhancement codes in one sequence

A sequence that lists enhancement codes does what one sequence for each of its first four codes
does: it changes the enhancement of the cursor, and nothing else behind its escape byte.  This
holds for a terminal at rest between two units.  Otherwise an acknowledgement could be shown
between two sequences, and a click could take the place of the last byte of the longer one.

Main definitions:

- {lit}`Engine.Restyled`: how far an engine has come with the bytes behind an escape byte.

Main results:

- Theorem {lit}`Engine.Restyled.receive`: a byte takes the engine one step further.
- Theorem {lit}`Terminal.AtRest.feed_listed`: a list of codes does what its first four do.
-/

namespace GraphicsTerminal

/-! ## Idle moments -/

/-- A discreet channel sends its acknowledgement without a look at the screen. -/
theorem Channel.Discreet.exists_flushAck {L : Type} [HostLink L] {c : Channel L}
    (h : c.Discreet) : ∃ c', ∀ screen, c.flushAck screen = (c', screen) := by
  rcases h.quiet with hnone | hconnected
  · refine ⟨c, fun screen => ?_⟩
    rw [Channel.flushAck, hnone]
    rfl
  · cases hack : c.ackPending with
    | false =>
      refine ⟨c, fun screen => ?_⟩
      rw [Channel.flushAck, hack]
      rfl
    | true =>
      refine ⟨{ c with
          ackPending := false
          link := (HostLink.send c.link [Byte.ack]).2 }, fun screen => ?_⟩
      rw [Channel.flushAck, hack]
      exact sendBytes_of_reliable (c := { c with ackPending := false }) hconnected.remote
        hconnected.reliable screen [Byte.ack]

namespace Engine

variable {L S : Type}

/-- The engine with another parser, when codes changed the enhancement of the cursor. -/
def styled (e : Engine L S) (p : Parser) (codes : List Int) : Engine L S :=
  { e with parser := p, screen := e.screen.applyCodes codes }

theorem styled_styled (e : Engine L S) (p p' : Parser) (codes codes' : List Int) :
    (e.styled p codes).styled p' codes' = e.styled p' (codes ++ codes') := by
  simp only [styled, Screen.applyCodes, List.foldl_append]

theorem styled_saturate (e : Engine L S) (p : Parser) (codes : List Int) :
    e.styled p (codes.map Word.saturate) = e.styled p codes := by
  simp only [styled, Screen.applyCodes_saturate]

variable [HostLink L] {e : Engine L S}

/-- An idle moment of a discreet channel sees neither the parser nor the screen. -/
theorem idle_styled (h : e.channel.Discreet) (p : Parser) (codes : List Int) :
    (e.styled p codes).idle = e.idle.styled p codes := by
  obtain ⟨c, hflush⟩ := h.exists_flushAck
  simp only [styled, idle, useChannel, hflush, reportLoss_eq]

/-- Idle once is idle for good. -/
theorem idle_idle (e : Engine L S) : e.idle.idle = e.idle :=
  idle_of_none (lost_reportLoss _) e.ackPending_idle

end Engine

/-! ## Codes behind an escape byte -/

/-- The codes of a control sequence that lists some. -/
def Action.codes : Action → List Int
  | .control (.enhance codes) => codes
  | _ => []

/-- An action that applies codes. -/
def Action.ListsCodes (action : Action) : Prop := ∃ codes, action = .control (.enhance codes)

namespace Engine

variable {L S : Type} [HostLink L] [Surface S] {e origin : Engine L S} {seen : List UInt8}

/-- The engine behind a byte that completes a list of codes, or no action. -/
def takeCodes (e : Engine L S) (b : UInt8) : Engine L S :=
  e.styled (e.parser.advance b).2 ((e.parser.advance b).1.toList.flatMap Action.codes)

/-- A byte that completes a list of codes, or no action, is taken. -/
theorem interpret_of_listsCodes {b : UInt8}
    (h : ∀ action ∈ (e.parser.advance b).1, action.ListsCodes) :
    e.interpret b = .ok (e.takeCodes b) := by
  simp only [interpret, takeCodes]
  cases haction : (e.parser.advance b).1 with
  | none => rfl
  | some action =>
    obtain ⟨codes, rfl⟩ := h action haction
    rw [Option.toList_some, List.flatMap_singleton]
    rfl

/-- How far an engine has come with the bytes behind an escape byte: when it is idle it is as the
idle one was, but that the parser took the bytes and the codes that they list were applied. -/
structure Restyled (origin e : Engine L S) (seen : List UInt8) : Prop where
  idle_eq : e.idle = origin.idle.styled (origin.parser.feed seen).2
    ((origin.parser.feed seen).1.flatMap Action.codes)
  discreet : e.channel.Discreet
  awake : e.parser.phase ≠ .awaitClick

namespace Restyled

omit [Surface S] in
theorem refl (hdiscreet : origin.channel.Discreet) (hawake : origin.parser.phase ≠ .awaitClick) :
    origin.Restyled origin [] where
  idle_eq := idle_styled hdiscreet origin.parser []
  discreet := hdiscreet
  awake := hawake

omit [Surface S] in
theorem parser (h : origin.Restyled e seen) : e.parser = (origin.parser.feed seen).2 :=
  (parser_idle e).symm.trans (congrArg Engine.parser h.idle_eq)

omit [Surface S] in
/-- An idle moment is not seen. -/
theorem idle (h : origin.Restyled e seen) : origin.Restyled e.idle seen where
  idle_eq := e.idle_idle.trans h.idle_eq
  discreet := (idle_of_discreet h.discreet).1
  awake := by
    rw [parser_idle]
    exact h.awake

/-- A byte takes the engine one step further. -/
theorem receive (h : origin.Restyled e seen) {b : UInt8} (hb : b ≠ Byte.enq)
    (hlists : ∀ action ∈ ((origin.parser.feed seen).2.advance b).1, action.ListsCodes) :
    ∃ next, e.receive b = .ok next ∧ origin.Restyled next (seen ++ [b]) := by
  rw [← h.parser] at hlists
  refine ⟨e.takeCodes b, ?_, ?_, h.discreet, Parser.phase_advance_ne h.awake b⟩
  · have hlost : (e.takeCodes b).channel.lost = none := h.discreet.lost
    rw [Engine.receive, if_neg hb, interpret_of_listsCodes hlists]
    exact congrArg Except.ok (reportLoss_of_none hlost)
  · rw [takeCodes, idle_styled h.discreet, h.idle_eq, styled_styled, h.parser, Parser.feed_append,
      Parser.feed_singleton, List.flatMap_append]

end Restyled

end Engine

namespace Terminal

variable {L S : Type} [HostLink L] [Surface S] {t : Terminal L S}

/-- A terminal follows the bytes of a stream as long as they list codes only. -/
theorem follows_restyled (origin : Engine L S) :
    Follows (fun seen b => b ≠ Byte.enq ∧
        ∀ action ∈ ((origin.parser.feed seen).2.advance b).1, action.ListsCodes)
      (fun (_ : Unit) _ => pure ()) (fun seen e _ => origin.Restyled e seen)
      (fun seen e _ => origin.Restyled e seen ∧ e.idle = e) where
  busy_of_settled := fun h => h.1
  poll := by
    intro seen e _ h
    rw [Engine.still_of_phase h.awake]
    exact ⟨rfl, h⟩
  receive := by
    rintro seen e _ b ⟨hb, hlists⟩ h
    obtain ⟨next, hreceive, hnext⟩ := h.receive hb hlists
    rw [hreceive]
    exact .ok hnext
  idle := fun {_ e _} h => ⟨h.idle, e.idle_idle⟩

/-- A terminal at rest takes sequences that list codes, in pieces. -/
theorem AtRest.run_lists (h : t.AtRest) {opened : Engine L S} (hopens : t.engine.Opens opened)
    {first bytes : List UInt8} (more : List (List UInt8)) (hbytes : first ++ more.flatten = bytes)
    (hkept : (t.filled (Byte.esc :: first)).losesByte = false) (henq : Byte.enq ∉ bytes)
    (hlists : ∀ action ∈ (opened.parser.feed bytes).1, action.ListsCodes) :
    ∃ t', t.run (.feed (Byte.esc :: first) :: more.map .feed) = .ok t' ∧ t'.ring.toList = [] ∧
      t'.engine = opened.idle.styled (opened.parser.feed bytes).2
        ((opened.parser.feed bytes).1.flatMap Action.codes) := by
  obtain ⟨text, hwithin⟩ := hopens.parser
  have hawake : opened.parser.phase ≠ .awaitClick := by
    rw [hwithin]
    exact Phase.noConfusion
  obtain ⟨t', hrun, hempty, hrestyled, hidle⟩ := run_of_opens (follows_restyled opened) h.empty
    hopens more hbytes hkept (.of_feed henq hlists)
    (.refl (hopens.discreet h.discreet) hawake)
  exact ⟨t', hrun, hempty, hidle.symm.trans hrestyled.idle_eq⟩

section

variable {opened : Engine L S} {text : Array UInt8}

/-- A terminal at rest takes a lone escape byte. -/
theorem AtRest.feed_esc (h : t.AtRest) (hopens : t.engine.Opens opened)
    (hkept : (t.filled [Byte.esc]).losesByte = false) :
    ∃ t', t.feed [Byte.esc] = .ok t' ∧ t'.engine = opened.idle := by
  have hnothing : [] ++ [].flatten = ([] : List UInt8) := rfl
  obtain ⟨t', hrun, -, hengine⟩ := h.run_lists hopens [] hnothing hkept (by simp)
    (by simp [Parser.feed])
  refine ⟨t', (run_singleton t _).symm.trans hrun, hengine.trans ?_⟩
  have hparser : (opened.parser.feed []).2 = opened.idle.parser := (Engine.parser_idle opened).symm
  rw [hparser]
  rfl

/-- A terminal at rest takes a sequence that lists codes. -/
theorem AtRest.feed_codes (h : t.AtRest) (hopens : t.engine.Opens opened)
    (hwithin : opened.parser = .within text .inEscape []) {codes : List Int} (hcodes : codes ≠ [])
    (hkept : (t.filled (Byte.esc :: ControlSequence.listed codes)).losesByte = false) :
    ∃ t', t.feed (Byte.esc :: ControlSequence.listed codes) = .ok t' ∧ t'.ring.toList = [] ∧
      t'.engine = opened.idle.styled (.within text .idle (ControlSequence.listed codes))
        (codes.take 4) := by
  have htaken := Parser.feed_codeList text hcodes
  rw [← hwithin] at htaken
  obtain ⟨t', hrun, hempty, hengine⟩ := h.run_lists hopens [] (List.append_nil _) hkept
    (ControlSequence.enq_not_mem_listed _) (by simp [htaken, Action.ListsCodes])
  rw [htaken, List.flatMap_singleton, Action.codes, Engine.styled_saturate] at hengine
  exact ⟨t', (run_singleton t _).symm.trans hrun, hempty, hengine⟩

/-- A terminal at rest takes one sequence for each code. -/
theorem AtRest.run_codes (h : t.AtRest) (hopens : t.engine.Opens opened)
    (hwithin : opened.parser = .within text .inEscape []) {code : Int} (codes : List Int)
    (hkept : (t.filled (Byte.esc :: ControlSequence.listed [code])).losesByte = false) :
    ∃ t' last, t.run ((code :: codes).map fun code =>
        .feed (Byte.esc :: ControlSequence.listed [code])) = .ok t' ∧ t'.ring.toList = [] ∧
      t'.engine = opened.idle.styled (.within text .idle (ControlSequence.listed [last]))
        (code :: codes) := by
  obtain ⟨last, htaken⟩ := Parser.feed_codeList_each text code codes
  rw [← hwithin] at htaken
  have henq : Byte.enq ∉ ControlSequence.listed [code] ++
      (codes.map fun code => Byte.esc :: ControlSequence.listed [code]).flatten := by
    rw [List.mem_append, List.mem_flatten]
    rintro (hmem | ⟨piece, hpiece, hmem⟩)
    · exact ControlSequence.enq_not_mem_listed _ hmem
    · obtain ⟨other, -, rfl⟩ := List.mem_map.1 hpiece
      exact ControlSequence.enq_not_mem_listed _ ((List.mem_cons.1 hmem).resolve_left (by decide))
  obtain ⟨t', hrun, hempty, hengine⟩ := h.run_lists hopens
    (codes.map fun code => Byte.esc :: ControlSequence.listed [code]) rfl hkept henq (by
      rw [htaken]
      intro action haction
      obtain ⟨other, -, rfl⟩ := List.mem_map.1 haction
      exact ⟨_, rfl⟩)
  have hcodes : ((code :: codes).map fun code =>
      Action.control (.enhance [Word.saturate code])).flatMap Action.codes =
      (code :: codes).map Word.saturate := by
    rw [List.flatMap_map]
    exact List.flatMap_pure_eq_map _ _
  rw [htaken, hcodes, Engine.styled_saturate] at hengine
  rw [List.map_map] at hrun
  exact ⟨t', last, hrun, hempty, hengine⟩

end

/-- A terminal at rest takes a sequence that lists codes as it takes one sequence for each of the
first four: it is as behind the escape byte, but that the codes changed the enhancement of the
cursor.  Outside of sequences, and if no acknowledgement waits, the escape byte by itself changes
the parser only. -/
theorem AtRest.feed_listed (h : t.AtRest) {codes : List Int} (hcodes : codes ≠ [])
    (hkept : ∀ s ∈ t.feedTurns (Byte.esc :: ControlSequence.listed codes),
      s.losesByte = false) :
    ∃ opened joined separate,
      t.feed [Byte.esc] = .ok opened ∧
      t.feed (Byte.esc :: ControlSequence.listed codes) = .ok joined ∧
      t.run ((codes.take 4).map fun code => .feed (Byte.esc :: ControlSequence.listed [code])) =
        .ok separate ∧
      joined.engine =
        { opened.engine with
          parser := joined.engine.parser
          screen :=
            { opened.engine.screen with
              cursor :=
                { opened.engine.screen.cursor with
                  style := (codes.take 4).foldl Enhancement.applyCode
                    opened.engine.screen.cursor.style } } } ∧
      separate.engine = { joined.engine with parser := separate.engine.parser } ∧
      joined.engine.parser.phase = .idle ∧ separate.engine.parser.phase = .idle ∧
      separate.engine.parser.outlook = joined.engine.parser.outlook ∧
      joined.ring.toList = [] ∧ separate.ring.toList = [] ∧
      (t.engine.parser.phase = .idle → t.engine.channel.ackPending = false →
        opened.engine = { t.engine with parser := opened.engine.parser }) := by
  obtain ⟨behind, hopens⟩ := Engine.exists_opens h.boundary
  obtain ⟨text, hwithin⟩ := hopens.parser
  obtain ⟨code, more, rfl⟩ := List.exists_cons_of_ne_nil hcodes
  have hfilled := hkept _ (filled_mem_feedTurns t _ _)
  have hfirst : (ControlSequence.listed [code]).length ≤
      (ControlSequence.listed (code :: more)).length := by
    have hprefix := (Decimal.bytes_prefix_listed code more).length_le
    simp only [ControlSequence.listed, Decimal.listed_singleton, List.length_append,
      List.length_cons]
    omega
  have hone : [Byte.esc].length ≤ (Byte.esc :: ControlSequence.listed (code :: more)).length :=
    Nat.succ_le_succ (Nat.zero_le _)
  obtain ⟨opened, hopened, heqOpened⟩ := h.feed_esc hopens
    (losesByte_filled_of_le h.empty hone hfilled)
  obtain ⟨joined, hjoined, hempty, heqJoined⟩ := h.feed_codes hopens hwithin hcodes hfilled
  obtain ⟨separate, last, hseparate, hempty', heqSeparate⟩ := h.run_codes hopens hwithin
    (more.take 3) (losesByte_filled_of_le h.empty (Nat.succ_le_succ hfirst) hfilled)
  refine ⟨opened, joined, separate, hopened, hjoined, hseparate, ?_, ?_, ?_, ?_, ?_, hempty,
    hempty', ?_⟩
  · rw [← Screen.applyCodes_eq, heqJoined, heqOpened]
    rfl
  · rw [heqSeparate, heqJoined]
    rfl
  · rw [heqJoined]
    rfl
  · rw [heqSeparate]
    rfl
  · rw [heqSeparate, heqJoined]
    rfl
  · intro hidle hack
    rw [heqOpened, Engine.idle_of_none hopens.lost (hopens.ackPending.trans hack),
      hopens.eq_of_idle hidle h.discreet.lost]

/-- Intense, blue and inverse, behind a letter. -/
theorem AtRest.feed_listed_recorded :
    ∃ t joined separate, (recorded 16).run ([] ++ [.feed [0x41]]) = .ok t ∧ t.AtRest ∧
      t.feed (Byte.esc :: ControlSequence.listed [1, 34, 7]) = .ok joined ∧
      t.run [.feed (Byte.esc :: ControlSequence.listed [1]),
        .feed (Byte.esc :: ControlSequence.listed [34]),
        .feed (Byte.esc :: ControlSequence.listed [7])] = .ok separate ∧
      separate.engine = { joined.engine with parser := separate.engine.parser } := by
  have hfacts : ((recorded 16).run ([] ++ [.feed [0x41]])).map (fun t =>
      (t.engine.parser.phase,
        (t.feedTurns (Byte.esc :: ControlSequence.listed [1, 34, 7])).all
          (fun s => !s.losesByte))) = .ok (.idle, true) := by
    cbv
  obtain ⟨t, hrun, hseen⟩ := Fault.exists_of_map hfacts
  obtain ⟨hphase, hkept⟩ := Prod.mk.inj hseen
  have hrest := atRest_of_feed hrun (.inl hphase)
  have hcodes : ([1, 34, 7] : List Int) ≠ [] := List.cons_ne_nil _ _
  obtain ⟨-, joined, separate, -, hjoined, hseparate, -, hsame, -⟩ :=
    AtRest.feed_listed hrest hcodes
      fun s hs => Bool.not_eq_true' _ ▸ List.all_eq_true.1 hkept s hs
  exact ⟨t, joined, separate, hrun, hrest, hjoined, hseparate, hsame⟩

/-- A fifth code is passed over in a list, and applied in a sequence of its own.  Where an
acknowledgement is shown between two sequences, it is shown as the first one says.  A click takes
the place of the last byte of a list that fills the ring.  The escape byte ends the wait for a
click, and in the middle of a sequence another one does not begin. -/
theorem listed_codes_apart :
    let feed := fun (codes : List Int) =>
      Event.feed (L := RecordingLink) (S := RecordingSurface)
        (Byte.esc :: ControlSequence.listed codes)
    let styled := fun events => ((recorded 7).run events).map (·.engine.screen.cursor.style)
    let shown := fun events => ((start { Settings.standard with remote := false, ringCapacity := 7 }
      RecordingLink.unlimited RecordingSurface.empty fun _ => .missing).run
        (.push [Byte.enq] :: .step :: events)).map (·.engine.screen.memory.cell? 0 0)
    let clicked := fun events => styled (.feed [Byte.esc, 0x2A, 0x73, 0x34, 0x5E] ::
      .surface (·.addClick ⟨⟨12, 34⟩, Click.left⟩) :: events)
    let waiting := fun events => ((recorded 7).run
      (.feed [Byte.esc, 0x2A, 0x73, 0x34, 0x5E] :: events)).map (·.engine.parser.phase)
    (styled [feed [0, 0, 0, 0, 1]] = .ok .plain ∧
      styled [feed [0], feed [0], feed [0], feed [0], feed [1]] = .ok ⟨true, false, false, 0⟩) ∧
    (shown [feed [1, 7]] = .ok (some (.written Byte.ack ⟨true, true, false, 0⟩)) ∧
      shown [feed [1], feed [7]] = .ok (some (.written Byte.ack ⟨true, false, false, 0⟩))) ∧
    (clicked [feed [1, 7]] = .ok .plain ∧
      clicked [feed [1], feed [7]] = .ok ⟨true, true, false, 0⟩) ∧
    (waiting [] = .ok .awaitClick ∧ waiting [feed [1]] = .ok .idle) ∧
    styled [.feed [Byte.esc], feed [1]] = .ok .plain := by
  refine ⟨⟨?_, ?_⟩, ⟨?_, ?_⟩, ⟨?_, ?_⟩, ⟨?_, ?_⟩, ?_⟩
  · cbv
  · cbv
  · cbv
  · cbv
  · cbv
  · cbv
  · cbv
  · cbv
  · cbv

end Terminal

end GraphicsTerminal
