import GraphicsTerminal.Proofs.Engine.Labels
import GraphicsTerminal.Proofs.Engine.Pending
import GraphicsTerminal.Proofs.Terminal.CombinedSequences

/-!
# Sequences for the screen

A hard reset, a cursor address and the question where the cursor stands use nothing but the
screen and the armed reply.  A terminal at rest between two units takes such a sequence in any
pieces, and nothing comes between its bytes: a click is taken before the escape byte, and an
idle moment finds nothing to show.

Main definitions:

- {lit}`Action.IsEdit`, {lit}`Action.edit`: the actions of such sequences and what they do.
- {lit}`Channel.Discreet`: idle moments leave no trace on the screen.
- {lit}`Terminal.AtRest`: no byte waits, a unit has ended and the channel is discreet.

Main results:

- Theorem {lit}`Engine.Opens.screen`: what the screen shows behind an escape byte.
- Theorem {lit}`Terminal.AtRest.feed_edits`: a sequence does to the screen what its actions
  say.
-/

namespace GraphicsTerminal

/-! ## Edits -/

/-- The screen and the reply that waits for the host. -/
structure Sheet where
  screen : Screen
  reply : Option String

namespace Action

/-- The actions that use nothing but the screen and the armed reply, and always succeed. -/
inductive IsEdit : Action → Prop where
  | hardReset : IsEdit (.single .hardReset)
  | cursorSense : IsEdit (.single .cursorSense)
  | cursorAddress (terms : List AddressTerm) : IsEdit (.cursorAddress terms)

/-- What such an action does. -/
def edit : Action → Sheet → Sheet
  | .single .hardReset, s => { s with screen := s.screen.reset true }
  | .single .cursorSense, s =>
    { s with reply := some (Reply.cursorSense s.screen.cursor.column s.screen.cursorRow) }
  | .cursorAddress terms, s => { s with screen := s.screen.address terms }
  | _, s => s

end Action

/-! ## Discreet channels -/

namespace Channel

variable {L : Type} [HostLink L] {c : Channel L}

/-- An idle moment leaves no trace on the screen: no acknowledgement waits, or the host gets
it. -/
structure Discreet (c : Channel L) : Prop where
  lost : c.lost = none
  quiet : c.ackPending = false ∨ c.Connected

/-- A discreet channel sends its acknowledgement, if there is one, to the host. -/
theorem Discreet.flushAck (h : c.Discreet) (screen : Screen) :
    (c.flushAck screen).1.Discreet ∧ (c.flushAck screen).1.pending = c.pending ∧
      (c.flushAck screen).2 = screen := by
  rw [Channel.flushAck]
  split
  · next hack =>
    rcases h.quiet with hnone | hconnected
    · rw [hack] at hnone
      cases hnone
    · have hquiet : Connected { c with ackPending := false } := { hconnected with }
      obtain ⟨hsent, hscreen⟩ := hquiet.sendBytes screen [Byte.ack]
      exact ⟨⟨hsent.lost, .inr hsent⟩, pending_sendBytes _ _ _, hscreen⟩
  · exact ⟨h, rfl, rfl⟩

end Channel

namespace Engine

variable {L S : Type} {e next opened origin : Engine L S} {seen : List UInt8} {b : UInt8}

/-- The screen of an engine and the reply that waits. -/
def sheet (e : Engine L S) : Sheet := ⟨e.screen, e.channel.pending⟩

theorem sheet_eq_mk {screen : Screen} {reply : Option String} (hscreen : e.screen = screen)
    (hreply : e.channel.pending = reply) : e.sheet = ⟨screen, reply⟩ := by
  rw [sheet, hscreen, hreply]

section

variable [HostLink L]

/-- An idle moment of a discreet channel is not seen. -/
theorem idle_of_discreet (h : e.channel.Discreet) :
    e.idle.channel.Discreet ∧ e.idle.sheet = e.sheet := by
  obtain ⟨hdiscreet, hpending, hscreen⟩ := h.flushAck e.screen
  have hidle : e.idle = e.useChannel Channel.flushAck := reportLoss_of_none hdiscreet.lost
  rw [hidle]
  exact ⟨hdiscreet, sheet_eq_mk hscreen hpending⟩

variable [Surface S]

/-- Edits succeed and do what they say. -/
theorem apply_of_isEdit {action : Action} (h : action.IsEdit) (hdiscreet : e.channel.Discreet) :
    ∃ next, e.apply action = .ok next ∧ next.parser = e.parser ∧ next.channel.Discreet ∧
      next.sheet = action.edit e.sheet := by
  cases h with
  | hardReset =>
    refine ⟨_, rfl, parser_reset e true, ?_⟩
    have hbell : e.bell.channel = e.channel ∧ e.bell.screen = e.screen := by
      unfold bell
      split
      · exact ⟨rfl, rfl⟩
      · exact ⟨rfl, rfl⟩
    refine ⟨?_, sheet_eq_mk ?_ ?_⟩
    · exact hbell.1 ▸ hdiscreet
    · exact congrArg (Screen.reset · true) hbell.2
    · exact congrArg Channel.pending hbell.1
  | cursorSense =>
    refine ⟨_, rfl, rfl, ⟨hdiscreet.lost, hdiscreet.quiet.imp_right fun h => ?_⟩, rfl⟩
    exact { h with }
  | cursorAddress terms => exact ⟨_, rfl, rfl, hdiscreet, rfl⟩

end

/-! ## Behind an escape byte -/

section

variable [HostLink L] [Surface S]

/-- Between two units an escape byte leaves the screen and the channel. -/
theorem interpret_esc_keeps (h : e.parser.AtBoundary)
    (hinterpret : e.interpret Byte.esc = .ok next) :
    next.screen = e.screen ∧ next.channel = e.channel := by
  obtain ⟨text, -, haction⟩ := h.advance_esc
  simp only [interpret] at hinterpret
  cases hadvanced : (e.parser.advance Byte.esc).1 with
  | none =>
    rw [hadvanced] at hinterpret
    cases hinterpret
    exact ⟨rfl, rfl⟩
  | some action =>
    obtain ⟨told, rfl⟩ := haction action hadvanced
    rw [hadvanced] at hinterpret
    cases hinterpret
    exact ⟨rfl, rfl⟩

theorem screen_of_receive_esc (h : e.parser.AtBoundary) (hreceive : e.receive Byte.esc = .ok next) :
    next.screen = e.screen := by
  obtain ⟨engine, hinterpret, rfl⟩ := Fault.exists_of_map hreceive
  rw [screen_reportLoss]
  exact (interpret_esc_keeps h hinterpret).1

theorem link_of_receive_esc (h : e.parser.AtBoundary) (hreceive : e.receive Byte.esc = .ok next) :
    next.channel.link = e.channel.link := by
  obtain ⟨engine, hinterpret, rfl⟩ := Fault.exists_of_map hreceive
  rw [channel_reportLoss]
  simp only [(interpret_esc_keeps h hinterpret).2]

/-- Outside of sequences a handshake shows the armed reply at most. -/
theorem screen_of_receive_dc1 (h : e.parser.phase = .idle)
    (hreceive : e.receive Byte.dc1 = .ok next) :
    next.screen = (e.channel.release e.screen).2 := by
  rw [receive_handshake e (.inl h)] at hreceive
  cases hreceive
  exact screen_reportLoss _

/-- Between two units an escape byte comes at once, or behind the handshake of a click. -/
theorem Opens.cases (h : e.Opens opened) (hboundary : e.parser.AtBoundary) :
    (e.pollClick.1 = false ∧ e.pollClick.2.parser.AtBoundary ∧
        e.pollClick.2.receive Byte.esc = .ok opened) ∨
      (e.pollClick.1 = true ∧ e.pollClick.2.parser.phase = .idle ∧
        ∃ shaken, e.pollClick.2.receive Byte.dc1 = .ok shaken ∧ shaken.parser.phase = .idle ∧
          shaken.receive Byte.esc = .ok opened) := by
  have hopening := h.opening_eq
  unfold opening at hopening
  cases hclick : e.pollClick.1 with
  | false =>
    rw [hclick] at hopening
    refine .inl ⟨rfl, ?_, hopening⟩
    rw [Parser.AtBoundary, parser_pollClick_of_false (Prod.ext hclick rfl)]
    exact hboundary
  | true =>
    rw [hclick] at hopening
    obtain ⟨shaken, hshaken, hopened⟩ := Fault.exists_of_bind hopening
    have hidle := (phase_pollClick_of_true (Prod.ext hclick rfl)).2
    exact .inr ⟨rfl, hidle, shaken, hshaken, receive_dc1_phase hidle hshaken, hopened⟩

/-- Outside of sequences an escape byte changes the parser only. -/
theorem Opens.eq_of_idle (h : e.Opens opened)
    (hidle : e.parser.phase = .idle) (hlost : e.channel.lost = none) :
    opened = { e with parser := opened.parser } := by
  have hstill : e.Still := still_of_phase (by rw [hidle]; exact Phase.noConfusion)
  have hreceive : e.receive Byte.esc =
      .ok { e with parser := Parser.within e.parser.text .inEscape [] } := by
    rw [receive, if_neg (by decide), interpret, Parser.advance_esc (.inl hidle)]
    exact congrArg Except.ok (reportLoss_of_none hlost)
  have hopening := h.opening_eq
  rw [opening, hstill] at hopening
  cases hreceive.symm.trans hopening
  rfl

/-- Behind an escape byte the screen is as it was, unless the report of a click was shown
before. -/
theorem Opens.screen (h : e.Opens opened) (hboundary : e.parser.AtBoundary) :
    opened.screen =
      if e.pollClick.1 then (e.pollClick.2.channel.release e.screen).2 else e.screen := by
  rcases h.cases hboundary with ⟨hclick, hpolled, hopened⟩ |
    ⟨hclick, hidle, shaken, hshaken, hphase, hopened⟩
  · rw [hclick]
    exact (screen_of_receive_esc hpolled hopened).trans e.screen_pollClick
  · rw [hclick, screen_of_receive_esc (.inl hphase) hopened, screen_of_receive_dc1 hidle hshaken,
      screen_pollClick]
    rfl

/-- With a host the screen is as it was in any case. -/
theorem Opens.screen_of_connected (h : e.Opens opened) (hboundary : e.parser.AtBoundary)
    (hquiet : e.pollClick.1 = false ∨ e.channel.Connected) : opened.screen = e.screen := by
  rw [h.screen hboundary]
  split
  · next hclick =>
    rcases hquiet with hnone | hconnected
    · rw [hclick] at hnone
      cases hnone
    · exact ((e.answersLike_pollClick.connected hconnected).carry e.screen .missing .release).2
  · rfl

/-- A report that is shown keeps the fittings of the screen. -/
theorem Opens.fittings (h : e.Opens opened) (hboundary : e.parser.AtBoundary) :
    opened.screen.fittings = e.screen.fittings := by
  rw [h.screen hboundary]
  split
  · exact Channel.fittings_release _ _
  · rfl

theorem Opens.discreet (h : e.Opens opened) (hdiscreet : e.channel.Discreet) :
    opened.channel.Discreet where
  lost := h.lost
  quiet := by
    rw [h.ackPending]
    exact hdiscreet.quiet.imp_right h.connected

theorem Opens.wellFormed (h : e.Opens opened) (hformed : e.WellFormed) : opened.WellFormed := by
  have hopening := h.opening_eq
  unfold opening at hopening
  split at hopening
  · obtain ⟨shaken, hshaken, hopened⟩ := Fault.exists_of_bind hopening
    exact (hformed.pollClick.receive hshaken).receive hopened
  · exact hformed.pollClick.receive hopening

/-! ## Streams of edits -/

/-- How far an engine has come with the bytes behind an escape byte: the parser took them, and
the actions that they completed were done. -/
structure Edited (origin e : Engine L S) (seen : List UInt8) : Prop where
  parser : e.parser = (origin.parser.feed seen).2
  sheet : e.sheet = (origin.parser.feed seen).1.foldl (fun s action => action.edit s) origin.sheet
  discreet : e.channel.Discreet
  awake : e.parser.phase ≠ .awaitClick

/-- A byte that is no enquiry and completes edits only, when certain bytes were taken
before. -/
structure TakesEdits (origin : Engine L S) (seen : List UInt8) (b : UInt8) : Prop where
  ne_enq : b ≠ Byte.enq
  edits : ∀ action ∈ ((origin.parser.feed seen).2.advance b).1, action.IsEdit

/-- A byte takes the engine one step further. -/
theorem Edited.receive (h : origin.Edited e seen) (hb : origin.TakesEdits seen b) :
    ∃ next, e.receive b = .ok next ∧ origin.Edited next (seen ++ [b]) := by
  have hedits := hb.edits
  rw [← h.parser] at hedits
  have hinterpret : ∃ next, e.interpret b = .ok next ∧ next.parser = (e.parser.advance b).2 ∧
      next.channel.Discreet ∧
      next.sheet = (e.parser.advance b).1.toList.foldl (fun s action => action.edit s) e.sheet := by
    simp only [interpret]
    cases haction : (e.parser.advance b).1 with
    | none => exact ⟨_, rfl, rfl, h.discreet, rfl⟩
    | some action =>
      exact apply_of_isEdit (e := { e with parser := (e.parser.advance b).2 })
        (hedits action haction) h.discreet
  obtain ⟨next, hnext, hparser, hdiscreet, hsheet⟩ := hinterpret
  refine ⟨next, ?_, ?_, ?_, hdiscreet, ?_⟩
  · rw [Engine.receive, if_neg hb.ne_enq, hnext]
    exact congrArg Except.ok (reportLoss_of_none hdiscreet.lost)
  · rw [hparser, h.parser, Parser.feed_append, Parser.feed_singleton]
  · rw [hsheet, h.sheet, h.parser, Parser.feed_append, Parser.feed_singleton, List.foldl_append]
  · rw [hparser]
    exact Parser.phase_advance_ne h.awake b

omit [Surface S] in
/-- An idle moment is not seen. -/
theorem Edited.idle (h : origin.Edited e seen) : origin.Edited e.idle seen := by
  obtain ⟨hdiscreet, hsheet⟩ := idle_of_discreet h.discreet
  have hparser := parser_idle e
  refine ⟨hparser.trans h.parser, hsheet.trans h.sheet, hdiscreet, ?_⟩
  rw [hparser]
  exact h.awake

omit [HostLink L] [Surface S] in
/-- Every byte of a stream that completes edits only is such a byte. -/
theorem takesEdits_all {bytes : List UInt8} (henq : Byte.enq ∉ bytes)
    (hedits : ∀ action ∈ ((origin.parser.feed seen).2.feed bytes).1, action.IsEdit) :
    Terminal.AllowedAfter origin.TakesEdits seen bytes :=
  (Terminal.AllowedAfter.of_feed henq hedits).mono fun _ _ h => ⟨h.1, h.2⟩

end

end Engine

namespace Terminal

variable {L S : Type} [HostLink L] [Surface S] {t : Terminal L S}

/-- A terminal follows the bytes of a stream as long as they complete edits only. -/
theorem follows_edited (origin : Engine L S) :
    Follows origin.TakesEdits (fun (_ : Unit) _ => pure ())
      (fun seen e _ => origin.Edited e seen) (fun seen e _ => origin.Edited e seen) where
  busy_of_settled := fun h => h
  poll := by
    intro seen e _ h
    rw [Engine.still_of_phase h.awake]
    exact ⟨rfl, h⟩
  receive := by
    intro seen e _ b hb h
    obtain ⟨next, hreceive, hnext⟩ := h.receive hb
    rw [hreceive]
    exact .ok hnext
  idle := fun h => h.idle

/-- No byte waits, a unit has ended, and an idle moment leaves no trace on the screen. -/
structure AtRest (t : Terminal L S) : Prop where
  empty : t.ring.toList = []
  boundary : t.engine.parser.AtBoundary
  discreet : t.engine.channel.Discreet

/-- A terminal at rest takes a sequence of edits, which do what they say. -/
theorem AtRest.feed_edits (h : t.AtRest) {opened : Engine L S} (hopens : t.engine.Opens opened)
    {bytes : List UInt8} (henq : Byte.enq ∉ bytes)
    (hedits : ∀ action ∈ (opened.parser.feed bytes).1, action.IsEdit)
    (hkept : ∀ s ∈ t.feedTurns (Byte.esc :: bytes), s.losesByte = false) :
    ∃ t', t.feed (Byte.esc :: bytes) = .ok t' ∧
      t'.engine.sheet =
        (opened.parser.feed bytes).1.foldl (fun s action => action.edit s) opened.sheet := by
  obtain ⟨text, hwithin⟩ := hopens.parser
  have hawake : opened.parser.phase ≠ .awaitClick := by
    rw [hwithin]
    exact Phase.noConfusion
  obtain ⟨t', hrun, -, hedited⟩ := run_of_opens (follows_edited opened) h.empty hopens []
    (List.append_nil _) (hkept _ (filled_mem_feedTurns t _ _))
    (Engine.takesEdits_all henq hedits) ⟨rfl, rfl, hopens.discreet h.discreet, hawake⟩
  exact ⟨t', (run_singleton t _).symm.trans hrun, hedited.sheet⟩

/-- A terminal at rest takes a sequence that is one edit. -/
theorem AtRest.feed_edit (h : t.AtRest) {opened : Engine L S} (hopens : t.engine.Opens opened)
    {bytes : List UInt8} {action : Action} (henq : Byte.enq ∉ bytes)
    (hactions : (opened.parser.feed bytes).1 = [action]) (hedit : action.IsEdit)
    (hkept : ∀ s ∈ t.feedTurns (Byte.esc :: bytes), s.losesByte = false) :
    ∃ t', t.feed (Byte.esc :: bytes) = .ok t' ∧ t'.engine.sheet = action.edit opened.sheet := by
  have hedits : ∀ done ∈ (opened.parser.feed bytes).1, done.IsEdit := by
    rw [hactions]
    intro done hdone
    rw [List.mem_singleton.1 hdone]
    exact hedit
  obtain ⟨t', hfeed, hsheet⟩ := h.feed_edits hopens henq hedits hkept
  rw [hactions] at hsheet
  exact ⟨t', hfeed, hsheet⟩

end Terminal

end GraphicsTerminal
