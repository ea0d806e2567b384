import GraphicsTerminal.Proofs.Engine.Pending
import GraphicsTerminal.Proofs.Terminal.Histories
import GraphicsTerminal.Proofs.Terminal.Log

/-!
# The gate of the armed reply

The host opens the gate by a handshake outside of sequences, and the reply that was
armed most recently passes it.  In all other turns the reply waits, and nothing that the
terminal does depends on it.

Main definitions:

- {lit}`Terminal.OpensGate`: a handshake outside of sequences comes next.
- {lit}`Terminal.gateMoves`: what a turn does to the armed reply.
- {lit}`Terminal.ObeysGate`: a turn that keeps the gate.

Main results:

- Theorem {lit}`Terminal.step_withPending`: a turn that does not open the gate does the
  same whatever reply waits.
- Theorem {lit}`Terminal.gate_of_run_start`: in every run the reply armed most recently
  since the last release waits, and every turn keeps the gate.
-/

namespace GraphicsTerminal

namespace Terminal

variable {L S : Type}

/-! ## Turns at the gate -/

/-- The terminal with another reply in place of the one that waits. -/
def withPending (t : Terminal L S) (reply : Option String) : Terminal L S :=
  t.modifyEngine (·.withPending reply)

section

variable [Surface S]

/-- The byte that the next step hands to the engine. -/
def nextByte? (t : Terminal L S) : Option UInt8 := t.pollClick.ring.pop?.map Prod.fst

/-- A handshake outside of sequences comes next. -/
def OpensGate (t : Terminal L S) : Prop :=
  t.nextByte? = some Byte.dc1 ∧
    (t.engine.parser.phase = .idle ∨ t.engine.parser.phase = .awaitClick)

/-- What the next step does to the armed reply: first by a click, then by a byte. -/
def gateMoves (t : Terminal L S) : List GateMove :=
  t.engine.clickMoves ++ t.nextByte?.elim [] t.pollClick.engine.byteMoves

/-- The reply that a handshake would send: that of a click which is taken before it, or
the one that waits. -/
def due (t : Terminal L S) : Option String :=
  GateMove.replay t.engine.channel.pending t.engine.clickMoves

theorem pollClick_withPending (t : Terminal L S) (reply : Option String) :
    (t.withPending reply).pollClick =
      t.pollClick.withPending (GateMove.replay reply t.engine.clickMoves) := by
  have hpolled := t.engine.pollClick_withPending reply
  unfold pollClick
  simp only [withPending, modifyEngine, hpolled]
  generalize t.engine.pollClick = polled
  obtain ⟨click, engine⟩ := polled
  cases click with
  | true => rfl
  | false => rfl

/-- A poll keeps the pending reply, or arms that of its click. -/
theorem pending_pollClick (t : Terminal L S) : t.pollClick.engine.channel.pending = t.due := by
  have hsame : t.withPending t.engine.channel.pending = t := rfl
  have hpolled := t.pollClick_withPending t.engine.channel.pending
  rw [hsame] at hpolled
  rw [hpolled]
  rfl

/-- A poll does not leave the outside of sequences, nor does it lead there. -/
theorem phase_pollClick_iff (t : Terminal L S) :
    (t.pollClick.engine.parser.phase = .idle ∨ t.pollClick.engine.parser.phase = .awaitClick) ↔
      (t.engine.parser.phase = .idle ∨ t.engine.parser.phase = .awaitClick) := by
  rw [engine_pollClick]
  cases hpoll : t.engine.pollClick with
  | mk click engine =>
    cases click with
    | false =>
      rw [Engine.parser_pollClick_of_false hpoll]
    | true =>
      obtain ⟨hwait, hidle⟩ := Engine.phase_pollClick_of_true hpoll
      have hphase : t.engine.parser.phase = .awaitClick := eq_of_beq hwait
      exact ⟨fun _ => Or.inr hphase, fun _ => Or.inl hidle⟩

variable [HostLink L]

/-- A turn that does not open the gate does the same whatever reply waits. -/
theorem step_withPending (t : Terminal L S) (h : ¬ t.OpensGate) (reply : Option String) :
    (t.withPending reply).step = t.step.map fun stepped =>
      (stepped.1, stepped.2.withPending (GateMove.replay reply t.gateMoves)) := by
  have hpolled := t.pollClick_withPending reply
  rw [gateMoves, GateMove.replay_append]
  simp only [step, hpolled]
  have hring (waiting : Option String) : (t.pollClick.withPending waiting).ring =
      t.pollClick.ring := rfl
  rw [hring]
  cases hpop : t.pollClick.ring.pop? with
  | none =>
    have hnone : t.nextByte? = none := by
      rw [nextByte?, hpop]
      rfl
    rw [hnone]
    simp only [withPending, modifyEngine, Engine.idle_withPending]
    rfl
  | some taken =>
    obtain ⟨b, ring⟩ := taken
    have hnext : t.nextByte? = some b := by
      rw [nextByte?, hpop]
      rfl
    have hother : t.pollClick.engine.byteTraffic b ≠ .release := by
      intro hrelease
      obtain ⟨rfl, hphase⟩ := (Engine.byteTraffic_eq_release_iff _ _).1 hrelease
      exact h ⟨hnext, t.phase_pollClick_iff.1 hphase⟩
    have hreceived := t.pollClick.engine.receive_withPending
      (GateMove.replay reply t.engine.clickMoves) hother
    rw [hnext]
    simp only [withPending, modifyEngine, hreceived]
    cases t.pollClick.engine.receive b with
    | error fault => rfl
    | ok engine => rfl

/-- A turn that opens the gate sends the reply that is due. -/
theorem step_of_opensGate {t : Terminal L S} (h : t.OpensGate) :
    ∃ ring parser, t.step = .ok (true,
      ⟨ring, ({ t.pollClick.engine with parser := parser }.carry .release).reportLoss⟩) := by
  obtain ⟨hnext, hphase⟩ := h
  unfold nextByte? at hnext
  cases hpop : t.pollClick.ring.pop? with
  | none =>
    rw [hpop] at hnext
    cases hnext
  | some taken =>
    obtain ⟨b, ring⟩ := taken
    rw [hpop] at hnext
    obtain rfl : b = Byte.dc1 := Option.some.inj hnext
    refine ⟨ring, (t.pollClick.engine.parser.advance Byte.dc1).2, ?_⟩
    simp only [step, hpop, Engine.receive_handshake _ (t.phase_pollClick_iff.2 hphase)]
    rfl

omit [HostLink L] in
/-- A turn opens the gate exactly when it releases the reply. -/
theorem release_mem_gateMoves_iff (t : Terminal L S) :
    .release ∈ t.gateMoves ↔ t.OpensGate := by
  constructor
  · intro h
    rcases List.mem_append.1 h with hclick | hbyte
    · exact absurd hclick t.engine.release_notMem_clickMoves
    · cases hnext : t.nextByte? with
      | none =>
        rw [hnext] at hbyte
        cases hbyte
      | some b =>
        rw [hnext] at hbyte
        obtain ⟨rfl, hphase⟩ := (Engine.release_mem_byteMoves_iff _ _).1 hbyte
        exact ⟨hnext, t.phase_pollClick_iff.1 hphase⟩
  · intro h
    have hbyte := (Engine.release_mem_byteMoves_iff _ _).2 ⟨rfl, t.phase_pollClick_iff.2 h.2⟩
    rw [gateMoves, h.1]
    exact List.mem_append_right _ hbyte

omit [HostLink L] in
/-- After a turn that opens the gate no reply waits. -/
theorem replay_gateMoves_of_opensGate {t : Terminal L S} (h : t.OpensGate)
    (reply : Option String) : GateMove.replay reply t.gateMoves = none := by
  have hmoves := Engine.byteMoves_handshake (t.phase_pollClick_iff.2 h.2)
  rw [gateMoves, h.1, Option.elim, hmoves, GateMove.replay_append]
  rfl

theorem pending_of_opensGate {t t' : Terminal L S} {more : Bool} (h : t.OpensGate)
    (hstep : t.step = .ok (more, t')) : t'.engine.channel.pending = none := by
  obtain ⟨ring, parser, hopened⟩ := step_of_opensGate h
  rw [hopened] at hstep
  cases hstep
  rw [Engine.channel_reportLoss]
  exact Channel.pending_release _ _

/-- After a turn that reply waits which its moves lead to. -/
theorem pending_of_step {t t' : Terminal L S} {more : Bool} (hstep : t.step = .ok (more, t')) :
    t'.engine.channel.pending = GateMove.replay t.engine.channel.pending t.gateMoves := by
  by_cases hopens : t.OpensGate
  · rw [pending_of_opensGate hopens hstep, replay_gateMoves_of_opensGate hopens]
  · have hsame : t.withPending t.engine.channel.pending = t := rfl
    have hkept := t.step_withPending hopens t.engine.channel.pending
    rw [hsame, hstep] at hkept
    have hlast := congrArg (fun stepped => stepped.2.engine.channel.pending) (Except.ok.inj hkept)
    exact hlast

/-! ## What a turn does at the gate -/

/-- A turn that keeps the gate. -/
structure ObeysGate (t : Terminal L S) : Prop where
  /-- The gate is opened by a release and by nothing else. -/
  releases : .release ∈ t.gateMoves ↔ t.OpensGate
  /-- While the gate is closed, nothing depends on the reply that waits. -/
  closed : ¬ t.OpensGate → ∀ reply, (t.withPending reply).step = t.step.map fun stepped =>
    (stepped.1, stepped.2.withPending (GateMove.replay reply t.gateMoves))
  /-- The reply that is due is sent once, and then none waits. -/
  sends : t.OpensGate → ∀ reply, t.due = some reply →
    ∃ t' o, t.step = .ok (true, t') ∧ t.observe [.step] = .ok o ∧
      t'.engine.channel.pending = none ∧
      o.writes = (if t.engine.channel.remote then [Text.utf8 reply] else []) ∧
      (t.engine.channel.remote = false →
        t'.engine.screen = t.engine.screen.putBytes (Text.utf8 reply))
  /-- If no reply is due, nothing is sent. -/
  silent : t.OpensGate → t.due = none →
    ∃ t' o, t.step = .ok (true, t') ∧ t.observe [.step] = .ok o ∧
      t'.engine.channel.pending = none ∧ o.attempts = [] ∧ t'.engine.screen = t.engine.screen
  /-- Keys do not depend on the reply that waits, and leave it. -/
  keys : ∀ reply key, (t.withPending reply).press key =
    ((t.press key).1, (t.press key).2.withPending reply)

omit [HostLink L] in
theorem opensGate_logged {t : Terminal L S} (h : t.OpensGate) : t.logged.OpensGate := by
  refine ⟨?_, h.2⟩
  rw [nextByte?, pollClick_logged]
  exact h.1

/-- What is seen of a turn that opens the gate. -/
theorem observe_of_opensGate {t : Terminal L S} (h : t.OpensGate) :
    ∃ o, t.observe [.step] = .ok o ∧
      o.attempts = ((Channel.release t.pollClick.engine.logged.channel
        t.pollClick.engine.screen).1).link.attempts := by
  obtain ⟨ring, parser, hstep⟩ := step_of_opensGate (opensGate_logged h)
  rw [pollClick_logged] at hstep
  rw [observe_step, hstep]
  refine ⟨_, rfl, ?_⟩
  simp only [Engine.observation, Engine.channel_reportLoss]
  rfl

/-- Every turn keeps the gate. -/
theorem obeysGate (t : Terminal L S) : t.ObeysGate where
  releases := t.release_mem_gateMoves_iff
  closed := fun h reply => t.step_withPending h reply
  sends := by
    intro h reply hdue
    have hpending := t.pending_pollClick.trans hdue
    have hremote : t.pollClick.engine.channel.remote = t.engine.channel.remote := by
      rw [engine_pollClick, Engine.remote_pollClick]
    obtain ⟨ring, parser, hstep⟩ := step_of_opensGate h
    obtain ⟨o, hobserved, hattempts⟩ := observe_of_opensGate h
    refine ⟨_, o, hstep, hobserved, pending_of_opensGate h hstep, ?_, ?_⟩
    · have hlogged : t.pollClick.engine.logged.channel.pending = some reply := hpending
      have hwrites := Channel.writes_sendBytes
        { t.pollClick.engine.logged.channel with pending := none } t.pollClick.engine.screen
        (Text.utf8 reply)
      rw [← Channel.release_of_some hlogged] at hwrites
      rw [Observation.writes, hattempts, ← hremote]
      exact hwrites
    · intro hlocal
      have hpolled : ({ t.pollClick.engine.channel with pending := none } : Channel L).remote =
          false := hremote.trans hlocal
      rw [Engine.screen_reportLoss]
      simp only [Engine.carry, Engine.useChannel, Channel.carry, Channel.release_of_some hpending]
      rw [Channel.sendBytes_of_local hpolled, engine_pollClick, Engine.screen_pollClick]
  silent := by
    intro h hdue
    have hpending := t.pending_pollClick.trans hdue
    obtain ⟨ring, parser, hstep⟩ := step_of_opensGate h
    obtain ⟨o, hobserved, hattempts⟩ := observe_of_opensGate h
    refine ⟨_, o, hstep, hobserved, pending_of_opensGate h hstep, ?_, ?_⟩
    · have hlogged : t.pollClick.engine.logged.channel.pending = none := hpending
      rw [hattempts, Channel.release_of_none hlogged]
      rfl
    · rw [Engine.screen_reportLoss]
      simp only [Engine.carry, Engine.useChannel, Channel.carry, Channel.release_of_none hpending]
      rw [engine_pollClick, Engine.screen_pollClick]
  keys := by
    intro reply key
    simp only [press, withPending, modifyEngine, Engine.press_withPending]

/-! ## Runs -/

/-- A key leaves the reply that waits. -/
theorem pending_press (t : Terminal L S) (key : Key) :
    (t.press key).2.engine.channel.pending = t.engine.channel.pending := by
  have hsame : t.withPending t.engine.channel.pending = t := rfl
  have hkey := t.obeysGate.keys t.engine.channel.pending key
  rw [hsame] at hkey
  have hpressed := congrArg (fun pressed => pressed.2.engine.channel.pending) hkey
  exact hpressed

/-- That reply waits which the moves of the turns so far lead to. -/
theorem pending_history :
    HistoryUnder (fun _ : S → S => True) fun past (t : Terminal L S) =>
      t.engine.channel.pending = GateMove.lastArmed (past.flatMap gateMoves) where
  push := fun _ _ _ h => h
  step := by
    intro t t' more past hstep h
    rw [pending_of_step hstep, h, GateMove.lastArmed, ← GateMove.replay_append,
      List.flatMap_append, List.flatMap_singleton]
    rfl
  press := fun t key _ h => (t.pending_press key).trans h
  surface := fun _ _ _ _ h => h
  link := fun _ _ _ h => h
  collect := fun _ _ h => h

/-- In every run, in each of its turns and at its end, the reply waits that was armed
most recently since the last release; and every turn keeps the gate. -/
theorem gate_of_run_start (settings : Settings) (link : L) (surface : S)
    (tape : S → TapeSource) (events : List (Event L S)) :
    (∀ before t after,
      (start settings link surface tape).runTurns events = before ++ t :: after →
        t.engine.channel.pending = GateMove.lastArmed (before.flatMap gateMoves) ∧
          t.ObeysGate) ∧
      ∀ t, (start settings link surface tape).run events = .ok t →
        t.engine.channel.pending = GateMove.lastArmed
          (((start settings link surface tape).runTurns events).flatMap gateMoves) := by
  obtain ⟨hturns, hend⟩ := pending_history.history_of_run
    (t := start settings link surface tape) (fun event _ => event.allowed_true) rfl
  exact ⟨fun before t after h => ⟨hturns before t after h, t.obeysGate⟩, hend⟩

end

end Terminal

end GraphicsTerminal
