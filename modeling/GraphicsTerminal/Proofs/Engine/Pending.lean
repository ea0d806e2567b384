import GraphicsTerminal.Proofs.Engine.Agreement

/-!
# The armed reply

A reply is armed by a status query, by a cursor or line command or by a click, and a
handshake outside of sequences releases it.  These are the moves of the gate.  Nothing
else looks at the reply that waits: with another one in its place the engine does the
same, and then the other one waits.

Main definitions:

- {lit}`GateMove`, {lit}`GateMove.replay`: what happens to the armed reply.
- {lit}`Engine.byteMoves`, {lit}`Engine.clickMoves`: the moves that a byte and a poll
  make.

Main results:

- Theorem {lit}`Parser.advance_eq_handshake_iff`: a handshake is recognized outside of
  sequences only.
- Theorem {lit}`Engine.receive_withPending`: a byte that is no handshake does the same
  whatever reply waits.
- Theorem {lit}`Engine.receive_handshake`: a handshake sends the reply that waits.
-/

namespace GraphicsTerminal

/-! ## Moves of the gate -/

/-- What happens to the armed reply. -/
inductive GateMove where
  /-- A reply is armed, in place of one that still waits. -/
  | arm (reply : String)
  /-- The armed reply is released. -/
  | release
deriving DecidableEq, Repr

namespace GateMove

/-- The reply that waits after a move. -/
def reply? : GateMove → Option String
  | arm reply => some reply
  | release => none

/-- The reply that waits after moves, if another one may have waited before them: the
last move decides. -/
def replay (waiting : Option String) (moves : List GateMove) : Option String :=
  (moves.getLast?.map reply?).getD waiting

/-- The reply that was armed most recently since the last release. -/
def lastArmed (moves : List GateMove) : Option String := replay none moves

/-- Moves are followed one after another. -/
theorem replay_append (waiting : Option String) (moves later : List GateMove) :
    replay waiting (moves ++ later) = replay (replay waiting moves) later := by
  unfold replay
  rw [List.getLast?_append]
  cases later.getLast? with
  | none => rfl
  | some move => rfl

end GateMove

/-- The moves of the gate that a use of the channel makes. -/
def Traffic.gateMoves : Traffic → List GateMove
  | arm reply => [.arm reply]
  | release => [.release]
  | _ => []

/-! ## Handshakes -/

namespace Parser

/-- No group of graphics sequences is a handshake. -/
theorem graphicsAction_ne_handshake (group : Option GraphicsGroup) (payload : Payload) :
    graphicsAction group payload ≠ .handshake := by
  intro h
  cases group with
  | none => cases h
  | some group =>
    cases group with
    | text =>
      simp only [graphicsAction] at h
      split at h
      · cases h
      · cases h
    | status =>
      simp only [graphicsAction] at h
      split at h
      · cases h
      · cases h
    | _ => cases h

/-- No device sequence is a handshake. -/
theorem deviceAction_ne_handshake (group : DeviceGroup) (payload : Payload) (final : UInt8) :
    deviceAction group payload final ≠ .handshake := by
  intro h
  cases group with
  | enhancements =>
    simp only [deviceAction] at h
    generalize Enhancement.codesOfFinal? final = codes at h
    cases codes with
    | none => cases h
    | some codes => cases h
  | _ => cases h

/-- Completing a graphics sequence releases nothing. -/
theorem completeGraphics_ne_handshake (p : Parser) (group : Option GraphicsGroup) :
    (p.completeGraphics group).1 ≠ .handshake := by
  have haction : (p.completeGraphics group).1 = graphicsAction group p.payload := by
    simp only [completeGraphics]
    split
    · rfl
    · rfl
  rw [haction]
  exact graphicsAction_ne_handshake group p.payload

/-- A text that is handed over is no handshake. -/
theorem takeText_ne_handshake (p : Parser) : p.takeText.1 ≠ some .handshake := by
  unfold takeText
  split
  · intro h
    cases h
  · intro h
    cases h

/-- Outside of sequences a handshake is a byte of its own. -/
theorem advanceIdle_eq_handshake_iff (p : Parser) (b : UInt8) :
    (p.advanceIdle b).1 = some .handshake ↔ b = Byte.dc1 := by
  unfold advanceIdle
  constructor
  · intro h
    split at h
    · cases h
    split at h
    · assumption
    split at h
    · cases h
    · cases h
  · rintro rfl
    rfl

/-- Behind an escape byte a DC1 is a letter without a meaning. -/
theorem advanceEscape_ne_handshake (p : Parser) (b : UInt8) :
    (p.advanceEscape b).1 ≠ some .handshake := by
  intro h
  unfold advanceEscape at h
  split at h
  · cases h
  · cases h
  · cases h
  · cases h
  · generalize SingleCommand.decode? b = command at h
    cases command with
    | none => cases h
    | some command => cases h

/-- In a control sequence a DC1 is no handshake. -/
theorem advanceBracket_ne_handshake (p : Parser) (b : UInt8) :
    (p.advanceBracket b).1 ≠ some .handshake := by
  intro h
  simp only [advanceBracket] at h
  split at h
  · generalize (ControlSequence.decode? (p.collect b).payload).1 = command at h
    cases command with
    | none => cases h
    | some command => cases h
  · cases h

/-- In a graphics sequence a DC1 is a byte of the body. -/
theorem advanceGraphics_ne_handshake (p : Parser) (group : Option GraphicsGroup) (b : UInt8) :
    (p.advanceGraphics group b).1 ≠ some .handshake := by
  intro h
  simp only [advanceGraphics] at h
  split at h
  · exact completeGraphics_ne_handshake _ _ (Option.some.inj h)
  split at h
  · cases h
  split at h
  · exact completeGraphics_ne_handshake _ _ (Option.some.inj h)
  · cases h

/-- In a device sequence a DC1 is a byte of the body. -/
theorem advanceDevice_ne_handshake (p : Parser) (group : Option DeviceGroup) (b : UInt8) :
    (p.advanceDevice group b).1 ≠ some .handshake := by
  intro h
  simp only [advanceDevice] at h
  split at h
  · exact deviceAction_ne_handshake _ _ _ (Option.some.inj h)
  · cases h

/-- In graphics text a DC1 is a byte of the text. -/
theorem advanceText_ne_handshake (p : Parser) (b : UInt8) :
    (p.advanceText b).1 ≠ some .handshake := by
  intro h
  unfold advanceText at h
  split at h
  · exact takeText_ne_handshake _ h
  · cases h

/-- In a label a DC1 is a byte of the text. -/
theorem advanceLabel_ne_handshake (p : Parser) (b : UInt8) :
    (p.advanceLabel b).1 ≠ some .handshake := by
  intro h
  unfold advanceLabel at h
  split at h
  · exact takeText_ne_handshake _ h
  · cases h

/-- A handshake is recognized outside of sequences only. -/
theorem advance_eq_handshake_iff (p : Parser) (b : UInt8) :
    (p.advance b).1 = some .handshake ↔
      b = Byte.dc1 ∧ (p.phase = .idle ∨ p.phase = .awaitClick) := by
  constructor
  · intro h
    simp only [advance] at h
    split at h
    · cases h
    cases hp : p.phase with
    | idle =>
      rw [hp] at h
      exact ⟨(advanceIdle_eq_handshake_iff _ _).1 h, Or.inl rfl⟩
    | awaitClick =>
      rw [hp] at h
      exact ⟨(advanceIdle_eq_handshake_iff _ _).1 h, Or.inr rfl⟩
    | inEscape =>
      rw [hp] at h
      exact absurd h (advanceEscape_ne_handshake _ _)
    | inBracket =>
      rw [hp] at h
      exact absurd h (advanceBracket_ne_handshake _ _)
    | inGraphics group =>
      rw [hp] at h
      exact absurd h (advanceGraphics_ne_handshake _ _ _)
    | inDevice group =>
      rw [hp] at h
      exact absurd h (advanceDevice_ne_handshake _ _ _)
    | inCharset =>
      rw [hp] at h
      cases h
    | graphicsText =>
      rw [hp] at h
      exact absurd h (advanceText_ne_handshake _ _)
    | graphicsLabel =>
      rw [hp] at h
      exact absurd h (advanceLabel_ne_handshake _ _)
  · rintro ⟨rfl, hphase⟩
    have hlf : (Byte.dc1 == Byte.lf) = false := by decide
    simp only [advance, hlf, Bool.and_false, Bool.false_eq_true, if_false]
    rcases hphase with hidle | hwait
    · rw [hidle]
      exact (advanceIdle_eq_handshake_iff _ _).2 rfl
    · rw [hwait]
      exact (advanceIdle_eq_handshake_iff _ _).2 rfl

end Parser

/-! ## Another reply in its place -/

namespace Channel

variable {L : Type} [HostLink L]

/-- The channel with another reply in place of the one that waits. -/
def withPending (c : Channel L) (reply : Option String) : Channel L := { c with pending := reply }

/-- Writing does not look at the reply that waits. -/
theorem sendBytes_withPending (c : Channel L) (reply : Option String) (screen : Screen)
    (bytes : List UInt8) :
    (c.withPending reply).sendBytes screen bytes =
      ((c.sendBytes screen bytes).1.withPending reply, (c.sendBytes screen bytes).2) := by
  cases hremote : c.remote with
  | false => rw [sendBytes_of_local hremote, sendBytes_of_local (by exact hremote)]
  | true =>
    cases hsend : HostLink.send c.link bytes with
    | mk refusal link =>
      cases refusal with
      | none =>
        rw [sendBytes_of_accepted hremote screen hsend,
          sendBytes_of_accepted (by exact hremote) screen (by exact hsend)]
        rfl
      | some reason =>
        rw [sendBytes_of_refused hremote screen hsend,
          sendBytes_of_refused (by exact hremote) screen (by exact hsend)]
        rfl

/-- Neither does the acknowledgement that waits. -/
theorem flushAck_withPending (c : Channel L) (reply : Option String) (screen : Screen) :
    (c.withPending reply).flushAck screen =
      ((c.flushAck screen).1.withPending reply, (c.flushAck screen).2) := by
  have hsame : (c.withPending reply).ackPending = c.ackPending := rfl
  unfold flushAck
  rw [hsame]
  cases c.ackPending with
  | false => rfl
  | true => exact sendBytes_withPending { c with ackPending := false } reply screen [Byte.ack]

/-- A use of the channel that is no release does the same whatever reply waits. -/
theorem carry_withPending (c : Channel L) (reply : Option String) (screen : Screen)
    (source : TapeSource) {traffic : Traffic} (h : traffic ≠ .release) :
    (c.withPending reply).carry screen source traffic =
      ((c.carry screen source traffic).1.withPending (GateMove.replay reply traffic.gateMoves),
        (c.carry screen source traffic).2) := by
  cases traffic with
  | quiet => rfl
  | arm armed => rfl
  | release => exact absurd rfl h
  | send bytes => exact c.sendBytes_withPending reply screen bytes
  | transfer =>
    -- Each byte keeps the two channels equal but for the reply.
    have hbyte : ∀ (target target' : Channel L × Screen) (b : UInt8),
        (target.1.withPending reply, target.2) = target' →
          (Engine.transferByte target b).1 = (Engine.transferByte target' b).1 ∧
            ((Engine.transferByte target b).2.1.withPending reply,
              (Engine.transferByte target b).2.2) = (Engine.transferByte target' b).2 := by
      rintro ⟨channel, screen⟩ _ b rfl
      have hsent := channel.sendBytes_withPending reply screen [b]
      simp only [Engine.transferByte, sendByte, hsent]
      exact ⟨rfl, trivial⟩
    simp only [carry, Transfer.stream_snd]
    have hsame := Transfer.sendAll_related hbyte (s := (c, screen)) rfl source.sentBytes
    exact hsame.2.symm

/-- Writing does not change the reply that waits. -/
@[simp]
theorem pending_sendBytes (c : Channel L) (screen : Screen) (bytes : List UInt8) :
    (c.sendBytes screen bytes).1.pending = c.pending := by
  have hsame : c.withPending c.pending = c := rfl
  have hsent := c.sendBytes_withPending c.pending screen bytes
  rw [hsame] at hsent
  rw [hsent]
  rfl

/-- After a release no reply waits. -/
theorem pending_release (c : Channel L) (screen : Screen) :
    (c.release screen).1.pending = none := by
  unfold release
  split
  · assumption
  · exact pending_sendBytes _ _ _

end Channel

namespace Engine

variable {L S : Type}

/-- The engine with another reply in place of the one that waits. -/
def withPending (e : Engine L S) (reply : Option String) : Engine L S :=
  { e with channel := e.channel.withPending reply }

/-- The moves of the gate that a poll for a click makes. -/
def clickMoves [Surface S] (e : Engine L S) : List GateMove :=
  if e.isAwaitingClick then
    ((Surface.takeClick e.surface).1.map fun click => .arm (Reply.clickReport click)).toList
  else []

/-- The moves of the gate that a byte makes. -/
def byteMoves (e : Engine L S) (b : UInt8) : List GateMove :=
  if b = Byte.enq then [] else (e.byteTraffic b).gateMoves

/-- A click releases nothing. -/
theorem release_notMem_clickMoves [Surface S] (e : Engine L S) : .release ∉ e.clickMoves := by
  intro h
  unfold clickMoves at h
  split at h
  · cases hclick : (Surface.takeClick e.surface).1 with
    | none =>
      rw [hclick] at h
      cases h
    | some click =>
      rw [hclick] at h
      cases List.mem_singleton.1 h
  · cases h

/-- A loss is told whatever reply waits. -/
theorem reportLoss_withPending (e : Engine L S) (reply : Option String) :
    (e.withPending reply).reportLoss = e.reportLoss.withPending reply := by
  obtain ⟨settings, parser, screen, ⟨link, remote, pending, ackPending, lost⟩, surface, graphics,
    tape, alphaActive, events⟩ := e
  cases lost with
  | none => rfl
  | some reason => rfl

/-- A poll does the same whatever reply waits. -/
theorem pollClick_withPending [Surface S] (e : Engine L S) (reply : Option String) :
    (e.withPending reply).pollClick =
      (e.pollClick.1, e.pollClick.2.withPending (GateMove.replay reply e.clickMoves)) := by
  have hwaiting : (e.withPending reply).isAwaitingClick = e.isAwaitingClick := rfl
  unfold pollClick clickMoves
  rw [hwaiting]
  cases e.isAwaitingClick with
  | false => rfl
  | true =>
    simp only [if_true, withPending]
    generalize Surface.takeClick e.surface = taken
    obtain ⟨click, surface⟩ := taken
    cases click with
    | none => rfl
    | some click => rfl

/-- The frame of an engine beside one with another reply in place. -/
def pendingFrame (settings : Settings) (tape : S → TapeSource) (reply : Option String) :
    Frame L L S S where
  settings := settings
  settings' := settings
  tape := tape
  tape' := tape
  channel := fun c c' => c' = c.withPending reply
  surface := Eq
  events := Eq
  settings_eq := rfl
  tape_eq := fun h => congrArg tape h

theorem pendingFrame_kept [Surface S] (settings : Settings) (tape : S → TapeSource)
    (reply : Option String) : (pendingFrame (L := L) settings tape reply).KeptByDrawing where
  call := fun call h => congrArg (Surface.call · call) h
  bell := fun h => congrArg (Array.push · TerminalEvent.bell) h

/-- Another reply that waits is the only difference. -/
theorem agree_withPending (e : Engine L S) (reply : Option String) :
    Agree (pendingFrame e.settings e.tape reply) e (e.withPending reply) where
  settings := rfl
  settings' := rfl
  tape := rfl
  tape' := rfl
  parser := rfl
  screen := rfl
  graphics := rfl
  alphaActive := rfl
  channel := rfl
  surface := rfl
  events := rfl

/-- Engines that differ in nothing but the reply that waits are equal with the same reply. -/
theorem eq_withPending_of_agree {settings : Settings} {tape : S → TapeSource}
    {reply : Option String} {e e' : Engine L S}
    (h : Agree (pendingFrame settings tape reply) e e') : e.withPending reply = e' := by
  have hsettings : e.settings = e'.settings := h.settings.trans h.settings'.symm
  have htape : e.tape = e'.tape := h.tape.trans h.tape'.symm
  have hchannel : e'.channel = e.channel.withPending reply := h.channel
  have hsurface : e.surface = e'.surface := h.surface
  have hevents : e.events = e'.events := h.events
  simp only [withPending, ← hchannel, hsettings, htape, h.parser, h.screen, h.graphics,
    h.alphaActive, hsurface, hevents]

variable [HostLink L]

theorem carry_withPending (e : Engine L S) (reply : Option String) {traffic : Traffic}
    (h : traffic ≠ .release) :
    (e.withPending reply).carry traffic =
      (e.carry traffic).withPending (GateMove.replay reply traffic.gateMoves) := by
  simp only [carry, useChannel, withPending, e.channel.carry_withPending reply _ _ h]

/-- An engine goes idle whatever reply waits. -/
theorem idle_withPending (e : Engine L S) (reply : Option String) :
    (e.withPending reply).idle = e.idle.withPending reply := by
  have hflushed : (e.withPending reply).useChannel Channel.flushAck =
      (e.useChannel Channel.flushAck).withPending reply := by
    simp only [useChannel, withPending, e.channel.flushAck_withPending]
  rw [idle, hflushed, reportLoss_withPending]
  rfl

omit [HostLink L] in
/-- Only a handshake releases the armed reply. -/
theorem traffic_eq_release_iff (e : Engine L S) (action : Action) :
    e.traffic action = .release ↔ action = .handshake := by
  constructor
  · intro h
    cases action with
    | handshake => rfl
    | single command =>
      cases command with
      | _ => cases h
    | control command =>
      cases command with
      | _ => cases h
    | status query =>
      simp only [traffic, statusTraffic] at h
      split at h
      all_goals cases h
    | _ => cases h
  · rintro rfl
    rfl

omit [HostLink L] in
/-- Only a handshake outside of sequences releases the armed reply. -/
theorem byteTraffic_eq_release_iff (e : Engine L S) (b : UInt8) :
    e.byteTraffic b = .release ↔
      b = Byte.dc1 ∧ (e.parser.phase = .idle ∨ e.parser.phase = .awaitClick) := by
  rw [← Parser.advance_eq_handshake_iff, byteTraffic]
  cases (e.parser.advance b).1 with
  | none => simp
  | some action => simp [traffic_eq_release_iff]

/-- An enquiry is answered whatever reply waits. -/
theorem answerEnquiry_withPending (e : Engine L S) (reply : Option String) :
    (e.withPending reply).answerEnquiry = e.answerEnquiry.withPending reply := by
  have hsame : (e.withPending reply).settings = e.settings := rfl
  have hsends : Traffic.send (Text.utf8 (Reply.answerback e.settings.answerback)) ≠ .release :=
    Traffic.noConfusion
  have hsent := e.carry_withPending reply hsends
  unfold answerEnquiry
  rw [hsame]
  split
  · rfl
  · exact hsent

variable [Surface S]

/-- A byte that releases nothing does the same to the parser and the rest, whatever reply
waits. -/
theorem interpret_withPending (e : Engine L S) (reply : Option String) {b : UInt8}
    (h : e.byteTraffic b ≠ .release) :
    (e.withPending reply).interpret b = (e.interpret b).map fun e' =>
      e'.withPending (GateMove.replay reply (e.byteTraffic b).gateMoves) := by
  by_cases hquiet : e.byteTraffic b = .quiet
  · have hmatch :=
      (e.agree_withPending reply).interpret_of_quiet (pendingFrame_kept _ _ reply) hquiet
    have hsame := hmatch.map_eq (g := id) fun _ _ h => eq_withPending_of_agree h
    rw [Except.map_id] at hsame
    rw [hquiet]
    exact hsame.symm
  · have hcarried := carry_withPending { e with parser := (e.parser.advance b).2 } reply h
    rw [interpret_of_traffic e hquiet, interpret_of_traffic (e.withPending reply) hquiet]
    exact congrArg Except.ok hcarried

/-- A byte that releases nothing does the same whatever reply waits. -/
theorem receive_withPending (e : Engine L S) (reply : Option String) {b : UInt8}
    (h : e.byteTraffic b ≠ .release) :
    (e.withPending reply).receive b = (e.receive b).map fun e' =>
      e'.withPending (GateMove.replay reply (e.byteMoves b)) := by
  unfold receive byteMoves
  split
  · rw [answerEnquiry_withPending]
    exact congrArg Except.ok (reportLoss_withPending _ _)
  · rw [interpret_withPending e reply h]
    cases e.interpret b with
    | error fault => rfl
    | ok e' => exact congrArg Except.ok (reportLoss_withPending _ _)

/-- A key does the same whatever reply waits. -/
theorem pressUnlocked_withPending (e : Engine L S) (reply : Option String) (key : Key) :
    (e.withPending reply).pressUnlocked key =
      ((e.pressUnlocked key).1, (e.pressUnlocked key).2.withPending reply) := by
  rcases e.keyTraffic_cases key with hquiet | ⟨bytes, hsend⟩
  · obtain ⟨houtcome, hpressed⟩ :=
      (e.agree_withPending reply).pressUnlocked_of_quiet (pendingFrame_kept _ _ reply) hquiet
    rw [houtcome, eq_withPending_of_agree hpressed]
  · have htraffic : e.keyTraffic key ≠ .quiet := by
      rw [hsend]
      exact Traffic.noConfusion
    rw [e.pressUnlocked_of_traffic htraffic,
      (e.withPending reply).pressUnlocked_of_traffic htraffic, hsend]
    have hsame : (e.withPending reply).keyTraffic key = .send bytes := hsend
    rw [hsame, carry_withPending e reply Traffic.noConfusion]
    rfl

/-- Keys do the same whatever reply waits. -/
theorem press_withPending (e : Engine L S) (reply : Option String) (key : Key) :
    (e.withPending reply).press key = ((e.press key).1, (e.press key).2.withPending reply) := by
  have hsame : (e.withPending reply).screen = e.screen := rfl
  unfold press
  rw [hsame]
  split
  · split
    · rfl
    · rfl
  · rw [pressUnlocked_withPending]
    exact congrArg (Prod.mk _) (reportLoss_withPending _ _)

omit [HostLink L] [Surface S] in
/-- A byte releases the armed reply exactly if it is a handshake outside of sequences. -/
theorem release_mem_byteMoves_iff (e : Engine L S) (b : UInt8) :
    .release ∈ e.byteMoves b ↔
      b = Byte.dc1 ∧ (e.parser.phase = .idle ∨ e.parser.phase = .awaitClick) := by
  rw [← byteTraffic_eq_release_iff]
  unfold byteMoves
  constructor
  · intro h
    split at h
    · cases h
    · cases htraffic : e.byteTraffic b with
      | release => rfl
      | arm reply =>
        rw [htraffic] at h
        cases List.mem_singleton.1 h
      | _ =>
        rw [htraffic] at h
        cases h
  · intro h
    obtain ⟨rfl, -⟩ := (e.byteTraffic_eq_release_iff b).1 h
    have hne : ¬ Byte.dc1 = Byte.enq := by decide
    rw [if_neg hne, h]
    exact List.mem_cons_self

omit [HostLink L] [Surface S] in
/-- A handshake outside of sequences is a release. -/
theorem byteMoves_handshake {e : Engine L S}
    (h : e.parser.phase = .idle ∨ e.parser.phase = .awaitClick) :
    e.byteMoves Byte.dc1 = [.release] := by
  have hne : ¬ Byte.dc1 = Byte.enq := by decide
  have hrelease := (e.byteTraffic_eq_release_iff Byte.dc1).2 ⟨rfl, h⟩
  rw [byteMoves, if_neg hne, hrelease]
  rfl

/-- A handshake outside of sequences sends the reply that waits. -/
theorem receive_handshake (e : Engine L S)
    (h : e.parser.phase = .idle ∨ e.parser.phase = .awaitClick) :
    e.receive Byte.dc1 =
      .ok ({ e with parser := (e.parser.advance Byte.dc1).2 }.carry .release).reportLoss := by
  have hne : ¬ Byte.dc1 = Byte.enq := by decide
  have hrelease := (e.byteTraffic_eq_release_iff Byte.dc1).2 ⟨rfl, h⟩
  have hquiet : e.byteTraffic Byte.dc1 ≠ .quiet := by
    rw [hrelease]
    exact Traffic.noConfusion
  rw [receive, if_neg hne, interpret_of_traffic e hquiet, hrelease]
  rfl

end Engine

end GraphicsTerminal
