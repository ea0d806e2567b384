import GraphicsTerminal.Proofs.Engine.Agreement

/-!
# Local echo

A local channel shows what it would send.  This is said by a comparison: the same engine
over a link that accepts everything does the same, but what it sends there is put on the
screen here, byte by byte and in order.

Main definitions:

- {lit}`Engine.connected`: the engine over a link that accepts everything.
- {lit}`Engine.echoed`: what was sent, put on the screen instead.

Main results:

- Theorem {lit}`Engine.carry_eq_echoed`: a local channel shows what a use of it would
  send.
- Theorems {lit}`Engine.receive_eq_echoed`, {lit}`Engine.idle_eq_echoed` and
  {lit}`Engine.press_eq_echoed`: so do bytes, idle moments and keys.
-/

namespace GraphicsTerminal

/-! ## Channels -/

namespace Channel

variable {L : Type}

/-- The channel over a link that accepts everything. -/
def connected (c : Channel L) : Channel RecordingLink :=
  ⟨RecordingLink.unlimited, true, c.pending, c.ackPending, c.lost⟩

/-- The channel over a link that is lost. -/
def disconnected (c : Channel RecordingLink) (link : L) : Channel L :=
  ⟨link, false, c.pending, c.ackPending, c.lost⟩

/-- A local channel and a screen, beside a channel whose link accepts everything: what
was sent there is shown here. -/
structure Echoes (target : Channel L × Screen) (other : Channel RecordingLink × Screen)
    (link : L) : Prop where
  channel : target.1 = other.1.disconnected link
  screen : target.2 = other.2.putBytes other.1.link.sent.toList
  remote : other.1.remote = true
  unlimited : other.1.link.limit = none
  opened : other.1.link.closed = false

theorem echoes_connected {c : Channel L} (h : c.remote = false) (screen : Screen) :
    Echoes (c, screen) (c.connected, screen) c.link where
  channel := by
    obtain ⟨link, remote, pending, ackPending, lost⟩ := c
    obtain rfl : remote = false := h
    rfl
  screen := rfl
  remote := rfl
  unlimited := rfl
  opened := rfl

namespace Echoes

variable {target : Channel L × Screen} {other : Channel RecordingLink × Screen} {link : L}

/-- An open link without a limit accepts every write. -/
theorem accepted (h : Echoes target other link) (bytes : List UInt8) :
    HostLink.send other.1.link bytes =
      (none, { other.1.link with sent := other.1.link.sent ++ bytes.toArray }) := by
  have haccepts : other.1.link.accepts bytes.length = true := by
    rw [RecordingLink.accepts, h.unlimited, h.opened]
    rfl
  exact if_pos haccepts

variable [HostLink L]

/-- What is sent there is shown here. -/
theorem sendBytes (h : Echoes target other link) (bytes : List UInt8) :
    Echoes (target.1.sendBytes target.2 bytes) (other.1.sendBytes other.2 bytes) link := by
  have hlocal : target.1.remote = false := by
    rw [h.channel]
    rfl
  rw [sendBytes_of_local hlocal, sendBytes_of_accepted h.remote other.2 (h.accepted bytes)]
  exact
    { channel := h.channel
      screen := by
        rw [Array.toList_append, Screen.putBytes_append, h.screen]
      remote := h.remote
      unlimited := h.unlimited
      opened := h.opened }

/-- A byte of a transfer is refused on neither side. -/
theorem transferByte (h : Echoes target other link) (b : UInt8) :
    (Engine.transferByte target b).1 = (Engine.transferByte other b).1 ∧
      Echoes (Engine.transferByte target b).2 (Engine.transferByte other b).2 link := by
  have hsent := h.sendBytes [b]
  have hlocal : target.1.remote = false := by
    rw [h.channel]
    rfl
  simp only [Engine.transferByte, sendByte, hlocal, h.remote, hsent.remote]
  exact ⟨rfl, hsent⟩

/-- What a use of the channel sends there is shown here. -/
theorem carry (h : Echoes target other link) (source : TapeSource) (traffic : Traffic) :
    Echoes (target.1.carry target.2 source traffic) (other.1.carry other.2 source traffic)
      link := by
  cases traffic with
  | quiet => exact h
  | arm reply =>
    exact { h with channel := congrArg (Channel.arm · reply) h.channel }
  | release =>
    have hpending : other.1.pending = target.1.pending := by
      rw [h.channel]
      rfl
    simp only [Channel.carry]
    cases harmed : target.1.pending with
    | none =>
      rw [harmed] at hpending
      rw [release_of_none harmed, release_of_none hpending]
      exact h
    | some reply =>
      rw [harmed] at hpending
      rw [release_of_some harmed, release_of_some hpending]
      have hdisarmed : Echoes ({ target.1 with pending := none }, target.2)
          ({ other.1 with pending := none }, other.2) link :=
        { h with channel := by rw [h.channel]; rfl }
      exact hdisarmed.sendBytes (Text.utf8 reply)
  | send bytes => exact h.sendBytes bytes
  | transfer =>
    simp only [Channel.carry, Transfer.stream_snd]
    exact (Transfer.sendAll_related
      (R := fun (target : Channel L × Screen) (other : Channel RecordingLink × Screen) =>
        Echoes target other link)
      (fun _ _ b h => h.transferByte b) h source.sentBytes).2

/-- The acknowledgement that waits is shown here. -/
theorem flushAck (h : Echoes target other link) :
    Echoes (target.1.flushAck target.2) (other.1.flushAck other.2) link := by
  have hack : target.1.ackPending = other.1.ackPending := by
    rw [h.channel]
    rfl
  unfold Channel.flushAck
  rw [hack]
  split
  · have hcleared : Echoes ({ target.1 with ackPending := false }, target.2)
        ({ other.1 with ackPending := false }, other.2) link :=
      { h with channel := by rw [h.channel]; rfl }
    exact hcleared.sendBytes [Byte.ack]
  · exact h

end Echoes

end Channel

/-! ## Engines -/

namespace Engine

variable {L S : Type}

/-- The engine over a link that accepts everything. -/
def connected (e : Engine L S) : Engine RecordingLink S :=
  { settings := e.settings
    parser := e.parser
    screen := e.screen
    channel := e.channel.connected
    surface := e.surface
    graphics := e.graphics
    tape := e.tape
    alphaActive := e.alphaActive
    events := e.events }

/-- What was sent, put on the screen instead. -/
def echoed (e : Engine RecordingLink S) (link : L) : Engine L S :=
  { settings := e.settings
    parser := e.parser
    screen := e.screen.putBytes e.channel.link.sent.toList
    channel := e.channel.disconnected link
    surface := e.surface
    graphics := e.graphics
    tape := e.tape
    alphaActive := e.alphaActive
    events := e.events }

/-- A use of the channel, when what it sends over a link that accepts everything is
shown instead. -/
theorem useChannel_eq_echoed {e : Engine L S}
    {f : Channel L → Screen → Channel L × Screen}
    {g : Channel RecordingLink → Screen → Channel RecordingLink × Screen}
    (h : Channel.Echoes (f e.channel e.screen) (g e.connected.channel e.screen) e.channel.link) :
    e.useChannel f = (e.connected.useChannel g).echoed e.channel.link := by
  simp only [useChannel, echoed, h.channel, h.screen]
  rfl

theorem reportLoss_echoed (e : Engine RecordingLink S) (link : L) :
    (e.echoed link).reportLoss = e.reportLoss.echoed link := by
  obtain ⟨settings, parser, screen, ⟨sent, remote, pending, ackPending, lost⟩, surface, graphics,
    tape, alphaActive, events⟩ := e
  cases lost with
  | none => rfl
  | some reason => rfl

theorem pollClick_connected [Surface S] (e : Engine L S) :
    e.connected.pollClick = (e.pollClick.1, e.pollClick.2.connected) := by
  have hwaiting : e.connected.isAwaitingClick = e.isAwaitingClick := rfl
  unfold pollClick
  rw [hwaiting]
  cases e.isAwaitingClick with
  | false => rfl
  | true =>
    simp only [if_true, connected]
    generalize Surface.takeClick e.surface = taken
    obtain ⟨click, surface⟩ := taken
    cases click with
    | none => rfl
    | some click => rfl

/-- The frame of a local engine beside the one over a link that accepts everything. -/
def echoFrame (settings : Settings) (tape : S → TapeSource) (link : L) :
    Frame L RecordingLink S S where
  settings := settings
  settings' := settings
  tape := tape
  tape' := tape
  channel := fun c c' => c' = c.connected ∧ c = c'.disconnected link
  surface := Eq
  events := Eq
  settings_eq := rfl
  tape_eq := fun h => congrArg tape h

theorem echoFrame_kept [Surface S] (settings : Settings) (tape : S → TapeSource) (link : L) :
    (echoFrame settings tape link).KeptByDrawing where
  call := fun call h => congrArg (Surface.call · call) h
  bell := fun h => congrArg (Array.push · TerminalEvent.bell) h

theorem agree_connected {e : Engine L S} (h : e.channel.remote = false) :
    Agree (echoFrame e.settings e.tape e.channel.link) e e.connected where
  settings := rfl
  settings' := rfl
  tape := rfl
  tape' := rfl
  parser := rfl
  screen := rfl
  graphics := rfl
  alphaActive := rfl
  channel := ⟨rfl, (Channel.echoes_connected h e.screen).channel⟩
  surface := rfl
  events := rfl

/-- As long as nothing is sent the screens are the same. -/
theorem eq_echoed_of_agree {settings : Settings} {tape : S → TapeSource} {link : L}
    {e : Engine L S} {e' : Engine RecordingLink S}
    (h : Agree (echoFrame settings tape link) e e') : e = e'.echoed link := by
  obtain ⟨hconnected, hchannel⟩ := h.channel
  have hsettings : e'.settings = e.settings := h.settings'.trans h.settings.symm
  have htape : e'.tape = e.tape := h.tape'.trans h.tape.symm
  have hsurface : e.surface = e'.surface := h.surface
  have hevents : e.events = e'.events := h.events
  have hsent : e'.channel.link.sent.toList = [] := by
    rw [hconnected]
    rfl
  simp only [echoed, hsent, ← hchannel, hsettings, htape, ← h.parser, ← h.screen, ← h.graphics,
    ← h.alphaActive, ← hsurface, ← hevents]
  rfl

variable [HostLink L]

/-- A local channel shows what a use of it would send. -/
theorem carry_eq_echoed {e : Engine L S} (h : e.channel.remote = false) (traffic : Traffic) :
    e.carry traffic = (e.connected.carry traffic).echoed e.channel.link :=
  useChannel_eq_echoed ((Channel.echoes_connected h e.screen).carry _ traffic)

/-- An idle moment shows the acknowledgement that it would send. -/
theorem idle_eq_echoed {e : Engine L S} (h : e.channel.remote = false) :
    e.idle = e.connected.idle.echoed e.channel.link := by
  rw [idle, idle, useChannel_eq_echoed (Channel.echoes_connected h e.screen).flushAck,
    reportLoss_echoed]

theorem answerEnquiry_eq_echoed {e : Engine L S} (h : e.channel.remote = false) :
    e.answerEnquiry = e.connected.answerEnquiry.echoed e.channel.link := by
  have hsame : e.connected.settings = e.settings := rfl
  unfold answerEnquiry
  rw [hsame]
  split
  · have hchannel : e.channel = e.channel.connected.disconnected e.channel.link :=
      (Channel.echoes_connected h e.screen).channel
    exact eq_echoed_of_agree { agree_connected h with
      channel := ⟨rfl, congrArg Channel.queueAck hchannel⟩ }
  · exact carry_eq_echoed h (.send _)

variable [Surface S]

theorem interpret_eq_echoed {e : Engine L S} (h : e.channel.remote = false) (b : UInt8) :
    e.interpret b = (e.connected.interpret b).map fun e' => e'.echoed e.channel.link := by
  by_cases hquiet : e.byteTraffic b = .quiet
  · have hmatch := (agree_connected h).interpret_of_quiet (echoFrame_kept _ _ _) hquiet
    have hsame := hmatch.map_eq (f := id) fun _ _ h => eq_echoed_of_agree h
    rw [Except.map_id] at hsame
    exact hsame
  · rw [interpret_of_traffic e hquiet, interpret_of_traffic e.connected hquiet]
    have hadvanced : ({ e with parser := (e.parser.advance b).2 } : Engine L S).channel.remote =
        false := h
    exact congrArg Except.ok (carry_eq_echoed hadvanced (e.byteTraffic b))

/-- What a byte would send is shown. -/
theorem receive_eq_echoed {e : Engine L S} (h : e.channel.remote = false) (b : UInt8) :
    e.receive b = (e.connected.receive b).map fun e' => e'.echoed e.channel.link := by
  unfold receive
  split
  · rw [answerEnquiry_eq_echoed h]
    exact congrArg Except.ok (reportLoss_echoed _ _)
  · rw [interpret_eq_echoed h]
    cases e.connected.interpret b with
    | error fault => rfl
    | ok e' => exact congrArg Except.ok (reportLoss_echoed _ _)

theorem pressUnlocked_eq_echoed {e : Engine L S} (h : e.channel.remote = false) (key : Key) :
    e.pressUnlocked key = ((e.connected.pressUnlocked key).1,
      (e.connected.pressUnlocked key).2.echoed e.channel.link) := by
  by_cases hquiet : e.keyTraffic key = .quiet
  · obtain ⟨houtcome, hpressed⟩ :=
      (agree_connected h).pressUnlocked_of_quiet (echoFrame_kept _ _ _) hquiet
    rw [← houtcome, ← eq_echoed_of_agree hpressed]
  · rw [e.pressUnlocked_of_traffic hquiet, e.connected.pressUnlocked_of_traffic hquiet]
    exact congrArg (Prod.mk _) (carry_eq_echoed h (e.keyTraffic key))

/-- What a key would send is shown. -/
theorem press_eq_echoed {e : Engine L S} (h : e.channel.remote = false) (key : Key) :
    e.press key =
      ((e.connected.press key).1, (e.connected.press key).2.echoed e.channel.link) := by
  have hsame : e.connected.screen = e.screen := rfl
  have hself : e = e.connected.echoed e.channel.link := eq_echoed_of_agree (agree_connected h)
  unfold press
  rw [hsame]
  split
  · split
    · exact congrArg (Prod.mk _) (eq_echoed_of_agree ((agree_connected h).modifyScreen _))
    · exact congrArg (Prod.mk _) hself
  · rw [pressUnlocked_eq_echoed h]
    exact congrArg (Prod.mk _) (reportLoss_echoed _ _)

end Engine

end GraphicsTerminal
