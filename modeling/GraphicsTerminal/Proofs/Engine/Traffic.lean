import GraphicsTerminal.Engine.Keyboard

/-!
# What actions and keys ask of the channel

An action or a key makes at most one use of the response channel, and then it
does nothing else: it arms a reply, sends the armed one, sends some bytes or the
tape image.  Every other action leaves the channel alone.

Main definitions:

- {lit}`Traffic`: a use of the channel.
- {lit}`Channel.carry`, {lit}`Engine.carry`: the effect of a use.
- {lit}`Engine.traffic`, {lit}`Engine.byteTraffic`, {lit}`Engine.keyTraffic`: the use
  that an action, a byte or a key makes.

Main results:

- Theorems {lit}`Engine.apply_of_traffic` and
  {lit}`Engine.pressUnlocked_of_traffic`: an action or a key that uses the channel
  does nothing else.
-/

namespace GraphicsTerminal

/-- A use of the response channel. -/
inductive Traffic where
  /-- No use. -/
  | quiet
  /-- Arm a reply. -/
  | arm (reply : String)
  /-- Send the armed reply. -/
  | release
  /-- Send bytes at once. -/
  | send (bytes : List UInt8)
  /-- Send the tape image. -/
  | transfer
deriving DecidableEq, Repr

/-- The bytes of a transfer from a source. -/
def TapeSource.sentBytes : TapeSource → List UInt8
  | image bytes => bytes ++ Transfer.trailer
  | unreadable _ => Transfer.failedTrailer

/-- A transfer leaves the sender where sending all its bytes leads. -/
theorem Transfer.stream_snd {σ : Type} (source : TapeSource)
    (send : σ → UInt8 → Option String × σ) (s : σ) :
    (stream source send s).2 = (sendAll send s source.sentBytes).2 := by
  cases source with
  | image bytes =>
    simp only [stream, TapeSource.sentBytes]
    split
    · rename_i hsent
      rw [hsent]
    · rename_i hsent
      rw [hsent]
  | unreadable why =>
    simp only [stream, TapeSource.sentBytes]
    split
    · rename_i hsent
      rw [hsent]
    · rename_i hsent
      rw [hsent]

namespace Channel

variable {L : Type} [HostLink L]

/-- Use the channel.  The tape image is needed for a transfer only. -/
def carry (c : Channel L) (screen : Screen) (source : TapeSource) :
    Traffic → Channel L × Screen
  | .quiet => (c, screen)
  | .arm reply => (c.arm reply, screen)
  | .release => c.release screen
  | .send bytes => c.sendBytes screen bytes
  | .transfer => (Transfer.stream source Engine.transferByte (c, screen)).2

end Channel

namespace Engine

variable {L S : Type} [HostLink L]

/-- Use the channel. -/
def carry (e : Engine L S) (traffic : Traffic) : Engine L S :=
  e.useChannel fun channel screen => channel.carry screen (e.tape e.surface) traffic

/-! ## Actions -/

/-- The use of the channel by a status query. -/
def statusTraffic (e : Engine L S) : Option Int → Traffic
  | some 1 => .arm (Reply.answerback e.settings.answerback)
  | some 2 => .arm (Reply.penReport e.graphics.pen e.graphics.penDown)
  | some 3 => .arm (Reply.graphicsCursorReport e.graphics.cursor)
  | some 4 => .quiet
  | some 5 =>
    .arm (Reply.displaySizeReport e.graphics.width e.graphics.height
      e.settings.model.sizeMarker)
  | some 8 => .arm Reply.zoomStatus
  | _ => .send (Text.utf8 Reply.unsupportedStatus)

/-- The use of the channel by a command of one letter. -/
def singleTraffic (e : Engine L S) : SingleCommand → Traffic
  | .cursorSense => .arm (Reply.cursorSense e.screen.cursor.column e.screen.cursorRow)
  | .sendLine =>
    .arm (Reply.line (e.screen.viewLine e.screen.cursor.row e.screen.cursor.column columns))
  | .fileTransfer => .transfer
  | .primaryStatus => .arm Reply.primaryStatus
  | .secondaryStatus => .arm Reply.secondaryStatus
  | _ => .quiet

/-- The use of the channel by an action. -/
def traffic (e : Engine L S) : Action → Traffic
  | .handshake => .release
  | .single command => e.singleTraffic command
  | .control .cursorReport =>
    .send (Text.utf8 (Reply.cursorReport e.screen.cursor.column e.screen.cursor.row))
  | .status query => e.statusTraffic query
  | _ => .quiet

/-- The use of the channel by the action that a byte completes. -/
def byteTraffic (e : Engine L S) (b : UInt8) : Traffic :=
  (e.parser.advance b).1.elim .quiet e.traffic

variable [Surface S]

theorem applyStatus_of_traffic (e : Engine L S) {query : Option Int}
    (h : e.statusTraffic query ≠ .quiet) :
    e.applyStatus query = e.carry (e.statusTraffic query) := by
  revert h
  fun_cases statusTraffic e query with
  | case4 =>
    intro h
    exact absurd rfl h
  | case7 query =>
    intro _
    rw [applyStatus]
    · rfl
    all_goals assumption
  | _ =>
    intro _
    rfl

theorem applySingle_of_traffic (e : Engine L S) {command : SingleCommand}
    (h : e.singleTraffic command ≠ .quiet) :
    e.applySingle command = e.carry (e.singleTraffic command) := by
  cases command with
  | cursorSense => rfl
  | sendLine => rfl
  | fileTransfer => rfl
  | primaryStatus => rfl
  | secondaryStatus => rfl
  | _ => exact absurd rfl h

/-- An action that uses the channel does nothing else. -/
theorem apply_of_traffic (e : Engine L S) {action : Action} (h : e.traffic action ≠ .quiet) :
    e.apply action = .ok (e.carry (e.traffic action)) := by
  cases action with
  | handshake => rfl
  | single command => exact congrArg Except.ok (e.applySingle_of_traffic h)
  | control command =>
    cases command with
    | cursorReport => rfl
    | _ => exact absurd rfl h
  | status query => exact congrArg Except.ok (e.applyStatus_of_traffic h)
  | _ => exact absurd rfl h

/-- A byte that uses the channel does nothing else but advance the parser. -/
theorem interpret_of_traffic (e : Engine L S) {b : UInt8} (h : e.byteTraffic b ≠ .quiet) :
    e.interpret b =
      .ok ({ e with parser := (e.parser.advance b).2 }.carry (e.byteTraffic b)) := by
  cases haction : (e.parser.advance b).1 with
  | none =>
    simp only [byteTraffic, haction] at h
    exact absurd rfl h
  | some action =>
    simp only [byteTraffic, interpret, haction] at h ⊢
    exact apply_of_traffic { e with parser := (e.parser.advance b).2 } h

/-! ## Keys -/

/-- The use of the channel by a cursor key, which is sent unless it moves the cursor. -/
def cursorTraffic (e : Engine L S) (key : CursorKey) : Traffic :=
  if e.settings.localKeys then .quiet else .send (e.settings.model.cursorKey key)

/-- The use of the channel by a key on an unlocked keyboard. -/
def keyTraffic (e : Engine L S) : Key → Traffic
  | .up false => e.cursorTraffic .up
  | .down false => e.cursorTraffic .down
  | .left => e.cursorTraffic .left
  | .right => e.cursorTraffic .right
  | .enter => .send [e.settings.enterByte]
  | .char b => if b = Byte.del ∧ e.settings.localKeys then .quiet else .send [b]
  | _ => .quiet

omit [HostLink L] [Surface S] in
/-- A key uses the channel only to send bytes at once. -/
theorem keyTraffic_cases (e : Engine L S) (key : Key) :
    e.keyTraffic key = .quiet ∨ ∃ bytes, e.keyTraffic key = .send bytes := by
  have hcursor (key : CursorKey) :
      e.cursorTraffic key = .quiet ∨ ∃ bytes, e.cursorTraffic key = .send bytes := by
    unfold cursorTraffic
    split
    · exact Or.inl rfl
    · exact Or.inr ⟨_, rfl⟩
  cases key with
  | up ctrl =>
    cases ctrl with
    | true => exact Or.inl rfl
    | false => exact hcursor .up
  | down ctrl =>
    cases ctrl with
    | true => exact Or.inl rfl
    | false => exact hcursor .down
  | left => exact hcursor .left
  | right => exact hcursor .right
  | enter => exact Or.inr ⟨_, rfl⟩
  | char b =>
    simp only [keyTraffic]
    split
    · exact Or.inl rfl
    · exact Or.inr ⟨_, rfl⟩
  | _ => exact Or.inl rfl

omit [Surface S] in
theorem pressCursor_of_traffic (e : Engine L S) {key : CursorKey} (rows cols : Int)
    (h : e.cursorTraffic key ≠ .quiet) :
    e.pressCursor key rows cols = e.carry (e.cursorTraffic key) := by
  unfold cursorTraffic at h ⊢
  unfold pressCursor
  split
  · rename_i hlocal
    exact absurd (if_pos hlocal) h
  · rfl

/-- A key that uses the channel is handled and does nothing else. -/
theorem pressUnlocked_of_traffic (e : Engine L S) {key : Key} (h : e.keyTraffic key ≠ .quiet) :
    e.pressUnlocked key = (.handled, e.carry (e.keyTraffic key)) := by
  cases key with
  | up ctrl =>
    cases ctrl with
    | true => exact absurd rfl h
    | false => exact congrArg (Prod.mk _) (e.pressCursor_of_traffic (-1) 0 h)
  | down ctrl =>
    cases ctrl with
    | true => exact absurd rfl h
    | false => exact congrArg (Prod.mk _) (e.pressCursor_of_traffic 1 0 h)
  | left => exact congrArg (Prod.mk _) (e.pressCursor_of_traffic 0 (-1) h)
  | right => exact congrArg (Prod.mk _) (e.pressCursor_of_traffic 0 1 h)
  | enter => rfl
  | char b =>
    simp only [keyTraffic] at h ⊢
    simp only [pressUnlocked]
    split
    · rename_i hdel
      exact absurd (if_pos hdel) h
    · rfl
  | _ => exact absurd rfl h

/-! ## Polls -/

omit [HostLink L] in
/-- A poll arms the report of its click, if there is one. -/
theorem channel_pollClick (e : Engine L S) :
    e.pollClick.2.channel = e.channel ∨
      ∃ reply, e.pollClick.2.channel = e.channel.arm reply := by
  unfold pollClick
  split
  · split
    · exact Or.inl rfl
    · exact Or.inr ⟨_, rfl⟩
  · exact Or.inl rfl

omit [HostLink L] in
theorem remote_pollClick (e : Engine L S) :
    e.pollClick.2.channel.remote = e.channel.remote := by
  rcases e.channel_pollClick with hsame | ⟨reply, harmed⟩
  · rw [hsame]
  · rw [harmed]
    rfl

omit [HostLink L] in
theorem link_pollClick (e : Engine L S) : e.pollClick.2.channel.link = e.channel.link := by
  rcases e.channel_pollClick with hsame | ⟨reply, harmed⟩
  · rw [hsame]
  · rw [harmed]
    rfl

omit [HostLink L] in
theorem screen_pollClick (e : Engine L S) : e.pollClick.2.screen = e.screen := by
  unfold pollClick
  split
  · split
    · rfl
    · rfl
  · rfl

/-! ## Reports of a loss -/

omit [HostLink L] [Surface S] in
/-- A report clears the loss and leaves the rest of the channel. -/
theorem channel_reportLoss (e : Engine L S) :
    e.reportLoss.channel = { e.channel with lost := none } := by
  unfold reportLoss Channel.takeLoss report
  cases e.channel.lost with
  | none => rfl
  | some reason => rfl

omit [HostLink L] [Surface S] in
@[simp]
theorem screen_reportLoss (e : Engine L S) : e.reportLoss.screen = e.screen := by
  unfold reportLoss Channel.takeLoss report
  cases e.channel.lost with
  | none => rfl
  | some reason => rfl

end Engine

end GraphicsTerminal
