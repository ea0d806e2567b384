import GraphicsTerminal.Engine.Keyboard
import GraphicsTerminal.Proofs.Screen.WellFormed

/-!
# Well-formed engines

An engine is well-formed when its screen is and when the size of the picture
is supported.  Replies and transfers write to the screen when the link is not in
use, so they belong to what has to keep the screen well-formed.

Main definitions:

- {lit}`GraphicsState.Sized`: the size of the picture is supported.
- {lit}`Engine.WellFormed`: the screen is well-formed and the picture is sized.

Main results:

- Theorem {lit}`Engine.WellFormed.apply`: every action keeps the engine
  well-formed.
- Theorems {lit}`Engine.WellFormed.receive`, {lit}`Engine.WellFormed.pollClick`,
  {lit}`Engine.WellFormed.idle` and {lit}`Engine.WellFormed.press`: so do bytes,
  clicks, idle moments and keys.
-/

namespace GraphicsTerminal

/-! ## The picture -/

/-- The size of the picture is supported. -/
structure GraphicsState.Sized (g : GraphicsState) : Prop where
  width_ge : leastWidth ≤ g.width
  width_le : g.width ≤ greatestWidth
  height_ge : leastHeight ≤ g.height
  height_le : g.height ≤ greatestHeight

namespace GraphicsState.Sized

variable {g : GraphicsState}

/-- A stored size is supported, whatever was asked for. -/
theorem setSize (g : GraphicsState) (width height : Nat) : (g.setSize width height).Sized where
  width_ge := Nat.le_max_left _ _
  width_le := Nat.max_le.2 ⟨by decide, Nat.min_le_right _ _⟩
  height_ge := Nat.le_max_left _ _
  height_le := Nat.max_le.2 ⟨by decide, Nat.min_le_right _ _⟩

/-- The reset graphics state has a supported size. -/
theorem reset (h : g.Sized) : g.reset.Sized :=
  { h with }

/-- Recording a call keeps the size supported. -/
theorem record (h : g.Sized) (call : SurfaceCall) : (g.record call).Sized := by
  cases call with
  | moveTo point => exact { h with }
  | lineTo point => exact { h with }
  | _ => exact h

end GraphicsState.Sized

/-! ## The channel -/

namespace Channel

variable {L : Type} [HostLink L] {screen : Screen}

/-- Bytes that are sent keep the screen well-formed, also when they show on it
or the link is lost. -/
theorem sendBytes_wellFormed (c : Channel L) (h : screen.WellFormed) (bytes : List UInt8) :
    (c.sendBytes screen bytes).2.WellFormed := by
  unfold sendBytes
  split
  · split
    · exact h
    · exact h.putText _
  · exact h.putBytes bytes

/-- Releasing a reply keeps the screen well-formed, also when it is shown there. -/
theorem release_wellFormed (c : Channel L) (h : screen.WellFormed) :
    (c.release screen).2.WellFormed := by
  unfold release
  split
  · exact h
  · exact sendBytes_wellFormed _ h _

/-- Sending the acknowledgement keeps the screen well-formed. -/
theorem flushAck_wellFormed (c : Channel L) (h : screen.WellFormed) :
    (c.flushAck screen).2.WellFormed := by
  unfold flushAck
  split
  · exact sendBytes_wellFormed _ h _
  · exact h

end Channel

namespace Transfer

variable {σ : Type} {P : σ → Prop} {send : σ → UInt8 → Option String × σ}

/-- A property that every byte keeps is kept by all bytes. -/
theorem sendAll_keeps (hsend : ∀ s b, P s → P (send s b).2) {s : σ} (hs : P s)
    (bytes : List UInt8) : P (sendAll send s bytes).2 := by
  induction bytes generalizing s with
  | nil => exact hs
  | cons b rest ih =>
    have hnext := hsend s b hs
    rw [sendAll]
    split
    · rename_i next hsent
      rw [hsent] at hnext
      exact ih hnext
    · rename_i reason next hsent
      rw [hsent] at hnext
      exact hnext

/-- A property that every byte keeps is kept by a transfer. -/
theorem stream_keeps (hsend : ∀ s b, P s → P (send s b).2) {s : σ} (hs : P s)
    (source : TapeSource) : P (stream source send s).2 := by
  cases source with
  | image bytes =>
    have hall := sendAll_keeps hsend hs (bytes ++ trailer)
    simp only [stream]
    split
    · rename_i hsent
      rwa [hsent] at hall
    · rename_i hsent
      rwa [hsent] at hall
  | unreadable why =>
    have hall := sendAll_keeps hsend hs failedTrailer
    simp only [stream]
    split
    · rename_i hsent
      rwa [hsent] at hall
    · rename_i hsent
      rwa [hsent] at hall

end Transfer

namespace Engine

variable {L S : Type}

/-! ## Well-formed engines -/

/-- The screen is well-formed and the size of the picture is supported. -/
structure WellFormed (e : Engine L S) : Prop where
  screen : e.screen.WellFormed
  graphics : e.graphics.Sized

namespace WellFormed

variable {e e' : Engine L S}

/-- A new engine is well-formed. -/
theorem start [Surface S] (settings : Settings) (link : L) (surface : S)
    (tape : S → TapeSource) : (Engine.start settings link surface tape).WellFormed where
  screen := Screen.initial_wellFormed
  graphics := GraphicsState.Sized.setSize _ _ _

/-- A change that keeps the screen well-formed keeps the engine so. -/
theorem modifyScreen (h : e.WellFormed) {f : Screen → Screen}
    (hf : e.screen.WellFormed → (f e.screen).WellFormed) : (e.modifyScreen f).WellFormed where
  screen := hf h.screen
  graphics := h.graphics

/-- Calls to the surface keep the engine well-formed. -/
theorem tell [Surface S] (h : e.WellFormed) (call : SurfaceCall) : (e.tell call).WellFormed :=
  ⟨h.screen, h.graphics⟩

/-- A reply may wait in a well-formed engine. -/
theorem arm (h : e.WellFormed) (reply : String) : (e.arm reply).WellFormed :=
  ⟨h.screen, h.graphics⟩

/-- The bell keeps the engine well-formed. -/
theorem bell (h : e.WellFormed) : e.bell.WellFormed := by
  unfold Engine.bell
  split
  · exact ⟨h.screen, h.graphics⟩
  · exact h

/-- The report of a loss keeps the engine well-formed. -/
theorem reportLoss (h : e.WellFormed) : e.reportLoss.WellFormed := by
  simp only [Engine.reportLoss]
  cases e.channel.takeLoss.1 with
  | none => exact ⟨h.screen, h.graphics⟩
  | some reason => exact ⟨h.screen, h.graphics⟩

/-- The channel may be used as long as it keeps the screen well-formed. -/
theorem useChannel (h : e.WellFormed) {f : Channel L → Screen → Channel L × Screen}
    (hf : ∀ c screen, screen.WellFormed → (f c screen).2.WellFormed) :
    (e.useChannel f).WellFormed where
  screen := hf _ _ h.screen
  graphics := h.graphics

/-- Sending bytes keeps the engine well-formed. -/
theorem sendBytes [HostLink L] (h : e.WellFormed) (bytes : List UInt8) :
    (e.sendBytes bytes).WellFormed :=
  h.useChannel fun c _ hscreen => c.sendBytes_wellFormed hscreen bytes

/-- Sending text keeps the engine well-formed. -/
theorem sendText [HostLink L] (h : e.WellFormed) (text : String) :
    (e.sendText text).WellFormed :=
  h.sendBytes _

/-! ### Actions -/

/-- A data byte keeps the engine well-formed. -/
theorem putData (h : e.WellFormed) (b : UInt8) : (e.putData b).WellFormed := by
  unfold Engine.putData
  split
  · split
    · exact h.modifyScreen fun hs => ((hs.applyCode 7).putByte _).applyCode 0
    · exact h.modifyScreen fun hs => hs.putByte b
  · exact h

/-- A reset keeps the engine well-formed. -/
theorem reset [Surface S] (h : e.WellFormed) (hard : Bool) : (e.reset hard).WellFormed := by
  have hbell := h.bell
  exact ⟨hbell.screen.reset hard, hbell.graphics.reset⟩

/-- A transfer of the tape keeps the engine well-formed. -/
theorem runTransfer [HostLink L] (h : e.WellFormed) : e.runTransfer.WellFormed := by
  refine h.useChannel fun c screen hscreen => ?_
  have hsend (target : Channel L × Screen) (b : UInt8) (htarget : target.2.WellFormed) :
      (transferByte target b).2.2.WellFormed :=
    target.1.sendBytes_wellFormed htarget [b]
  exact Transfer.stream_keeps (P := fun target : Channel L × Screen => target.2.WellFormed)
    hsend hscreen _

/-- A command of one byte keeps the engine well-formed. -/
theorem applySingle [HostLink L] [Surface S] (h : e.WellFormed) (command : SingleCommand) :
    (e.applySingle command).WellFormed := by
  unfold Engine.applySingle
  cases command with
  | cursorUp => exact h.modifyScreen fun hs => hs.moveCursor _ _
  | cursorDown => exact h.modifyScreen fun hs => hs.moveCursor _ _
  | cursorRight => exact h.modifyScreen fun hs => hs.moveCursor _ _
  | cursorLeft => exact h.modifyScreen fun hs => hs.moveCursor _ _
  | hardReset => exact h.reset true
  | softReset => exact h.reset false
  | homeUp => exact h.modifyScreen fun hs => hs.homeUp
  | homeDown => exact h.modifyScreen fun hs => hs.homeDown
  | cursorToLeftMargin => exact h.modifyScreen fun hs => hs.toLeftMargin
  | clearToEndOfMemory => exact h.modifyScreen fun hs => hs.eraseRange _ _
  | clearToEndOfLine => exact h.modifyScreen fun hs => hs.eraseRange _ _
  | insertLine => exact h.modifyScreen fun hs => hs.insertLine
  | deleteLine => exact h.modifyScreen fun hs => hs.deleteLine
  | deleteChar => exact h.modifyScreen fun hs => hs.deleteChars 1
  | insertMode on => exact h.modifyScreen fun hs => hs.modifyModes _
  | rollUp => exact h.modifyScreen fun hs => hs.viewDown 1
  | rollDown => exact h.modifyScreen fun hs => hs.viewUp 1
  | displayFunctions on => exact h.modifyScreen fun hs => hs.modifyModes _
  | keyboardLock locked => exact h.modifyScreen fun hs => hs.modifyModes _
  | backTab => exact h.modifyScreen fun hs => hs.backTab
  | setTab => exact h.modifyScreen fun hs => hs.modifyTabs (TabStops.size_set _ _)
  | clearTab => exact h.modifyScreen fun hs => hs.modifyTabs (TabStops.size_clear _ _)
  | clearAllTabs => exact h.modifyScreen fun hs => hs.modifyTabs (TabStops.size_clearAll _)
  | setLeftMargin => exact h.modifyScreen fun hs => hs.setLeftMargin
  | setRightMargin => exact h.modifyScreen fun hs => hs.setRightMargin
  | saveCursor => exact h.modifyScreen fun hs => hs.saveCursor
  | restoreCursor => exact h.modifyScreen fun hs => hs.restoreCursor
  | cursorSense => exact h.arm _
  | sendLine => exact h.arm _
  | fileTransfer => exact h.runTransfer
  | primaryStatus => exact h.arm _
  | secondaryStatus => exact h.arm _
  | inert bytes => exact h

/-- Erasing in the display keeps the screen well-formed. -/
theorem eraseInDisplay (selector : Int) {s : Screen} (hs : s.WellFormed) :
    (Engine.eraseInDisplay selector s).WellFormed := by
  unfold Engine.eraseInDisplay
  split
  · exact hs.eraseRange _ _
  split
  · exact hs.eraseRange _ _
  split
  · exact hs.eraseRange _ _
  · exact hs

/-- Erasing in the line keeps the screen well-formed. -/
theorem eraseInLine (selector : Int) {s : Screen} (hs : s.WellFormed) :
    (Engine.eraseInLine selector s).WellFormed := by
  unfold Engine.eraseInLine
  split
  · exact hs.eraseRange _ _
  split
  · exact hs.eraseRange _ _
  split
  · exact hs.eraseRange _ _
  · exact hs

/-- A control sequence that is accepted keeps the engine well-formed. -/
theorem applyControl [HostLink L] (h : e.WellFormed) {command : ControlSequence}
    (hok : e.applyControl command = .ok e') : e'.WellFormed := by
  cases command with
  | insertChars count =>
    rcases Fault.exists_of_map hok with ⟨screen, hinsert, rfl⟩
    exact ⟨h.screen.insertChars hinsert, h.graphics⟩
  | moveCursor rows cols =>
    cases hok
    exact h.modifyScreen fun hs => hs.moveCursor rows cols
  | position row column =>
    cases hok
    exact h.modifyScreen fun hs => hs.placeInView row column
  | eraseInDisplay selector =>
    cases hok
    exact h.modifyScreen (WellFormed.eraseInDisplay selector)
  | eraseInLine selector =>
    cases hok
    exact h.modifyScreen (WellFormed.eraseInLine selector)
  | insertLines count =>
    cases hok
    exact h.modifyScreen fun hs => hs.insertLines _
  | deleteLines count =>
    cases hok
    exact h.modifyScreen fun hs => hs.deleteLines _
  | deleteChars count =>
    cases hok
    exact h.modifyScreen fun hs => hs.deleteChars _
  | eraseChars count =>
    cases hok
    exact h.modifyScreen fun hs => hs.eraseRange _ _
  | enhance codes =>
    cases hok
    exact h.modifyScreen fun hs => hs.applyCodes codes
  | cursorReport =>
    cases hok
    exact h.sendText _
  | lineWrap on =>
    cases hok
    exact h.modifyScreen fun hs => hs.modifyModes _
  | home down =>
    cases hok
    cases down with
    | true => exact h.modifyScreen fun hs => hs.homeDown
    | false => exact h.modifyScreen fun hs => hs.homeUp

/-- Placing the graphics cursor keeps the engine well-formed. -/
theorem placeGraphicsCursor [Surface S] (h : e.WellFormed) (point : Point) :
    (e.placeGraphicsCursor point).WellFormed :=
  ⟨h.screen, { h.graphics with }⟩

/-- A display operation keeps the engine well-formed; a size is clamped before it is used. -/
theorem applyDisplay [Surface S] (h : e.WellFormed) (op : DisplayOp) :
    (e.applyDisplay op).WellFormed := by
  unfold Engine.applyDisplay
  cases op with
  | clear color => exact (h.tell _).tell _
  | fill color => exact h.tell _
  | graphicsVisible on => exact ⟨h.screen, { h.graphics with }⟩
  | alphaVisible on => exact ⟨h.screen, h.graphics⟩
  | graphicsCursorVisible on => exact ⟨h.screen, { h.graphics with }⟩
  | setGraphicsCursor point => exact h.placeGraphicsCursor point
  | moveGraphicsCursor delta => exact h.placeGraphicsCursor _
  | alphaCursorVisible on => exact h.modifyScreen fun hs => hs.modifyModes _
  | enterGraphicsText => exact h
  | screenSize width height =>
    exact ⟨h.screen, GraphicsState.Sized.setSize _ _ _⟩
  | skip => exact h
  | unknown letter => exact h

/-- A mode operation keeps the engine well-formed. -/
theorem applyMode [Surface S] (h : e.WellFormed) (op : ModeOp) :
    (e.applyMode op).WellFormed := by
  cases op with
  | graphicsDefaults => exact ⟨h.screen, h.graphics.reset⟩
  | skip => exact h
  | unknown letter => exact h
  | _ => exact h.tell _

/-- Steps that keep engines well-formed keep them so in any number. -/
theorem foldl {α : Type} {f : Engine L S → α → Engine L S}
    (hf : ∀ {e : Engine L S} (a : α), e.WellFormed → (f e a).WellFormed) (as : List α)
    (h : e.WellFormed) : (as.foldl f e).WellFormed := by
  induction as generalizing e with
  | nil => exact h
  | cons a as ih => exact ih (hf a h)

/-- A plot body keeps the engine well-formed. -/
theorem drawPlot [Surface S] (h : e.WellFormed) (body : Payload) :
    (e.drawPlot body).WellFormed := by
  refine foldl (fun {e} call he => ?_) _ h
  exact ⟨he.screen, he.graphics.record call⟩

/-- A query keeps the engine well-formed. -/
theorem applyStatus [HostLink L] [Surface S] (h : e.WellFormed) (query : Option Int) :
    (e.applyStatus query).WellFormed := by
  unfold Engine.applyStatus
  split
  · exact h.arm _
  · exact h.arm _
  · exact h.arm _
  · exact ⟨h.screen, h.graphics⟩
  · exact h.arm _
  · exact h.arm _
  · exact h.sendText _

/-- Commands for key labels keep the engine well-formed. -/
theorem applyKeyLabels (h : e.WellFormed) (command : KeyLabelCommand) :
    (e.applyKeyLabels command).WellFormed := by
  unfold Engine.applyKeyLabels
  cases command with
  | hide => exact h.modifyScreen fun hs => hs.modifyModes _
  | showModeKeys => exact h.modifyScreen fun hs => hs.showBank _
  | showUserKeys => exact h.modifyScreen fun hs => hs.showBank _
  | inert bytes => exact h

/-- Every action that is not refused keeps the engine well-formed. -/
theorem apply [HostLink L] [Surface S] (h : e.WellFormed) {action : Action}
    (hok : e.apply action = .ok e') : e'.WellFormed := by
  cases action with
  | control command => exact h.applyControl hok
  | data b =>
    cases hok
    exact h.putData b
  | bell =>
    cases hok
    exact h.bell
  | handshake =>
    cases hok
    exact h.useChannel fun c _ hscreen => c.release_wellFormed hscreen
  | single command =>
    cases hok
    exact h.applySingle command
  | display ops =>
    cases hok
    exact foldl (fun op he => he.applyDisplay op) ops h
  | drawing ops =>
    cases hok
    exact foldl (fun op he => he.applyMode op) ops h
  | textPen pen =>
    cases hok
    exact h.tell _
  | plot body =>
    cases hok
    exact h.drawPlot body
  | status query =>
    cases hok
    exact h.applyStatus query
  | cursorAddress terms =>
    cases hok
    exact h.modifyScreen fun hs => hs.address terms
  | enhance codes =>
    cases hok
    exact h.modifyScreen fun hs => hs.applyCodes codes
  | keyLabels command =>
    cases hok
    exact h.applyKeyLabels command
  | keyboardLock locked =>
    cases hok
    exact h.modifyScreen fun hs => hs.modifyModes _
  | charset charset =>
    cases hok
    exact h.modifyScreen fun hs => hs.withCharset charset
  | graphicsText text =>
    cases hok
    exact h.tell _
  | inert bytes =>
    cases hok
    exact h
  | unrecognized bytes =>
    cases hok
    exact h

/-! ### Bytes, clicks, idle moments and keys -/

/-- A byte that is accepted keeps the engine well-formed. -/
theorem interpret [HostLink L] [Surface S] (h : e.WellFormed) {b : UInt8}
    (hok : e.interpret b = .ok e') : e'.WellFormed := by
  have hparser : { e with parser := (e.parser.advance b).2 }.WellFormed :=
    ⟨h.screen, h.graphics⟩
  simp only [Engine.interpret] at hok
  cases haction : (e.parser.advance b).1 with
  | none =>
    rw [haction] at hok
    cases hok
    exact hparser
  | some action =>
    rw [haction] at hok
    exact hparser.apply hok

/-- A byte that is not refused keeps the engine well-formed. -/
theorem receive [HostLink L] [Surface S] (h : e.WellFormed) {b : UInt8}
    (hok : e.receive b = .ok e') : e'.WellFormed := by
  unfold Engine.receive at hok
  split at hok
  · cases hok
    refine reportLoss ?_
    unfold Engine.answerEnquiry
    split
    · exact ⟨h.screen, h.graphics⟩
    · exact h.sendText _
  · rcases Fault.exists_of_map hok with ⟨next, hnext, rfl⟩
    exact (h.interpret hnext).reportLoss

/-- Taking a click keeps the engine well-formed. -/
theorem pollClick [Surface S] (h : e.WellFormed) : e.pollClick.2.WellFormed := by
  unfold Engine.pollClick
  split
  · split
    · exact ⟨h.screen, h.graphics⟩
    · exact ⟨h.screen, h.graphics⟩
  · exact h

/-- An idle moment keeps the engine well-formed. -/
theorem idle [HostLink L] (h : e.WellFormed) : e.idle.WellFormed :=
  (h.useChannel fun c _ hscreen => c.flushAck_wellFormed hscreen).reportLoss

/-- A cursor key keeps the engine well-formed. -/
theorem pressCursor [HostLink L] (h : e.WellFormed) (key : CursorKey) (rows cols : Int) :
    (e.pressCursor key rows cols).WellFormed := by
  unfold Engine.pressCursor
  split
  · exact h.modifyScreen fun hs => hs.moveCursor rows cols
  · exact h.sendBytes _

/-- A function key keeps the engine well-formed. -/
theorem pressFunction [Surface S] (h : e.WellFormed) (number : Nat) (shift : Bool) :
    (e.pressFunction number shift).2.WellFormed := by
  unfold Engine.pressFunction
  split
  · exact h
  split
  · exact ⟨h.screen.toggleBank, h.graphics⟩
  split
  · exact ⟨h.screen, { h.graphics with }⟩
  · exact h

/-- Locking the keyboard keeps the engine well-formed. -/
theorem lockKeyboard (h : e.WellFormed) (locked : Bool) :
    (e.lockKeyboard locked).WellFormed := by
  unfold Engine.lockKeyboard
  exact h.modifyScreen fun hs => hs.modifyModes _

/-- A key that changes the screen alone has to keep it well-formed. -/
theorem pressScreen (h : e.WellFormed) {outcome : KeyOutcome} {f : Screen → Screen}
    (hf : e.screen.WellFormed → (f e.screen).WellFormed) :
    ((outcome, e.modifyScreen f) : KeyOutcome × Engine L S).2.WellFormed :=
  h.modifyScreen hf

/-- An unlocked key keeps the engine well-formed. -/
theorem pressUnlocked [HostLink L] [Surface S] (h : e.WellFormed) (key : Key) :
    (e.pressUnlocked key).2.WellFormed := by
  unfold Engine.pressUnlocked
  split
  · exact h.lockKeyboard true
  · exact h.pressScreen fun hs => hs.viewUp 1
  · exact h.pressScreen fun hs => hs.viewDown 1
  · exact h.pressCursor .up (-1) 0
  · exact h.pressCursor .down 1 0
  · exact h.pressCursor .left 0 (-1)
  · exact h.pressCursor .right 0 1
  · exact h.pressScreen fun hs => hs.viewUp _
  · exact h.pressScreen fun hs => hs.viewDown _
  · exact h.pressScreen fun hs => hs.homeUp
  · exact h.pressScreen fun hs => hs.homeDown
  · exact h.pressScreen fun hs => hs.insertLine
  · split
    · exact h.pressScreen fun hs => hs.modifyModes _
    · exact h
  · exact h.pressScreen fun hs => hs.deleteLine
  · split
    · exact h.pressScreen fun hs => hs.deleteChars 1
    · exact h
  · exact h.pressFunction _ _
  · exact h.sendBytes _
  · split
    · exact h
    · exact h.sendBytes _

/-- A key keeps the engine well-formed. -/
theorem press [HostLink L] [Surface S] (h : e.WellFormed) (key : Key) :
    (e.press key).2.WellFormed := by
  unfold Engine.press
  split
  · split
    · exact h.lockKeyboard false
    · exact h
  · exact (h.pressUnlocked key).reportLoss

end WellFormed

end Engine

end GraphicsTerminal
