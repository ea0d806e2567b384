import Mathlib.Tactic.SplitIfs
import GraphicsTerminal.Proofs.Engine.Traffic
import GraphicsTerminal.Proofs.Engine.WellFormed

/-!
# Soft-key labels

Bytes that are shown change memory, its view and the cursor, and leave the fittings of the
screen: margins, tab stops, modes, the alternate character set and the soft keys.  Nothing that
an engine does changes a label: sequences and keys choose the bank that is shown, and whether
labels are shown at all.

Main definitions:

- {lit}`Fittings`, {lit}`Screen.fittings`: what bytes that are shown do not change.
- {lit}`Screen.labels`: the labels of both banks.

Main results:

- Theorem {lit}`Screen.fittings_putBytes`: bytes keep the fittings of the screen.
- Theorem {lit}`Engine.labels_of_receive`, {lit}`Engine.labels_press`: bytes and keys keep the
  labels.
-/

namespace GraphicsTerminal

/-- A screen without memory, its view and the cursor. -/
structure Fittings where
  saved : Cursor
  margins : Margins
  tabs : TabStops
  modes : Modes
  charset : Charset
  softKeys : SoftKeys

namespace Screen

/-! ## Shown bytes -/

/-- The fittings of a screen. -/
def fittings (s : Screen) : Fittings where
  saved := s.saved
  margins := s.margins
  tabs := s.tabs
  modes := s.modes
  charset := s.charset
  softKeys := s.softKeys

/-- The fittings are no part of memory. -/
theorem fittings_withMemory (s : Screen) (m : Memory) :
    { s with memory := m }.fittings = s.fittings := rfl

/-- A line feed keeps the fittings. -/
theorem fittings_lineFeed (s : Screen) : s.lineFeed.fittings = s.fittings := by
  simp only [lineFeed]
  split_ifs
  · rfl
  · exact fittings_withMemory (s.atRow (viewRows - 1) |>.viewDown 1) _
  · exact fittings_withMemory (s.atRow (viewRows - 1)) _

/-- A tab keeps the fittings, its stops among them. -/
theorem fittings_horizontalTab (s : Screen) : s.horizontalTab.fittings = s.fittings := by
  simp only [horizontalTab]
  split_ifs
  · rfl
  · rfl

/-- A step to the right keeps the fittings. -/
theorem fittings_stepRight (s : Screen) : s.stepRight.fittings = s.fittings := by
  simp only [stepRight]
  split_ifs
  · rfl
  · exact s.carriageReturn.fittings_lineFeed
  · rfl

/-- A printed byte keeps the fittings. -/
theorem fittings_print (s : Screen) (b : UInt8) : (s.print b).fittings = s.fittings := by
  simp only [print]
  split_ifs
  · exact fittings_stepRight _
  · exact fittings_stepRight _

/-- A byte that is put keeps the fittings. -/
theorem fittings_putByte (s : Screen) (b : UInt8) : (s.putByte b).fittings = s.fittings := by
  simp only [putByte]
  split_ifs
  · exact s.fittings_lineFeed
  · rfl
  · rfl
  · exact s.fittings_horizontalTab
  · rfl
  · exact s.fittings_print b
  · rfl

/-- Bytes that are shown keep the fittings. -/
theorem fittings_putBytes (s : Screen) (bytes : List UInt8) :
    (s.putBytes bytes).fittings = s.fittings := by
  induction bytes generalizing s with
  | nil => rfl
  | cons b rest ih => exact (ih (s.putByte b)).trans (s.fittings_putByte b)

/-! ## Labels -/

/-- The labels of both banks. -/
def labels (s : Screen) : LabelBank × LabelBank := (s.softKeys.mode, s.softKeys.user)

/-- The labels are among the fittings. -/
theorem labels_of_fittings {s s' : Screen} (h : s'.fittings = s.fittings) :
    s'.labels = s.labels := by
  have hkeys : s'.softKeys = s.softKeys := congrArg Fittings.softKeys h
  rw [labels, labels, hkeys]

/-- The labels are no part of memory. -/
theorem labels_withMemory (s : Screen) (m : Memory) :
    { s with memory := m }.labels = s.labels := rfl

/-- What keeps the labels once keeps them any number of times. -/
theorem labels_repeat {f : Screen → Screen} (hf : ∀ s, (f s).labels = s.labels) (count : Nat)
    (s : Screen) : (count.repeat f s).labels = s.labels := by
  induction count with
  | zero => rfl
  | succ count ih => exact (hf _).trans ih

/-- Enhancement codes keep the labels. -/
theorem labels_applyCodes (s : Screen) (codes : List Int) :
    (s.applyCodes codes).labels = s.labels := by
  induction codes generalizing s with
  | nil => rfl
  | cons code codes ih => exact ih (s.applyCode code)

/-- An address keeps the labels. -/
theorem labels_address (s : Screen) (terms : List AddressTerm) :
    (s.address terms).labels = s.labels := by
  simp only [address, placeInMemory]
  split_ifs
  · rfl
  · rfl
  · rfl

/-- A reset of the screen keeps the labels. -/
theorem labels_reset (s : Screen) (hard : Bool) : (s.reset hard).labels = s.labels := by
  cases hard with
  | true => rfl
  | false => rfl

end Screen

/-! ## Channels -/

namespace Channel

variable {L : Type} [HostLink L]

/-- What a channel shows keeps the fittings of the screen. -/
theorem fittings_sendBytes (c : Channel L) (screen : Screen) (bytes : List UInt8) :
    (c.sendBytes screen bytes).2.fittings = screen.fittings := by
  unfold sendBytes
  split
  · split
    · rfl
    · exact screen.fittings_putBytes _
  · exact screen.fittings_putBytes bytes

/-- A reply that is released keeps the fittings. -/
theorem fittings_release (c : Channel L) (screen : Screen) :
    (c.release screen).2.fittings = screen.fittings := by
  unfold release
  split
  · rfl
  · exact fittings_sendBytes _ _ _

/-- An acknowledgement keeps the fittings. -/
theorem fittings_flushAck (c : Channel L) (screen : Screen) :
    (c.flushAck screen).2.fittings = screen.fittings := by
  unfold flushAck
  split
  · exact fittings_sendBytes _ _ _
  · rfl

end Channel

namespace Engine

variable {L S : Type} {e e' : Engine L S}

/-- The labels of the screen. -/
def labels (e : Engine L S) : LabelBank × LabelBank := e.screen.labels

/-! ## Actions -/

/-- The bell keeps the labels. -/
theorem labels_bell (e : Engine L S) : e.bell.labels = e.labels := by
  unfold bell
  split
  · rfl
  · rfl

/-- The report of a loss keeps the labels. -/
theorem labels_reportLoss (e : Engine L S) : e.reportLoss.labels = e.labels := by
  rw [labels, labels, screen_reportLoss]

/-- A data byte keeps the labels. -/
theorem labels_putData (e : Engine L S) (b : UInt8) : (e.putData b).labels = e.labels := by
  unfold putData
  split
  · split
    · exact Screen.labels_of_fittings (e.screen.applyCode 7 |>.fittings_putByte _)
    · exact Screen.labels_of_fittings (e.screen.fittings_putByte b)
  · rfl

/-- Steps that keep the labels keep them one after another. -/
theorem labels_foldl {α : Type} {f : Engine L S → α → Engine L S}
    (hf : ∀ e a, (f e a).labels = e.labels) (e : Engine L S) (as : List α) :
    (as.foldl f e).labels = e.labels := by
  induction as generalizing e with
  | nil => rfl
  | cons a as ih => exact (ih (f e a)).trans (hf e a)

section

variable [Surface S]

/-- A reset of the engine keeps the labels. -/
theorem labels_reset (e : Engine L S) (hard : Bool) : (e.reset hard).labels = e.labels :=
  (Screen.labels_reset _ hard).trans e.labels_bell

/-- A display operation keeps the labels. -/
theorem labels_applyDisplay (e : Engine L S) (op : DisplayOp) :
    (e.applyDisplay op).labels = e.labels := by
  cases op with
  | _ => rfl

/-- A mode operation keeps the labels. -/
theorem labels_applyMode (e : Engine L S) (op : ModeOp) : (e.applyMode op).labels = e.labels := by
  cases op with
  | _ => rfl

/-- Taking a click keeps the labels. -/
theorem labels_pollClick (e : Engine L S) : e.pollClick.2.labels = e.labels := by
  rw [labels, labels, screen_pollClick]

end

variable [HostLink L]

/-- Sending bytes keeps the labels. -/
theorem labels_sendBytes (e : Engine L S) (bytes : List UInt8) :
    (e.sendBytes bytes).labels = e.labels :=
  Screen.labels_of_fittings (e.channel.fittings_sendBytes e.screen bytes)

/-- A transfer of the tape keeps the labels. -/
theorem labels_runTransfer (e : Engine L S) : e.runTransfer.labels = e.labels :=
  Transfer.stream_keeps (P := fun target : Channel L × Screen => target.2.labels = e.labels)
    (fun target b h => (Screen.labels_of_fittings
      (target.1.fittings_sendBytes target.2 [b])).trans h) rfl _

/-- An idle moment keeps the labels. -/
theorem labels_idle (e : Engine L S) : e.idle.labels = e.labels :=
  (labels_reportLoss _).trans
    (Screen.labels_of_fittings (e.channel.fittings_flushAck e.screen))

/-- Erasing in the display keeps the labels. -/
theorem labels_eraseInDisplay (selector : Int) (s : Screen) :
    (eraseInDisplay selector s).labels = s.labels := by
  unfold eraseInDisplay
  split_ifs
  · exact s.labels_withMemory _
  · exact s.labels_withMemory _
  · exact s.labels_withMemory _
  · rfl

/-- Erasing in the line keeps the labels. -/
theorem labels_eraseInLine (selector : Int) (s : Screen) :
    (eraseInLine selector s).labels = s.labels := by
  unfold eraseInLine
  split_ifs
  · exact s.labels_withMemory _
  · exact s.labels_withMemory _
  · exact s.labels_withMemory _
  · rfl

/-- A control sequence keeps the labels. -/
theorem labels_of_applyControl {command : ControlSequence} (h : e.applyControl command = .ok e') :
    e'.labels = e.labels := by
  cases command with
  | insertChars count =>
    obtain ⟨screen, hscreen, rfl⟩ := Fault.exists_of_map h
    unfold Screen.insertChars at hscreen
    split at hscreen
    · cases hscreen
    · cases hscreen
      exact e.screen.labels_withMemory _
  | insertLines count =>
    cases h
    exact Screen.labels_repeat (fun s => s.labels_withMemory _) _ _
  | deleteLines count =>
    cases h
    exact Screen.labels_repeat (fun s => s.labels_withMemory _) _ _
  | deleteChars count =>
    cases h
    exact e.screen.labels_withMemory _
  | eraseChars count =>
    cases h
    exact e.screen.labels_withMemory _
  | enhance codes =>
    cases h
    exact e.screen.labels_applyCodes codes
  | cursorReport =>
    cases h
    exact e.labels_sendBytes _
  | eraseInDisplay selector =>
    cases h
    exact labels_eraseInDisplay selector e.screen
  | eraseInLine selector =>
    cases h
    exact labels_eraseInLine selector e.screen
  | home down =>
    cases h
    cases down with
    | true => rfl
    | false => rfl
  | _ =>
    cases h
    rfl

variable [Surface S]

/-- A command of one byte keeps the labels. -/
theorem labels_applySingle (e : Engine L S) (command : SingleCommand) :
    (e.applySingle command).labels = e.labels := by
  cases command with
  | hardReset => exact e.labels_reset true
  | softReset => exact e.labels_reset false
  | clearToEndOfMemory => exact e.screen.labels_withMemory _
  | clearToEndOfLine => exact e.screen.labels_withMemory _
  | insertLine => exact e.screen.labels_withMemory _
  | deleteLine => exact e.screen.labels_withMemory _
  | deleteChar => exact e.screen.labels_withMemory _
  | fileTransfer => exact e.labels_runTransfer
  | _ => rfl

/-- A query keeps the labels. -/
theorem labels_applyStatus (e : Engine L S) (query : Option Int) :
    (e.applyStatus query).labels = e.labels := by
  unfold applyStatus
  split
  all_goals first | rfl | exact e.labels_sendBytes _

omit [HostLink L] [Surface S] in
/-- Commands for key labels choose among the labels, and keep them. -/
theorem labels_applyKeyLabels (e : Engine L S) (command : KeyLabelCommand) :
    (e.applyKeyLabels command).labels = e.labels := by
  cases command with
  | _ => rfl

/-- No action changes the labels. -/
theorem labels_of_apply {action : Action} (h : e.apply action = .ok e') :
    e'.labels = e.labels := by
  cases action with
  | control command => exact labels_of_applyControl h
  | data b =>
    cases h
    exact e.labels_putData b
  | bell =>
    cases h
    exact e.labels_bell
  | handshake =>
    cases h
    exact Screen.labels_of_fittings (e.channel.fittings_release e.screen)
  | single command =>
    cases h
    exact e.labels_applySingle command
  | display ops =>
    cases h
    exact labels_foldl labels_applyDisplay e ops
  | drawing ops =>
    cases h
    exact labels_foldl labels_applyMode e ops
  | plot body =>
    cases h
    exact labels_foldl (f := plotCall) (fun _ _ => rfl) e _
  | status query =>
    cases h
    exact e.labels_applyStatus query
  | cursorAddress terms =>
    cases h
    exact e.screen.labels_address terms
  | enhance codes =>
    cases h
    exact e.screen.labels_applyCodes codes
  | keyLabels command =>
    cases h
    exact e.labels_applyKeyLabels command
  | _ =>
    cases h
    rfl

/-! ## Bytes and keys -/

/-- A byte keeps the labels. -/
theorem labels_of_receive {b : UInt8} (h : e.receive b = .ok e') : e'.labels = e.labels := by
  unfold receive at h
  obtain ⟨next, hnext, rfl⟩ := Fault.exists_of_map h
  rw [labels_reportLoss]
  split at hnext
  · cases hnext
    unfold answerEnquiry
    split
    · rfl
    · exact e.labels_sendBytes _
  · simp only [interpret] at hnext
    cases haction : (e.parser.advance b).1 with
    | none =>
      rw [haction] at hnext
      cases hnext
      rfl
    | some action =>
      rw [haction] at hnext
      exact labels_of_apply (e := { e with parser := (e.parser.advance b).2 }) hnext

omit [HostLink L] in
/-- A function key keeps the labels. -/
theorem labels_pressFunction (e : Engine L S) (number : Nat) (shift : Bool) :
    (e.pressFunction number shift).2.labels = e.labels := by
  unfold pressFunction
  split_ifs
  all_goals rfl

/-- No key changes the labels. -/
theorem labels_pressUnlocked (e : Engine L S) (key : Key) :
    (e.pressUnlocked key).2.labels = e.labels := by
  have hcursor (key : CursorKey) (rows cols : Int) :
      (e.pressCursor key rows cols).labels = e.labels := by
    unfold pressCursor
    split
    · rfl
    · exact e.labels_sendBytes _
  cases key with
  | up ctrl =>
    cases ctrl with
    | true => rfl
    | false => exact hcursor _ _ _
  | down ctrl =>
    cases ctrl with
    | true => rfl
    | false => exact hcursor _ _ _
  | left => exact hcursor _ _ _
  | right => exact hcursor _ _ _
  | insert ctrl =>
    cases ctrl with
    | true => exact e.screen.labels_withMemory _
    | false =>
      dsimp only [pressUnlocked]
      split
      · rfl
      · rfl
  | delete ctrl =>
    cases ctrl with
    | true => exact e.screen.labels_withMemory _
    | false =>
      dsimp only [pressUnlocked]
      split
      · exact e.screen.labels_withMemory _
      · rfl
  | function number shift => exact e.labels_pressFunction number shift
  | enter => exact e.labels_sendBytes _
  | char b =>
    dsimp only [pressUnlocked]
    split
    · rfl
    · exact e.labels_sendBytes _
  | _ => rfl

/-- A key keeps the labels. -/
theorem labels_press (e : Engine L S) (key : Key) : (e.press key).2.labels = e.labels := by
  unfold press
  split
  · split
    · rfl
    · rfl
  · exact (labels_reportLoss _).trans (e.labels_pressUnlocked key)

end Engine

end GraphicsTerminal
