import GraphicsTerminal.Engine.Basic
import GraphicsTerminal.Graphics.Plot
import GraphicsTerminal.Host.Reply
import GraphicsTerminal.Screen.ReadBack

/-!
# Applying actions

Every action changes the screen, the channel, the surface or a setting of the
engine.  Only one can be refused: inserting as many blanks as a row is wide at
the first cell of memory.

Main definitions:

- {lit}`Engine.apply`: the effect of an action.
- {lit}`Screen.address`: the effect of a cursor address.
-/

namespace GraphicsTerminal

/-! ## Cursor addresses -/

/-- The row of memory and the column that address terms lead to.  Rows of the
view are counted from {lit}`topRow`. -/
def AddressTerm.follow (topRow : Nat) (terms : List AddressTerm) (row column : Int) :
    Int × Int :=
  terms.foldl
    (fun place t =>
      match t.axis, t.relative with
      | .memoryRow, false => (t.value, place.2)
      | .screenRow, false => (t.value + topRow, place.2)
      | .memoryRow, true => (place.1 + t.value, place.2)
      | .screenRow, true => (place.1 + t.value, place.2)
      | .column, false => (place.1, t.value)
      | .column, true => (place.1, place.2 + t.value))
    (row, column)

/-- Place the cursor where address terms lead from its position. -/
def Screen.address (s : Screen) (terms : List AddressTerm) : Screen :=
  let target := AddressTerm.follow s.topRow terms s.cursorRow s.cursor.column
  s.placeInMemory (Word.saturate target.1) (Word.saturate target.2)

namespace Engine

variable {L S : Type}

/-! ## Data -/

/-- A data byte.  Bytes from 0x80 on can be shown as inverse characters of
seven bits, after which no enhancement is left. -/
def putData (e : Engine L S) (b : UInt8) : Engine L S :=
  if e.alphaActive then
    if e.settings.invertHighBytes && 0x80 ≤ b then
      e.modifyScreen fun s => ((s.applyCode 7).putByte (b &&& 0x7F)).applyCode 0
    else
      e.modifyScreen (·.putByte b)
  else
    e

/-! ## Commands of one letter -/

/-- Return to the initial state; a hard reset also erases memory. -/
def reset [Surface S] (e : Engine L S) (hard : Bool) : Engine L S :=
  let e := (e.bell.modifyScreen (·.reset hard)).tell (.resetDefaults hard)
  { e with graphics := e.graphics.reset, alphaActive := true }

/-- Send one byte of a transfer.  The byte that loses the link ends the
transfer; a local channel shows every byte. -/
def transferByte [HostLink L] (target : Channel L × Screen) (b : UInt8) :
    Option String × (Channel L × Screen) :=
  let sent := target.1.sendByte target.2 b
  (if target.1.remote && !sent.1.remote then some "host link lost" else none, sent)

/-- Send the tape image. -/
def runTransfer [HostLink L] (e : Engine L S) : Engine L S :=
  e.useChannel fun channel screen =>
    (Transfer.stream (e.tape e.surface) transferByte (channel, screen)).2

/-- The effect of a command of one letter. -/
def applySingle [HostLink L] [Surface S] (e : Engine L S) :
    SingleCommand → Engine L S
  | .cursorUp => e.modifyScreen (·.moveCursor (-1) 0)
  | .cursorDown => e.modifyScreen (·.moveCursor 1 0)
  | .cursorRight => e.modifyScreen (·.moveCursor 0 1)
  | .cursorLeft => e.modifyScreen (·.moveCursor 0 (-1))
  | .hardReset => e.reset true
  | .softReset => e.reset false
  | .homeUp => e.modifyScreen Screen.homeUp
  | .homeDown => e.modifyScreen Screen.homeDown
  | .cursorToLeftMargin => e.modifyScreen Screen.toLeftMargin
  | .clearToEndOfMemory => e.modifyScreen Screen.eraseToMemoryEnd
  | .clearToEndOfLine => e.modifyScreen Screen.eraseToLineEnd
  | .insertLine => e.modifyScreen Screen.insertLine
  | .deleteLine => e.modifyScreen Screen.deleteLine
  | .deleteChar => e.modifyScreen (·.deleteChars 1)
  | .insertMode on => e.modifyScreen (·.modifyModes fun m => { m with insert := on })
  | .rollUp => e.modifyScreen (·.viewDown 1)
  | .rollDown => e.modifyScreen (·.viewUp 1)
  | .displayFunctions on =>
    e.modifyScreen (·.modifyModes fun m => { m with displayFunctions := on })
  | .keyboardLock locked =>
    e.modifyScreen (·.modifyModes fun m => { m with keyboardLocked := locked })
  | .backTab => e.modifyScreen Screen.backTab
  | .setTab => e.modifyScreen fun s => s.modifyTabs (·.set s.cursor.column)
  | .clearTab => e.modifyScreen fun s => s.modifyTabs (·.clear s.cursor.column)
  | .clearAllTabs => e.modifyScreen (·.modifyTabs TabStops.clearAll)
  | .setLeftMargin => e.modifyScreen Screen.setLeftMargin
  | .setRightMargin => e.modifyScreen Screen.setRightMargin
  | .saveCursor => e.modifyScreen Screen.saveCursor
  | .restoreCursor => e.modifyScreen Screen.restoreCursor
  | .cursorSense => e.arm (Reply.cursorSense e.screen.cursor.column e.screen.cursorRow)
  | .sendLine =>
    let cursor := e.screen.cursor
    e.arm (Reply.line (e.screen.viewLine cursor.row cursor.column columns))
  | .fileTransfer => e.runTransfer
  | .primaryStatus => e.arm Reply.primaryStatus
  | .secondaryStatus => e.arm Reply.secondaryStatus
  | .inert _ => e

/-! ## Control sequences -/

/-- The erasure of the view that a selector names. -/
def eraseInDisplay (selector : Int) : Screen → Screen :=
  if selector = 0 then Screen.eraseToViewEnd
  else if selector = 1 then Screen.eraseToViewStart
  else if selector = 2 then Screen.eraseView
  else id

/-- The erasure of the line that a selector names. -/
def eraseInLine (selector : Int) : Screen → Screen :=
  if selector = 0 then Screen.eraseToLineEnd
  else if selector = 1 then Screen.eraseToLineStart
  else if selector = 2 then Screen.eraseLine
  else id

/-- The effect of a control sequence.  Negative counts mean zero. -/
def applyControl [HostLink L] (e : Engine L S) :
    ControlSequence → Except Fault (Engine L S)
  | .insertChars count =>
    (e.screen.insertChars count.toNat).map fun screen => { e with screen := screen }
  | .moveCursor rows cols => .ok (e.modifyScreen (·.moveCursor rows cols))
  | .position row column => .ok (e.modifyScreen (·.placeInView row column))
  | .eraseInDisplay selector => .ok (e.modifyScreen (eraseInDisplay selector))
  | .eraseInLine selector => .ok (e.modifyScreen (eraseInLine selector))
  | .insertLines count => .ok (e.modifyScreen (·.insertLines count.toNat))
  | .deleteLines count => .ok (e.modifyScreen (·.deleteLines count.toNat))
  | .deleteChars count => .ok (e.modifyScreen (·.deleteChars count.toNat))
  | .eraseChars count => .ok (e.modifyScreen (·.eraseChars count.toNat))
  | .enhance codes => .ok (e.modifyScreen (·.applyCodes codes))
  | .cursorReport =>
    let cursor := e.screen.cursor
    .ok (e.sendText (Reply.cursorReport cursor.column cursor.row))
  | .lineWrap on =>
    .ok (e.modifyScreen (·.modifyModes fun m => { m with lineWrap := on }))
  | .home down => .ok (e.modifyScreen (if down then Screen.homeDown else Screen.homeUp))

/-! ## Graphics sequences -/

/-- Place the graphics cursor. -/
def placeGraphicsCursor [Surface S] (e : Engine L S) (point : Point) : Engine L S :=
  { e with graphics := { e.graphics with cursor := point } }.tell (.cursorPosition point)

/-- The effect of an operation of the display group. -/
def applyDisplay [Surface S] (e : Engine L S) : DisplayOp → Engine L S
  | .clear color => (e.tell .saveImage).tell (.clear color)
  | .fill color => e.tell (.clear (some color))
  | .graphicsVisible on =>
    { e with graphics := { e.graphics with visible := on } }.tell (.visible on)
  | .alphaVisible on => { e with alphaActive := on }
  | .graphicsCursorVisible on =>
    { e with graphics := { e.graphics with cursorVisible := on } }.tell
      (.cursorVisible on)
  | .setGraphicsCursor point => e.placeGraphicsCursor point
  | .moveGraphicsCursor delta =>
    e.placeGraphicsCursor (e.graphics.cursor.offset delta.x delta.y)
  | .alphaCursorVisible on =>
    e.modifyScreen (·.modifyModes fun m => { m with cursorVisible := on })
  | .enterGraphicsText => e
  | .screenSize width height =>
    let graphics := e.graphics.setSize width.natAbs height.natAbs
    { e with graphics := graphics }.tell (.screenSize graphics.width graphics.height)
  | .skip => e
  | .unknown _ => e

/-- The effect of an operation of the mode group. -/
def applyMode [Surface S] (e : Engine L S) : ModeOp → Engine L S
  | .drawMode mode => e.tell (.drawMode mode)
  | .lineType pattern => e.tell (.lineType pattern)
  | .fillRect x y width height => e.tell (.fillRect x y width height)
  | .textSize size => e.tell (.textSize size)
  | .textOrientation degrees => e.tell (.textOrientation degrees)
  | .textSlant on => e.tell (.textSlant on)
  | .graphicsDefaults =>
    { e with graphics := e.graphics.reset }.tell (.resetDefaults false)
  | .primaryPen pen => e.tell (.pen pen)
  | .skip => e
  | .unknown _ => e

/-- Make a call of a plot body, and follow the pen. -/
def plotCall [Surface S] (e : Engine L S) (call : SurfaceCall) : Engine L S :=
  { e with graphics := e.graphics.record call }.tell call

/-- Draw a plot body.  What was drawn before an error stays. -/
def drawPlot [Surface S] (e : Engine L S) (body : Payload) : Engine L S :=
  (Plot.run body).1.calls.foldl plotCall e

/-- Answer a status query, or begin to wait for a click. -/
def applyStatus [HostLink L] [Surface S] (e : Engine L S) : Option Int → Engine L S
  | some 1 => e.arm (Reply.answerback e.settings.answerback)
  | some 2 => e.arm (Reply.penReport e.graphics.pen e.graphics.penDown)
  | some 3 => e.arm (Reply.graphicsCursorReport e.graphics.cursor)
  | some 4 => { e.tell .clickWait with parser := e.parser.awaitClick }
  | some 5 =>
    e.arm (Reply.displaySizeReport e.graphics.width e.graphics.height
      e.settings.model.sizeMarker)
  | some 8 => e.arm Reply.zoomStatus
  | _ => e.sendText Reply.unsupportedStatus

/-! ## Device sequences -/

/-- The effect of a key-label command. -/
def applyKeyLabels (e : Engine L S) : KeyLabelCommand → Engine L S
  | .hide => e.modifyScreen (·.modifyModes fun m => { m with keyLabels := false })
  | .showModeKeys => e.modifyScreen (·.showBank .mode)
  | .showUserKeys => e.modifyScreen (·.showBank .user)
  | .inert _ => e

/-! ## All actions -/

/-- The effect of an action. -/
def apply [HostLink L] [Surface S] (e : Engine L S) :
    Action → Except Fault (Engine L S)
  | .data b => .ok (e.putData b)
  | .bell => .ok e.bell
  | .handshake => .ok (e.useChannel Channel.release)
  | .single command => .ok (e.applySingle command)
  | .control command => e.applyControl command
  | .display ops => .ok (ops.foldl applyDisplay e)
  | .drawing ops => .ok (ops.foldl applyMode e)
  | .textPen pen => .ok (e.tell (.textPen pen))
  | .plot body => .ok (e.drawPlot body)
  | .status query => .ok (e.applyStatus query)
  | .cursorAddress terms => .ok (e.modifyScreen (·.address terms))
  | .enhance codes => .ok (e.modifyScreen (·.applyCodes codes))
  | .keyLabels command => .ok (e.applyKeyLabels command)
  | .keyboardLock locked =>
    .ok (e.modifyScreen (·.modifyModes fun m => { m with keyboardLocked := locked }))
  | .charset charset => .ok (e.modifyScreen fun s => { s with charset := charset })
  | .graphicsText text => .ok (e.tell (.text text))
  | .inert _ => .ok e
  | .unrecognized _ => .ok e

end Engine

end GraphicsTerminal
