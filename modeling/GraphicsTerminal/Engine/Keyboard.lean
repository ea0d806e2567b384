import GraphicsTerminal.Engine.Receive

/-!
# Keys

Keys act on the screen, or send bytes through the channel, so that a local
session shows what it would send.  A locked keyboard obeys only the key that
unlocks it.

Main definitions:

- {lit}`Key`: a key press.
- {lit}`Engine.press`: the effect of a key press.
-/

namespace GraphicsTerminal

/-- A key press. -/
inductive Key where
  /-- With control, moves the view instead of the cursor. -/
  | up (ctrl : Bool)
  /-- With control, moves the view instead of the cursor. -/
  | down (ctrl : Bool)
  | left
  | right
  | pageUp
  | pageDown
  /-- To the top of memory. -/
  | home
  /-- To the last row of the view. -/
  | bottom
  /-- With control, inserts a line; otherwise switches insert mode. -/
  | insert (ctrl : Bool)
  /-- With control, deletes a line; otherwise deletes a character. -/
  | delete (ctrl : Bool)
  /-- A function key, counted from 1. -/
  | function (number : Nat) (shift : Bool)
  /-- Locks and unlocks the keyboard. -/
  | scrollLock
  /-- Sends the enter byte. -/
  | enter
  /-- Sends a byte. -/
  | char (b : UInt8)
deriving DecidableEq, Repr

/-- The key for a byte that was typed: a line end is the enter key. -/
def Key.ofTyped (b : UInt8) : Key := if b = Byte.lf then enter else char b

/-- What came of a key press. -/
inductive KeyOutcome where
  | handled
  /-- The keyboard is locked, or the key has no function. -/
  | ignored
  /-- A soft key with its label. -/
  | softKey (label : String)
deriving DecidableEq, Repr

namespace Engine

variable {L S : Type}

/-- Lock or unlock the keyboard. -/
def lockKeyboard (e : Engine L S) (locked : Bool) : Engine L S :=
  e.modifyScreen (·.modifyModes fun m => { m with keyboardLocked := locked })

/-- A cursor key moves the cursor, or sends its bytes. -/
def pressCursor [HostLink L] (e : Engine L S) (key : CursorKey) (rows cols : Int) :
    Engine L S :=
  if e.settings.localKeys then e.modifyScreen (·.moveCursor rows cols)
  else e.sendBytes (e.settings.model.cursorKey key)

/-- A function key: the first eight are soft keys, the ninth shows the other
labels, and the tenth shows or hides the picture. -/
def pressFunction [Surface S] (e : Engine L S) (number : Nat) (shift : Bool) :
    KeyOutcome × Engine L S :=
  if 1 ≤ number ∧ number ≤ keysPerRow then
    (.softKey (e.screen.softKeys.label (.ofShift shift) (number - 1)), e)
  else if number = 9 then
    (.handled, e.modifyScreen fun s => { s with softKeys := s.softKeys.toggle })
  else if number = 10 then
    let visible := !e.graphics.visible
    (.handled,
      { e with graphics := { e.graphics with visible := visible } }.tell
        (.visible visible))
  else
    (.ignored, e)

/-- The effect of a key press on an unlocked keyboard. -/
def pressUnlocked [HostLink L] [Surface S] (e : Engine L S) (key : Key) :
    KeyOutcome × Engine L S :=
  match key with
  | .scrollLock => (.handled, e.lockKeyboard true)
  | .up true => (.handled, e.modifyScreen (·.viewUp 1))
  | .down true => (.handled, e.modifyScreen (·.viewDown 1))
  | .up false => (.handled, e.pressCursor .up (-1) 0)
  | .down false => (.handled, e.pressCursor .down 1 0)
  | .left => (.handled, e.pressCursor .left 0 (-1))
  | .right => (.handled, e.pressCursor .right 0 1)
  | .pageUp => (.handled, e.modifyScreen Screen.pageUp)
  | .pageDown => (.handled, e.modifyScreen Screen.pageDown)
  | .home => (.handled, e.modifyScreen Screen.homeUp)
  | .bottom => (.handled, e.modifyScreen Screen.homeDown)
  | .insert true => (.handled, e.modifyScreen Screen.insertLine)
  | .insert false =>
    if e.settings.localKeys then
      (.handled, e.modifyScreen (·.modifyModes fun m => { m with insert := !m.insert }))
    else
      (.ignored, e)
  | .delete true => (.handled, e.modifyScreen Screen.deleteLine)
  | .delete false =>
    if e.settings.localKeys then (.handled, e.modifyScreen (·.deleteChars 1))
    else (.ignored, e)
  | .function number shift => e.pressFunction number shift
  | .enter => (.handled, e.sendBytes [e.settings.enterByte])
  | .char b =>
    if b = Byte.del ∧ e.settings.localKeys then (.ignored, e)
    else (.handled, e.sendBytes [b])

/-- The effect of a key press. -/
def press [HostLink L] [Surface S] (e : Engine L S) (key : Key) :
    KeyOutcome × Engine L S :=
  if e.screen.modes.keyboardLocked then
    if key = .scrollLock then (.handled, e.lockKeyboard false) else (.ignored, e)
  else
    let pressed := e.pressUnlocked key
    (pressed.1, pressed.2.reportLoss)

end Engine

end GraphicsTerminal
