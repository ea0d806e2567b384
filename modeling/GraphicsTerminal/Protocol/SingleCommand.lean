import GraphicsTerminal.Text.Byte

/-!
# Commands of one letter

The shortest sequences consist of the escape byte and one more byte that names
the command.
-/

namespace GraphicsTerminal

/-- A command named by one byte after the escape byte. -/
inductive SingleCommand where
  | cursorUp
  | cursorDown
  | cursorRight
  | cursorLeft
  /-- Return to the initial state, erasing memory and the picture. -/
  | hardReset
  /-- Return modes and settings to the initial state and keep memory. -/
  | softReset
  /-- Go to the top of memory. -/
  | homeUp
  /-- Go to the first column of the last row of the view. -/
  | homeDown
  | cursorToLeftMargin
  | clearToEndOfMemory
  | clearToEndOfLine
  | insertLine
  | deleteLine
  | deleteChar
  | insertMode (on : Bool)
  /-- Move the view one row towards the end of memory. -/
  | rollUp
  /-- Move the view one row towards the top of memory. -/
  | rollDown
  | displayFunctions (on : Bool)
  | keyboardLock (locked : Bool)
  | backTab
  | setTab
  | clearTab
  | clearAllTabs
  | setLeftMargin
  | setRightMargin
  | saveCursor
  | restoreCursor
  /-- Report the position of the cursor in memory. -/
  | cursorSense
  /-- Send the line from the cursor on. -/
  | sendLine
  /-- Send the tape file. -/
  | fileTransfer
  | primaryStatus
  | secondaryStatus
  /-- Accepted without effect. -/
  | inert (code : UInt8)
deriving DecidableEq, Repr

/-- The command that a byte names. -/
def SingleCommand.decode? (b : UInt8) : Option SingleCommand :=
  match Byte.char b with
  | 'A' => some cursorUp
  | 'B' => some cursorDown
  | 'C' => some cursorRight
  | 'D' => some cursorLeft
  | 'E' => some hardReset
  | 'F' => some homeDown
  | 'G' => some cursorToLeftMargin
  | 'H' | 'h' => some homeUp
  | 'J' => some clearToEndOfMemory
  | 'K' => some clearToEndOfLine
  | 'L' => some insertLine
  | 'M' => some deleteLine
  | 'P' => some deleteChar
  | 'Q' => some (insertMode true)
  | 'R' => some (insertMode false)
  | 'S' => some rollUp
  | 'T' => some rollDown
  | 'Y' => some (displayFunctions true)
  | 'Z' => some (displayFunctions false)
  | 'a' => some cursorSense
  | 'b' => some (keyboardLock false)
  | 'c' => some (keyboardLock true)
  | 'd' => some sendLine
  | 'e' => some fileTransfer
  | 'g' => some softReset
  | 'i' => some backTab
  | '1' => some setTab
  | '2' => some clearTab
  | '3' => some clearAllTabs
  | '4' => some setLeftMargin
  | '5' => some setRightMargin
  | '7' => some saveCursor
  | '8' => some restoreCursor
  | '^' => some primaryStatus
  | '~' => some secondaryStatus
  | 'X' | 'l' | 'm' | '@' => some (inert b)
  | _ => none

end GraphicsTerminal
