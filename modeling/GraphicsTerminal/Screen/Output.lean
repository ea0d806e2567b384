import GraphicsTerminal.Screen.Edit
import GraphicsTerminal.Screen.View
import GraphicsTerminal.Text.Byte

/-!
# Writing bytes to the screen

A byte from the host either moves the cursor or is stored in the cell under
it.  Line feeds, and the wrap after the last column, go on at the bottom of
the view by moving the view, and at the bottom of memory by moving memory.

Main definitions:

- {lit}`Screen.lineFeed`, {lit}`Screen.carriageReturn`,
  {lit}`Screen.horizontalTab`: the cursor motions.
- {lit}`Screen.print`: store a byte and step to the next column.
- {lit}`Screen.putByte`, {lit}`Screen.putBytes`: the effect of host bytes.
-/

namespace GraphicsTerminal

namespace Screen

/-- Move to the next row.  In the last row of the view the view moves down
over an emptied row, and at the end of memory all rows move up instead. -/
def lineFeed (s : Screen) : Screen :=
  if s.cursor.row + 1 < viewRows then
    s.atRow (s.cursor.row + 1)
  else
    let s := s.atRow (viewRows - 1)
    if s.cursorRow < memoryRows - 1 then (s.viewDown 1).eraseLine
    else s.scrollMemory

/-- Move to the first column and drop the current enhancement. -/
def carriageReturn (s : Screen) : Screen :=
  { s with cursor := { s.cursor with column := 0, style := Enhancement.plain } }

/-- Move one column to the left, if there is one. -/
def backspace (s : Screen) : Screen := s.atColumn (s.cursor.column - 1)

/-- Move to the next tab stop; in insert mode the cells in between are
inserted. -/
def horizontalTab (s : Screen) : Screen :=
  let stop := s.nextTab
  let s := if s.modes.insert then s.openGap (stop - s.cursor.column) else s
  s.atColumn stop

/-- Put a cell under the cursor. -/
def putCell (s : Screen) (cell : Cell) : Screen :=
  { s with
    memory := s.memory.modifyRow s.cursorRow fun row =>
      row.put s.cursor.column cell }

/-- Step to the next column.  After the last one the line wraps, or the cursor
stays where it is. -/
def stepRight (s : Screen) : Screen :=
  if s.cursor.column + 1 < columns then s.atColumn (s.cursor.column + 1)
  else if s.modes.lineWrap then s.carriageReturn.lineFeed
  else s.atColumn (columns - 1)

/-- Store a byte under the cursor and step to the next column. -/
def print (s : Screen) (b : UInt8) : Screen :=
  let s := if s.modes.insert then s.openGap 1 else s
  (s.putCell (.written b s.cursor.style)).stepRight

/-- A byte that is stored whatever the modes are. -/
def isPrintable (b : UInt8) : Bool := 0x20 ≤ b && b < 0x80

/-- The effect of one byte from the host. -/
def putByte (s : Screen) (b : UInt8) : Screen :=
  if b = Byte.lf ∨ b = Byte.vt ∨ b = Byte.ff then s.lineFeed
  else if b = Byte.cr then s.carriageReturn
  else if b = Byte.bs then s.backspace
  else if b = Byte.ht then s.horizontalTab
  else if b = 0 then s
  else if isPrintable b ∨ s.modes.displayFunctions then s.print b
  else s

/-- The effect of bytes from the host, in order. -/
def putBytes (s : Screen) (bytes : List UInt8) : Screen := bytes.foldl putByte s

/-- Bytes are shown one after another. -/
theorem putBytes_append (s : Screen) (front back : List UInt8) :
    s.putBytes (front ++ back) = (s.putBytes front).putBytes back := List.foldl_append

/-- The effect of a text, sent as UTF-8. -/
def putText (s : Screen) (text : String) : Screen := s.putBytes (Text.utf8 text)

end Screen

end GraphicsTerminal
