import GraphicsTerminal.Screen.Basic
import GraphicsTerminal.Text.Byte

/-!
# Reading the screen back

A line is read from a cell up to the first empty cell.  The text of the view
is made of the written cells of its rows.

Main definitions:

- {lit}`Screen.memoryLine`, {lit}`Screen.viewLine`: a line from a position on.
- {lit}`Screen.visibleText`: the text of the view.
-/

namespace GraphicsTerminal

namespace Row

/-- The written bytes from a column on, up to the first empty cell. -/
def line (row : Row) (column count : Nat) : List UInt8 :=
  (((row.toList.drop column).take count).takeWhile (!·.isEmpty)).map Cell.content

/-- The written bytes of the row. -/
def written (row : Row) : List UInt8 :=
  (row.toList.filter (!·.isEmpty)).map Cell.content

end Row

namespace Screen

/-- Up to {lit}`count` written bytes of a row of memory from a column on.  A
column outside becomes the last one; a row outside is read as the last row of
the first page. -/
def memoryLine (s : Screen) (row column count : Nat) : List UInt8 :=
  let row := if row < memoryRows then row else viewRows - 1
  (s.memory[row]?.getD Row.blank).line (min column (columns - 1)) count

/-- The same for a row of the view. -/
def viewLine (s : Screen) (row column count : Nat) : List UInt8 :=
  s.memoryLine (row + s.topRow) column count

/-- The rows of the view as text, joined by line ends, without the empty rows
at the end. -/
def visibleText (s : Screen) : String :=
  let rows := (List.range viewRows).map fun row =>
    ((s.memory[s.topRow + row]?.getD Row.blank).written).map Byte.char
  let joined := List.intercalate ['\n'] rows
  String.ofList (joined.reverse.dropWhile (· == '\n')).reverse

end Screen

end GraphicsTerminal
