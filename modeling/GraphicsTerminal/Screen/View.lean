import GraphicsTerminal.Screen.Basic
import GraphicsTerminal.Number.Word

/-!
# Moving the view and the cursor

The view moves over memory and stops at both ends.  The cursor is placed
relative to the view or on a row of memory; in the second case the view first
moves so that the row is in it.

Main definitions:

- {lit}`Screen.viewUp`, {lit}`Screen.viewDown`: move the view.
- {lit}`Screen.placeInView`, {lit}`Screen.placeInMemory`: place the cursor.
- {lit}`Screen.moveCursor`: move the cursor, wrapping at the edges.
-/

namespace GraphicsTerminal

namespace Screen

/-! ## The view -/

/-- Move the view towards the top of memory. -/
def viewUp (s : Screen) (rows : Nat) : Screen :=
  { s with topRow := min (s.topRow - rows) greatestTopRow }

/-- Move the view towards the end of memory. -/
def viewDown (s : Screen) (rows : Nat) : Screen :=
  { s with topRow := min (s.topRow + rows) greatestTopRow }

/-- Move the view up by its height less one row. -/
def pageUp (s : Screen) : Screen := s.viewUp (viewRows - 1)

/-- Move the view down by its height less one row. -/
def pageDown (s : Screen) : Screen := s.viewDown (viewRows - 1)

/-- Move all rows of memory up by one; the last becomes empty. -/
def scrollMemory (s : Screen) : Screen := { s with memory := s.memory.deleteRow 0 }

/-! ## The cursor -/

/-- Show the top of memory with the cursor in its first cell. -/
def homeUp (s : Screen) : Screen := { (s.atColumn 0).atRow 0 with topRow := 0 }

/-- Put the cursor into the first column of the last row of the view. -/
def homeDown (s : Screen) : Screen := (s.atColumn 0).atRow (viewRows - 1)

/-- The position nearest to a number among the first {lit}`limit`. -/
def nearest (limit : Nat) (v : Int) : Nat := (Word.clamp 0 (limit - 1) v).toNat

/-- Put the cursor at the nearest position of the view. -/
def placeInView (s : Screen) (row column : Int) : Screen :=
  (s.atColumn (nearest columns column)).atRow (nearest viewRows row)

/-- Put the cursor on a row of memory.  A view that does not show the row is
moved first: up to the row, or down to one row further than needed. -/
def placeInMemory (s : Screen) (row column : Int) : Screen :=
  let offset := row - s.topRow
  let moved :=
    if offset < 0 then s.viewUp offset.natAbs
    else if viewRows ≤ offset then s.viewDown (offset - viewRows + 2).toNat
    else s
  moved.placeInView (row - moved.topRow) column

/-- Move the cursor.  Leaving a side continues at the other side, one row up
or down; leaving the top or bottom continues at the other end of the view. -/
def moveCursor (s : Screen) (rows cols : Int) : Screen :=
  let column := s.cursor.column + cols
  let row := s.cursor.row + rows
  let (column, row) :=
    if column < 0 then ((columns - 1 : Int), row - 1)
    else if columns ≤ column then (0, row + 1)
    else (column, row)
  let row : Int :=
    if row < 0 then viewRows - 1 else if viewRows ≤ row then 0 else row
  (s.atColumn column.toNat).atRow row.toNat

end Screen

end GraphicsTerminal
