import GraphicsTerminal.Screen.Memory
import GraphicsTerminal.Screen.Modes
import GraphicsTerminal.Screen.SoftKeys
import GraphicsTerminal.Screen.TabStops

/-!
# The alphanumeric screen

The screen is memory together with everything that writing to it depends on:
the row of memory at the top of the view, the cursor, margins, tab stops and
modes.  The cursor is counted from the top of the view; the row of memory it
stands on is {lit}`Screen.cursorRow`.

Main definitions:

- {lit}`Screen`: the state of the screen.
- {lit}`Screen.initial`, {lit}`Screen.reset`: the states a terminal starts from
  and returns to.
- {lit}`Screen.Bounded`: the cursor, the view and the margins lie inside the
  screen.
-/

namespace GraphicsTerminal

/-- A position in the view with the enhancement for written cells. -/
structure Cursor where
  column : Nat
  /-- The row, counted from the top of the view. -/
  row : Nat
  style : Enhancement
deriving DecidableEq, Repr

/-- The top left of the view, without enhancement. -/
def Cursor.home : Cursor := ⟨0, 0, Enhancement.plain⟩

/-- The margin columns. -/
structure Margins where
  left : Nat
  right : Nat
deriving DecidableEq, Repr

/-- The outermost columns. -/
def Margins.initial : Margins := ⟨0, columns - 1⟩

/-- The state of the alphanumeric screen. -/
structure Screen where
  memory : Memory
  /-- The row of memory at the top of the view. -/
  topRow : Nat
  cursor : Cursor
  /-- The cursor as it was last saved. -/
  saved : Cursor
  margins : Margins
  tabs : TabStops
  modes : Modes
  /-- The alternate character set. -/
  charset : Charset
  softKeys : SoftKeys
deriving DecidableEq

namespace Screen

/-- The greatest row of memory that can be at the top of the view. -/
abbrev greatestTopRow : Nat := memoryRows - viewRows

/-- The screen of a new terminal. -/
def initial : Screen where
  memory := Memory.blank
  topRow := 0
  cursor := Cursor.home
  saved := Cursor.home
  margins := Margins.initial
  tabs := TabStops.initial columns
  modes := Modes.initial
  charset := .roman
  softKeys := SoftKeys.initial

/-- Return cursor, margins, tab stops, modes and the shown labels to their
initial state.  A hard reset also erases memory and shows its top. -/
def reset (s : Screen) (hard : Bool) : Screen :=
  let soft : Screen :=
    { s with
      cursor := Cursor.home
      saved := Cursor.home
      margins := Margins.initial
      tabs := s.tabs.setDefault TabStops.defaultStep
      modes := Modes.initial
      softKeys := s.softKeys.select .mode }
  if hard then { soft with topRow := 0, memory := Memory.blank } else soft

/-- The cursor, the view and the margins lie inside the screen, and there is
one tab flag per column. -/
structure Bounded (s : Screen) : Prop where
  topRow_le : s.topRow ≤ greatestTopRow
  column_lt : s.cursor.column < columns
  row_lt : s.cursor.row < viewRows
  saved_column_lt : s.saved.column < columns
  saved_row_lt : s.saved.row < viewRows
  left_lt : s.margins.left < columns
  right_lt : s.margins.right < columns
  tabs_size : s.tabs.stops.size = columns

/-- The initial screen lies inside its bounds. -/
theorem initial_bounded : Bounded initial where
  topRow_le := by decide
  column_lt := by decide
  row_lt := by decide
  saved_column_lt := by decide
  saved_row_lt := by decide
  left_lt := by decide
  right_lt := by decide
  tabs_size := by simp [initial, TabStops.initial, TabStops.regular]

/-! ## Positions -/

/-- The row of memory that the cursor stands on. -/
def cursorRow (s : Screen) : Nat := s.topRow + s.cursor.row

/-- The number of the first cell of the view. -/
def viewStart (s : Screen) : Nat := Memory.cellNumber s.topRow 0

/-- The number of the last cell of the view. -/
def viewEnd (s : Screen) : Nat :=
  Memory.cellNumber (s.topRow + (viewRows - 1)) (columns - 1)

/-- The number of the last cell of memory. -/
def memoryEnd : Nat := Memory.cellNumber (memoryRows - 1) (columns - 1)

/-- The number of the first cell of the cursor row. -/
def lineStart (s : Screen) : Nat := Memory.cellNumber s.cursorRow 0

/-- The number of the last cell of the cursor row. -/
def lineEnd (s : Screen) : Nat := Memory.cellNumber s.cursorRow (columns - 1)

/-- The number of the cell under the cursor. -/
def cursorCell (s : Screen) : Nat := Memory.cellNumber s.cursorRow s.cursor.column

/-- The cell at a row and column of the view. -/
def cell? (s : Screen) (row column : Nat) : Option Cell :=
  if row < viewRows then s.memory.cell? (s.topRow + row) column else none

/-! ## Cursor, margins and tabs -/

/-- Put the cursor into a column. -/
def atColumn (s : Screen) (column : Nat) : Screen :=
  { s with cursor := { s.cursor with column := column } }

/-- Put the cursor into a row of the view. -/
def atRow (s : Screen) (row : Nat) : Screen :=
  { s with cursor := { s.cursor with row := row } }

/-- Apply one enhancement code to the current enhancement. -/
def applyCode (s : Screen) (code : Int) : Screen :=
  { s with cursor := { s.cursor with style := s.cursor.style.applyCode code } }

/-- Apply enhancement codes in order. -/
def applyCodes (s : Screen) (codes : List Int) : Screen := codes.foldl applyCode s

/-- Make the cursor column the left margin. -/
def setLeftMargin (s : Screen) : Screen :=
  { s with margins := { s.margins with left := s.cursor.column } }

/-- Make the cursor column the right margin. -/
def setRightMargin (s : Screen) : Screen :=
  { s with margins := { s.margins with right := s.cursor.column } }

/-- Move the cursor to the left margin of its row. -/
def toLeftMargin (s : Screen) : Screen := s.atColumn (min s.margins.left (columns - 1))

/-- The column of the next tab stop. -/
def nextTab (s : Screen) : Nat := s.tabs.nextFrom s.cursor.column

/-- The column of the previous tab stop. -/
def prevTab (s : Screen) : Nat := s.tabs.prevFrom s.cursor.column

/-- Move the cursor back to the previous tab stop. -/
def backTab (s : Screen) : Screen := s.atColumn s.prevTab

/-- Change the tab stops. -/
def modifyTabs (s : Screen) (f : TabStops → TabStops) : Screen :=
  { s with tabs := f s.tabs }

/-- Change the modes. -/
def modifyModes (s : Screen) (f : Modes → Modes) : Screen :=
  { s with modes := f s.modes }

/-- Keep a copy of the cursor. -/
def saveCursor (s : Screen) : Screen := { s with saved := s.cursor }

/-- Return to the saved cursor, inside the view. -/
def restoreCursor (s : Screen) : Screen :=
  { s with
    cursor :=
      { s.saved with
        column := min s.saved.column (columns - 1)
        row := min s.saved.row (viewRows - 1) } }

/-! ## Soft keys -/

/-- Select the bank of labels. -/
def selectBank (s : Screen) (bank : KeyBank) : Screen :=
  { s with softKeys := s.softKeys.select bank }

/-- Show a bank of labels, and show labels at all. -/
def showBank (s : Screen) (bank : KeyBank) : Screen :=
  (s.selectBank bank).modifyModes fun m => { m with keyLabels := true }

end Screen

end GraphicsTerminal
