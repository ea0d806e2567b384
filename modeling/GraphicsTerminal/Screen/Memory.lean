import GraphicsTerminal.Screen.Cell

/-!
# Screen memory

Screen memory is a stack of rows of cells, four times as high as the view that
shows a part of it.  Rows are counted from the top of memory.  A cell also has
a number, which counts the cells row by row; erasures are given as ranges of
such numbers.

Main definitions:

- {lit}`Row.openGap`, {lit}`Row.closeGap`: shift the rest of a row.
- {lit}`Memory.insertRow`, {lit}`Memory.deleteRow`: shift the rows below.
- {lit}`Memory.eraseRange`: empty a range of cells.

Main results:

- Theorems {lit}`Row.getElem_put`, {lit}`Row.getElem_openGap` and
  {lit}`Row.getElem_closeGap`: the cells of a changed row.
- Theorems {lit}`Memory.getElem_insertRow` and {lit}`Memory.getElem_deleteRow`:
  the rows after an insertion or removal.
- Theorem {lit}`Memory.getElem_eraseRange`: the cells after an erasure.
- Theorem {lit}`Memory.getElem_modifyRow_self`: changing a row changes it so.
- Theorem {lit}`Memory.getElem_modifyRow_ne`: changing a row keeps the others.
-/

namespace GraphicsTerminal

/-- The number of columns. -/
abbrev columns : Nat := 80

/-- The number of rows in the view. -/
abbrev viewRows : Nat := 24

/-- The height of memory, in views. -/
abbrev pages : Nat := 4

/-- The number of rows in memory. -/
abbrev memoryRows : Nat := 96

/-- One row of cells. -/
abbrev Row := Vector Cell columns

namespace Row

/-- A row of empty cells. -/
def blank : Row := Vector.replicate columns .empty

/-- Put a cell into a column; a column outside has no effect. -/
def put (row : Row) (column : Nat) (cell : Cell) : Row :=
  row.setIfInBounds column cell

/-- Shift the cells from a column on to the right by {lit}`count`, and fill the
gap with {lit}`filler`.  Cells that leave the row are lost. -/
def openGap (row : Row) (column count : Nat) (filler : Cell) : Row :=
  Vector.ofFn fun i =>
    if i.val < column then row[i]
    else if i.val < column + count then filler
    else row[i.val - count]

/-- Drop {lit}`count` cells from a column on, and shift those behind them to
the left.  The cells at the end become empty. -/
def closeGap (row : Row) (column count : Nat) : Row :=
  Vector.ofFn fun i =>
    if i.val < column then row[i]
    else if h : i.val + count < columns then row[i.val + count]
    else .empty

/-! ### Cell by cell -/

/-- Only the given column receives the cell. -/
theorem getElem_put (row : Row) (column : Nat) (cell : Cell) {i : Nat} (h : i < columns) :
    (row.put column cell)[i] = if column = i then cell else row[i] := by
  simp [put, Vector.getElem_setIfInBounds]

/-- Before the gap the cells stay, and behind it they are shifted. -/
theorem getElem_openGap (row : Row) (column count : Nat) (filler : Cell) {i : Nat}
    (h : i < columns) :
    (row.openGap column count filler)[i] =
      if i < column then row[i]
      else if i < column + count then filler
      else row[i - count] := by
  simp [openGap]

/-- Before the column the cells stay, and from there on they are shifted. -/
theorem getElem_closeGap (row : Row) (column count : Nat) {i : Nat} (h : i < columns) :
    (row.closeGap column count)[i] =
      if i < column then row[i] else row[i + count]?.getD .empty := by
  simp only [closeGap, Vector.getElem_ofFn]
  split
  · rfl
  · split <;> simp_all

end Row

/-- All rows of cells. -/
abbrev Memory := Vector Row memoryRows

namespace Memory

/-- Memory without a written cell. -/
def blank : Memory := Vector.replicate memoryRows Row.blank

/-- The number of a cell, counted row by row. -/
def cellNumber (row column : Nat) : Nat := row * columns + column

/-- The cell at a row and column. -/
def cell? (m : Memory) (row column : Nat) : Option Cell := do
  let cells ← m[row]?
  cells[column]?

/-- Change one row; a row outside has no effect. -/
def modifyRow (m : Memory) (row : Nat) (f : Row → Row) : Memory :=
  if h : row < memoryRows then m.set row (f m[row]) else m

/-- Empty the cells whose numbers lie between two bounds, both included. -/
def eraseRange (m : Memory) (first last : Nat) : Memory :=
  m.mapIdx fun row cells =>
    if last < cellNumber row 0 ∨ cellNumber row (columns - 1) < first then
      cells
    else
      cells.mapIdx fun column cell =>
        if first ≤ cellNumber row column ∧ cellNumber row column ≤ last then .empty
        else cell

/-- Open an empty row; the rows from there on move down and the last is lost. -/
def insertRow (m : Memory) (row : Nat) : Memory :=
  Vector.ofFn fun i =>
    if i.val < row then m[i]
    else if i.val = row then Row.blank
    else m[i.val - 1]

/-- Remove a row; the rows below move up and the last becomes empty. -/
def deleteRow (m : Memory) (row : Nat) : Memory :=
  Vector.ofFn fun i =>
    if i.val < row then m[i]
    else if h : i.val + 1 < memoryRows then m[i.val + 1]
    else Row.blank

/-! ### Row by row -/

/-- Above the new row the rows stay, and below it they are shifted. -/
theorem getElem_insertRow (m : Memory) (row : Nat) {i : Nat} (h : i < memoryRows) :
    (m.insertRow row)[i] =
      if i < row then m[i] else if i = row then Row.blank else m[i - 1] := by
  simp [insertRow]

/-- Above the removed row the rows stay, and from there on they are shifted. -/
theorem getElem_deleteRow (m : Memory) (row : Nat) {i : Nat} (h : i < memoryRows) :
    (m.deleteRow row)[i] =
      if i < row then m[i] else m[i + 1]?.getD Row.blank := by
  simp only [deleteRow, Vector.getElem_ofFn]
  split
  · rfl
  · split <;> simp_all

/-- An erasure empties the cells of its range and no other cell. -/
theorem getElem_eraseRange (m : Memory) (first last : Nat) {i j : Nat}
    (hi : i < memoryRows) (hj : j < columns) :
    (m.eraseRange first last)[i][j] =
      if first ≤ cellNumber i j ∧ cellNumber i j ≤ last then .empty else m[i][j] := by
  have hrow : (m.eraseRange first last)[i] =
      if last < cellNumber i 0 ∨ cellNumber i (columns - 1) < first then m[i]
      else m[i].mapIdx fun column cell =>
        if first ≤ cellNumber i column ∧ cellNumber i column ≤ last then .empty
        else cell := by
    simp [eraseRange]
  simp only [hrow]
  split
  · have houtside : ¬ (first ≤ cellNumber i j ∧ cellNumber i j ≤ last) := by
      simp only [cellNumber, columns] at *
      omega
    simp [houtside]
  · simp

/-- A changed row is the image of the old one. -/
theorem getElem_modifyRow_self (m : Memory) (f : Row → Row) {row : Nat}
    (h : row < memoryRows) : (m.modifyRow row f)[row] = f m[row] := by
  simp [modifyRow, h]

/-- Changing a row keeps the other rows. -/
theorem getElem_modifyRow_ne (m : Memory) (f : Row → Row) {row other : Nat}
    (h : other < memoryRows) (hne : row ≠ other) :
    (m.modifyRow row f)[other] = m[other] := by
  unfold modifyRow
  split
  · exact Vector.getElem_set_ne _ h hne
  · rfl

end Memory

end GraphicsTerminal
