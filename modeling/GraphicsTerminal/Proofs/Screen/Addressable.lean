import GraphicsTerminal.Proofs.Screen.FlatScreen
import GraphicsTerminal.Proofs.Screen.WellFormed
import GraphicsTerminal.Screen.ReadBack

/-!
# Accesses to the screen

Bytes from the host, repeated edits and reading back are built from the
operations over one array.  On a well-formed screen the checks of all of them
pass, again but for the one insertion that is refused.

Main definitions:

- {lit}`FlatScreen.putBytes`, {lit}`FlatScreen.insertLines`,
  {lit}`FlatScreen.deleteLines`, {lit}`FlatScreen.memoryLine`,
  {lit}`FlatScreen.visibleRow`: the composed operations.
- {lit}`Screen.Addressable`: the checks of every operation pass.

Main results:

- Theorem {lit}`Screen.WellFormed.addressable`: a well-formed screen is
  addressable.
-/

namespace GraphicsTerminal

namespace FlatScreen

open Cells (minus)

/-! ## Host bytes -/

/-- Move to the next row. -/
def lineFeed (s : FlatScreen) : Except AddressFault FlatScreen := do
  if s.cursor.row + 1 < viewRows then
    return s.atRow (s.cursor.row + 1)
  else
    let s := s.atRow (viewRows - 1)
    let lastRow ← minus ((← memoryEnd) + 1) columns
    if s.lineStart < lastRow then (s.viewDown 1).clearLine else s.scrollMemory

/-- Move to the first column and drop the current enhancement. -/
def carriageReturn (s : FlatScreen) : FlatScreen :=
  { s with cursor := { s.cursor with column := 0, style := Enhancement.plain } }

/-- Move to the next tab stop; in insert mode the cells in between are
inserted. -/
def horizontalTab (s : FlatScreen) : Except AddressFault FlatScreen := do
  let stop := s.tabs.nextFrom s.cursor.column
  if s.modes.insert then
    return (← s.insertChars (stop - s.cursor.column)).atColumn stop
  else
    return s.atColumn stop

/-- Step to the next column.  After the last one the line wraps, or the cursor
stays where it is. -/
def stepRight (s : FlatScreen) : Except AddressFault FlatScreen :=
  if s.cursor.column + 1 < columns then .ok (s.atColumn (s.cursor.column + 1))
  else if s.modes.lineWrap then s.carriageReturn.lineFeed
  else .ok (s.atColumn (columns - 1))

/-- In insert mode, make room for one byte. -/
def makeRoom (s : FlatScreen) : Except AddressFault FlatScreen :=
  if s.modes.insert then s.insertChars 1 else .ok s

/-- Store a byte under the cursor and step to the next column. -/
def print (s : FlatScreen) (b : UInt8) : Except AddressFault FlatScreen := do
  let s ← s.makeRoom
  let cells ← s.cells.store s.cursorCell (.written b s.cursor.style)
  (s.withCells cells).stepRight

/-- The effect of one byte from the host. -/
def putByte (s : FlatScreen) (b : UInt8) : Except AddressFault FlatScreen :=
  if b = Byte.lf ∨ b = Byte.vt ∨ b = Byte.ff then s.lineFeed
  else if b = Byte.cr then .ok s.carriageReturn
  else if b = Byte.bs then .ok (s.atColumn (s.cursor.column - 1))
  else if b = Byte.ht then s.horizontalTab
  else if b = 0 then .ok s
  else if Screen.isPrintable b ∨ s.modes.displayFunctions then s.print b
  else .ok s

/-- The effect of bytes from the host, in order. -/
def putBytes (s : FlatScreen) : List UInt8 → Except AddressFault FlatScreen
  | [] => .ok s
  | b :: bytes => do (← s.putByte b).putBytes bytes

/-! ## Reading back -/

/-- Up to {lit}`count` written bytes of a row of memory from a column on. -/
def memoryLine (s : FlatScreen) (row column count : Nat) :
    Except AddressFault (List UInt8) := do
  let row := if row < memoryRows then row else viewRows - 1
  let column := min column (columns - 1)
  let count := min count (← minus columns column)
  let start := row * columns + column
  let cells ← s.cells.slice start (start + count)
  return (cells.takeWhile (!·.isEmpty)).map Cell.content

/-- The written bytes of a row of the view. -/
def visibleRow (s : FlatScreen) (row : Nat) : Except AddressFault (List UInt8) := do
  let start := s.viewStart + row * columns
  let cells ← s.cells.slice start (start + columns)
  return (cells.filter (!·.isEmpty)).map Cell.content

/-! ## Repeated edits -/

/-- Apply a checked operation a number of times. -/
def times (f : FlatScreen → Except AddressFault FlatScreen) :
    Nat → FlatScreen → Except AddressFault FlatScreen
  | 0, s => .ok s
  | count + 1, s => do f (← times f count s)

/-- Insert lines one by one. -/
def insertLines (s : FlatScreen) (count : Nat) : Except AddressFault FlatScreen :=
  times insertLine (min count Screen.mostLines) s

/-- Delete lines one by one. -/
def deleteLines (s : FlatScreen) (count : Nat) : Except AddressFault FlatScreen :=
  times deleteLine (min count Screen.mostLines) s

end FlatScreen

namespace Screen

variable {s : Screen}

/-! ### Host bytes -/

theorem flat_atColumn (s : Screen) (column : Nat) :
    (s.atColumn column).flat = s.flat.atColumn column := rfl

theorem flat_atRow (s : Screen) (row : Nat) : (s.atRow row).flat = s.flat.atRow row := rfl

theorem flat_carriageReturn (s : Screen) : s.carriageReturn.flat = s.flat.carriageReturn := rfl

/-- None of the three ways to go on after a row fails. -/
theorem flat_lineFeed (s : Screen) : s.flat.lineFeed = .ok s.lineFeed.flat := by
  have hrow : s.flat.cursor.row = s.cursor.row := rfl
  have hlast (t : Screen) : t.lineStart < Memory.cellCount - columns ↔
      t.cursorRow < memoryRows - 1 := by
    simp only [lineStart, Memory.cellNumber, Memory.cellCount, memoryRows, columns]
    omega
  simp only [FlatScreen.lineFeed, hrow, ← flat_atRow, flat_memoryEnd, minus_lastRow,
    flat_lineStart, hlast, ← flat_viewDown, flat_clearLine, flat_scrollMemory, bind,
    Except.bind, pure, Except.pure]
  unfold Screen.lineFeed
  split
  · rfl
  · simp only
    split
    · rfl
    · rfl

/-- Blanks that are fewer than the columns never fail a check. -/
theorem flat_openGap_of_lt (h : s.Bounded) {count : Nat} (hcount : count < columns) :
    s.flat.insertChars count = .ok (s.openGap count).flat := by
  refine flat_openGap h ?_
  simp only [lineEnd, Memory.cellNumber, columns] at *
  omega

/-- In insert mode the gap up to the stop is opened first; it is shorter than the line and
not refused. -/
theorem flat_horizontalTab (h : s.Bounded) :
    s.flat.horizontalTab = .ok s.horizontalTab.flat := by
  have hstop := h.nextTab_lt
  have hgap : s.nextTab - s.cursor.column < columns := by omega
  have hnext : s.flat.tabs.nextFrom s.cursor.column = s.nextTab := rfl
  have hcolumn : s.flat.cursor.column = s.cursor.column := rfl
  have hinsert : s.flat.modes.insert = s.modes.insert := rfl
  simp only [FlatScreen.horizontalTab, hnext, hcolumn, hinsert, flat_openGap_of_lt h hgap, bind,
    Except.bind, pure, Except.pure]
  unfold Screen.horizontalTab
  split
  · rfl
  · rfl

/-- The step after a character fails nowhere, a wrap at the end of memory included. -/
theorem flat_stepRight (s : Screen) : s.flat.stepRight = .ok s.stepRight.flat := by
  have hcolumn : s.flat.cursor.column = s.cursor.column := rfl
  have hwrap : s.flat.modes.lineWrap = s.modes.lineWrap := rfl
  simp only [FlatScreen.stepRight, hcolumn, hwrap, ← flat_carriageReturn, flat_lineFeed,
    ← flat_atColumn]
  unfold Screen.stepRight
  split
  · rfl
  · split
    · rfl
    · rfl

/-- The cell under the cursor can be stored to. -/
theorem flat_putCell (h : s.Bounded) (cell : Cell) :
    ∃ cells, s.flat.cells.store s.cursorCell cell = .ok cells ∧
      s.flat.withCells cells = (s.putCell cell).flat := by
  have hrow := h.cursorRow_lt
  have hcolumn := h.column_lt
  have hend := lineEnd_lt h
  have hroom := cursorCell_add_lineRoom h
  have hsome : 0 < s.lineRoom := by
    simp only [lineRoom]
    omega
  obtain ⟨cells, hstore, hcells⟩ :=
    (Cells.holds_flat s.memory).store s.cursorCell cell (by omega)
  refine ⟨cells, (flat_cells s).symm ▸ hstore, flat_withMemory (hcells.eq_flat fun i hi => ?_)⟩
  rw [Memory.numbered_put s.memory cell hrow hcolumn hi]
  rfl

/-- Storing a byte and stepping to the right never fails a check. -/
theorem flat_print (h : s.Bounded) (b : UInt8) : s.flat.print b = .ok (s.print b).flat := by
  have hgap : (if s.modes.insert then s.openGap 1 else s).Bounded := by
    split
    · exact { h with }
    · exact h
  have hinsert : s.flat.makeRoom = .ok (if s.modes.insert then s.openGap 1 else s).flat := by
    have hmode : s.flat.modes.insert = s.modes.insert := rfl
    rw [FlatScreen.makeRoom, hmode, flat_openGap_of_lt h (by decide)]
    split
    · rfl
    · rfl
  unfold Screen.print
  generalize hshifted : (if s.modes.insert then s.openGap 1 else s) = t at *
  obtain ⟨cells, hstore, hcells⟩ := flat_putCell hgap (.written b t.cursor.style)
  have hstyle : t.flat.cursor.style = t.cursor.style := rfl
  simp only [FlatScreen.print, hinsert, hstyle, flat_cursorCell, hstore, hcells, flat_stepRight,
    bind, Except.bind]

/-- No byte from the host fails. -/
theorem flat_putByte (h : s.Bounded) (b : UInt8) :
    s.flat.putByte b = .ok (s.putByte b).flat := by
  have hshown : s.flat.modes.displayFunctions = s.modes.displayFunctions := rfl
  unfold FlatScreen.putByte Screen.putByte
  rw [hshown]
  split
  · exact flat_lineFeed s
  split
  · rfl
  split
  · rfl
  split
  · exact flat_horizontalTab h
  split
  · rfl
  split
  · exact flat_print h b
  · rfl

/-! ### Reading back -/

/-- The cells of a part of a row by their numbers. -/
theorem map_numbered_row (m : Memory) {row column count : Nat} (hrow : row < memoryRows)
    (hcount : column + count ≤ columns) :
    (List.range' (Memory.cellNumber row column) count).map m.numbered =
      (m[row].toList.drop column).take count := by
  apply List.ext_getElem?
  intro i
  rw [List.getElem?_map, List.getElem?_take]
  by_cases hi : i < count
  · have hnumber : Memory.cellNumber row column + i = Memory.cellNumber row (column + i) := by
      simp only [Memory.cellNumber]
      omega
    have hcolumn : column + i < columns := by omega
    rw [if_pos hi, List.getElem?_range' hi, Nat.one_mul, hnumber, Option.map_some,
      Memory.numbered_cellNumber m hrow hcolumn, List.getElem?_drop]
    simp [hcolumn]
  · rw [if_neg hi, List.getElem?_eq_none (by simpa using hi), Option.map_none]

/-- A line is read without a failing access, whatever the row, the column and the length
are. -/
theorem flat_memoryLine (s : Screen) (row column count : Nat) :
    s.flat.memoryLine row column count = .ok (s.memoryLine row column count) := by
  unfold FlatScreen.memoryLine Screen.memoryLine
  have hrow : (if row < memoryRows then row else viewRows - 1) < memoryRows := by
    split
    · assumption
    · decide
  have hcolumn : min column (columns - 1) ≤ columns :=
    Nat.le_trans (Nat.min_le_right _ _) (Nat.sub_le _ _)
  generalize (if row < memoryRows then row else viewRows - 1) = r at *
  generalize min column (columns - 1) = c at *
  have hslice := (Cells.holds_flat s.memory).slice (Memory.cellNumber r c)
    (min count (columns - c)) (by
      simp only [Memory.cellNumber, Memory.cellCount, memoryRows, columns] at *
      omega)
  rw [map_numbered_row s.memory hrow (by omega)] at hslice
  have htake : (s.memory[r].toList.drop c).take (min count (columns - c)) =
      (s.memory[r].toList.drop c).take count := by
    rw [List.take_eq_take_iff]
    simp
  simp only [Memory.cellNumber] at hslice
  simp only [Cells.minus_of_le hcolumn, flat_cells, hslice, htake, bind, Except.bind, pure,
    Except.pure]
  simp [Row.line, hrow]

/-- A row of the view is read without a failing access. -/
theorem flat_visibleRow (h : s.Bounded) {row : Nat} (hrow : row < viewRows) :
    s.flat.visibleRow row =
      .ok (s.memory[s.topRow + row]?.getD Row.blank).written := by
  have htop := h.topRow_le
  have hin : s.topRow + row < memoryRows := by
    simp only [greatestTopRow, memoryRows, viewRows] at *
    omega
  have hslice := (Cells.holds_flat s.memory).slice (Memory.cellNumber (s.topRow + row) 0)
    columns (by
      simp only [Memory.cellNumber, Memory.cellCount, memoryRows, columns] at *
      omega)
  rw [map_numbered_row s.memory hin (by omega)] at hslice
  have hstart : s.flat.viewStart + row * columns = Memory.cellNumber (s.topRow + row) 0 := by
    simp only [flat, viewStart, Memory.cellNumber, columns]
    omega
  have hall : s.memory[s.topRow + row].toList.take columns = s.memory[s.topRow + row].toList :=
    List.take_of_length_le (by simp)
  simp only [FlatScreen.visibleRow, hstart, flat_cells, hslice, List.drop_zero, hall, bind,
    Except.bind, pure, Except.pure]
  simp [Row.written, hin]

/-! ### Repeated edits -/

/-- A checked operation that never fails on well-formed screens never fails
when it is repeated. -/
theorem flat_times {f : FlatScreen → Except AddressFault FlatScreen} {g : Screen → Screen}
    (hf : ∀ s : Screen, s.WellFormed → f s.flat = .ok (g s).flat)
    (hg : ∀ {s : Screen}, s.WellFormed → (g s).WellFormed) (h : s.WellFormed) (count : Nat) :
    FlatScreen.times f count s.flat = .ok (count.repeat g s).flat := by
  induction count with
  | zero => rfl
  | succ count ih =>
    rw [FlatScreen.times, ih]
    exact hf _ (WellFormed.repeat_of_step hg count h)

/-- Every round of a line insertion finds a bounded screen. -/
theorem flat_insertLines (h : s.WellFormed) (count : Nat) :
    s.flat.insertLines count = .ok (s.insertLines count).flat :=
  flat_times (fun _ hs => flat_insertLine hs.toBounded) WellFormed.insertLine h _

/-- Every round of a line deletion finds a bounded screen. -/
theorem flat_deleteLines (h : s.WellFormed) (count : Nat) :
    s.flat.deleteLines count = .ok (s.deleteLines count).flat :=
  flat_times (fun _ hs => flat_deleteLine hs.toBounded) WellFormed.deleteLine h _

/-- Every byte of a text finds a bounded screen. -/
theorem flat_putBytes (h : s.WellFormed) (bytes : List UInt8) :
    s.flat.putBytes bytes = .ok (s.putBytes bytes).flat := by
  induction bytes generalizing s with
  | nil => rfl
  | cons b bytes ih =>
    rw [FlatScreen.putBytes, flat_putByte h.toBounded b]
    exact ih (h.putByte b)

/-! ### All operations -/

/-- The checks of every operation pass, and over the array it does what it does
to the rows of memory; an insertion of characters fails where it is refused. -/
structure Addressable (s : Screen) : Prop where
  lineEnd : s.flat.lineEnd = .ok s.lineEnd
  viewEnd : s.flat.viewEnd = .ok s.viewEnd
  clearRange : ∀ first last, s.flat.clearRange first last = .ok (s.eraseRange first last).flat
  clearChars : ∀ count, s.flat.clearChars count = .ok (s.eraseChars count).flat
  insertChars : ∀ count, s.flat.insertChars count =
    match s.insertChars count with
    | .ok next => .ok next.flat
    | .error .shiftBeforeMemory => .error .negative
  deleteChars : ∀ count, s.flat.deleteChars count = .ok (s.deleteChars count).flat
  insertLines : ∀ count, s.flat.insertLines count = .ok (s.insertLines count).flat
  deleteLines : ∀ count, s.flat.deleteLines count = .ok (s.deleteLines count).flat
  scrollMemory : s.flat.scrollMemory = .ok s.scrollMemory.flat
  putBytes : ∀ bytes, s.flat.putBytes bytes = .ok (s.putBytes bytes).flat
  memoryLine : ∀ row column count,
    s.flat.memoryLine row column count = .ok (s.memoryLine row column count)
  visibleRow : ∀ row < viewRows,
    s.flat.visibleRow row = .ok (s.memory[s.topRow + row]?.getD Row.blank).written

/-- A well-formed screen is addressable. -/
theorem WellFormed.addressable (h : s.WellFormed) : s.Addressable where
  lineEnd := flat_lineEnd s
  viewEnd := flat_viewEnd s
  clearRange := flat_clearRange s
  clearChars := flat_clearChars s
  insertChars := flat_insertChars h.toBounded
  deleteChars := flat_deleteChars h.toBounded
  insertLines := flat_insertLines h
  deleteLines := flat_deleteLines h
  scrollMemory := flat_scrollMemory s
  putBytes := flat_putBytes h
  memoryLine := flat_memoryLine s
  visibleRow := fun _ hrow => flat_visibleRow h.toBounded hrow

end Screen

end GraphicsTerminal
