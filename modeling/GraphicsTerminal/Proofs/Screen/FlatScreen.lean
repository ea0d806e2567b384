import GraphicsTerminal.Proofs.Screen.FlatMemory
import GraphicsTerminal.Screen.Output

/-!
# The screen over one array

The cells of the screen are kept in one array, and the view is given by the
number of its first cell.  Every operation computes the numbers of the cells it
works on, and its accesses and differences are checked.  Inside the bounds of
the screen no check fails, but for one insertion of blanks, and every operation
does to the array what it does to the rows of memory.

Main definitions:

- {lit}`FlatScreen`: the screen over one array.
- {lit}`FlatScreen.clearRange`, {lit}`FlatScreen.insertChars`,
  {lit}`FlatScreen.deleteChars`, {lit}`FlatScreen.insertLine`,
  {lit}`FlatScreen.deleteLine`, {lit}`FlatScreen.scrollMemory`: its operations.
- {lit}`Screen.flat`: the same screen over one array.

Main results:

- Theorem {lit}`Screen.flat_insertChars`: the checks of an insertion fail exactly
  when the insertion is refused.
- Theorems {lit}`Screen.flat_clearRange`, {lit}`Screen.flat_deleteChars`,
  {lit}`Screen.flat_insertLine`, {lit}`Screen.flat_deleteLine` and
  {lit}`Screen.flat_scrollMemory`: the checks of the other operations never fail.
-/

namespace GraphicsTerminal

/-- What cells are written by, with the cells in one array. -/
structure FlatScreen where
  cells : Cells
  /-- The number of the first cell of the view. -/
  viewStart : Nat
  cursor : Cursor
  tabs : TabStops
  modes : Modes
deriving DecidableEq

namespace FlatScreen

open Cells (minus)

/-! ## Positions -/

/-- The greatest number that the first cell of the view can have. -/
abbrev greatestViewStart : Nat := (pages - 1) * (viewRows * columns)

/-- The number of the first cell of the cursor row. -/
def lineStart (s : FlatScreen) : Nat := s.viewStart + s.cursor.row * columns

/-- The number of the cell under the cursor. -/
def cursorCell (s : FlatScreen) : Nat := s.lineStart + s.cursor.column

/-- The number of the last cell of the cursor row. -/
def lineEnd (s : FlatScreen) : Except AddressFault Nat := minus (s.lineStart + columns) 1

/-- The number of the last cell of the view. -/
def viewEnd (s : FlatScreen) : Except AddressFault Nat :=
  minus (s.viewStart + viewRows * columns) 1

/-- The number of the last cell of memory. -/
def memoryEnd : Except AddressFault Nat := minus Memory.cellCount 1

/-- Put the cursor into a column. -/
def atColumn (s : FlatScreen) (column : Nat) : FlatScreen :=
  { s with cursor := { s.cursor with column := column } }

/-- Put the cursor into a row of the view. -/
def atRow (s : FlatScreen) (row : Nat) : FlatScreen :=
  { s with cursor := { s.cursor with row := row } }

/-- Replace the cells. -/
def withCells (s : FlatScreen) (cells : Cells) : FlatScreen := { s with cells := cells }

/-- The cursor row begins at the same number, whatever the cells hold. -/
theorem lineStart_withCells (s : FlatScreen) (cells : Cells) :
    (s.withCells cells).lineStart = s.lineStart := rfl

theorem lineEnd_withCells (s : FlatScreen) (cells : Cells) :
    (s.withCells cells).lineEnd = s.lineEnd := by
  simp only [lineEnd, lineStart_withCells]

/-! ## Erasing -/

/-- Empty the cells whose numbers lie between two bounds, both included. -/
def clearRange (s : FlatScreen) (first last : Nat) : Except AddressFault FlatScreen := do
  let last := min last (← memoryEnd)
  if last < first then
    return s
  else
    let cells ← s.cells.fill first (last + 1) .empty
    return s.withCells cells

/-- Empty the line. -/
def clearLine (s : FlatScreen) : Except AddressFault FlatScreen := do
  s.clearRange s.lineStart (← s.lineEnd)

/-- Empty cells of the line from the cursor on, at least one. -/
def clearChars (s : FlatScreen) (count : Nat) : Except AddressFault FlatScreen := do
  let more ← minus (max count 1) 1
  s.clearRange s.cursorCell (min (s.cursorCell + more) (← s.lineEnd))

/-! ## Inserting and deleting -/

/-- Insert blanks in the current enhancement at the cursor. -/
def insertChars (s : FlatScreen) (count : Nat) : Except AddressFault FlatScreen := do
  let last ← s.lineEnd
  let count := min count (← minus (last + 1) s.cursorCell)
  if count = 0 then
    return s
  else
    let kept ← minus last count
    let moved ← s.cells.copyWithin s.cursorCell (kept + 1) (s.cursorCell + count)
    let cells ← moved.fill s.cursorCell (s.cursorCell + count) (.written 0x20 s.cursor.style)
    return s.withCells cells

/-- Delete cells at the cursor; cells at the end of the line become empty. -/
def deleteChars (s : FlatScreen) (count : Nat) : Except AddressFault FlatScreen := do
  let last ← s.lineEnd
  let count := min count (← minus (last + 1) s.cursorCell)
  if count = 0 then
    return s
  else
    let moved ← s.cells.copyWithin (s.cursorCell + count) (last + 1) s.cursorCell
    let cells ← moved.fill (← minus (last + 1) count) (last + 1) .empty
    return s.withCells cells

/-- Open an empty line at the cursor row; the last row of memory is lost. -/
def insertLine (s : FlatScreen) : Except AddressFault FlatScreen := do
  let last ← memoryEnd
  if s.lineStart + columns ≤ last then
    let kept ← minus last columns
    let moved ← s.cells.copyWithin s.lineStart (kept + 1) (s.lineStart + columns)
    (s.withCells moved).clearLine
  else
    s.clearLine

/-- Remove the cursor row; the last row of memory becomes empty. -/
def deleteLine (s : FlatScreen) : Except AddressFault FlatScreen := do
  let last ← memoryEnd
  let lastRow ← minus (last + 1) columns
  if s.lineStart + columns ≤ last then
    let moved ← s.cells.copyWithin (s.lineStart + columns) (last + 1) s.lineStart
    (s.withCells moved).clearRange lastRow last
  else
    s.clearRange lastRow last

/-! ## The view -/

/-- Move the view towards the end of memory. -/
def viewDown (s : FlatScreen) (rows : Nat) : FlatScreen :=
  { s with viewStart := min (s.viewStart + rows * columns) greatestViewStart }

/-- Move all rows of memory up by one; the last becomes empty. -/
def scrollMemory (s : FlatScreen) : Except AddressFault FlatScreen := do
  let last ← memoryEnd
  let moved ← s.cells.copyWithin columns (last + 1) 0
  (s.withCells moved).clearRange (← minus (last + 1) columns) last

end FlatScreen

namespace Screen

/-! ## The same screen over one array -/

/-- The screen over one array. -/
def flat (s : Screen) : FlatScreen :=
  ⟨s.memory.flat, s.viewStart, s.cursor, s.tabs, s.modes⟩

variable {s : Screen}

/-- The cursor row is a row of memory, since the view ends inside it. -/
theorem Bounded.cursorRow_lt (h : s.Bounded) : s.cursorRow < memoryRows := by
  have htop := h.topRow_le
  have hrow := h.row_lt
  simp only [cursorRow, greatestTopRow, memoryRows, viewRows] at *
  omega

/-- The bounds do not depend on the cells. -/
theorem Bounded.withMemory (h : s.Bounded) (m : Memory) : { s with memory := m }.Bounded :=
  { h with }

/-- A row begins where its first cell is counted. -/
theorem flat_lineStart (s : Screen) : s.flat.lineStart = s.lineStart := by
  simp only [FlatScreen.lineStart, flat, viewStart, lineStart, cursorRow, Memory.cellNumber,
    columns]
  omega

/-- The cell under the cursor has the same number in both screens. -/
theorem flat_cursorCell (s : Screen) : s.flat.cursorCell = s.cursorCell := by
  rw [FlatScreen.cursorCell, flat_lineStart]
  simp only [flat, lineStart, cursorCell, Memory.cellNumber]
  omega

/-- The last cell of the cursor row has a number: the difference is checked and never fails. -/
theorem flat_lineEnd (s : Screen) : s.flat.lineEnd = .ok s.lineEnd := by
  rw [FlatScreen.lineEnd, flat_lineStart]
  exact Cells.minus_of_le (Nat.le_add_left 1 (s.lineStart + (columns - 1)))

/-- The last cell of the view has a number. -/
theorem flat_viewEnd (s : Screen) : s.flat.viewEnd = .ok s.viewEnd := by
  rw [FlatScreen.viewEnd]
  refine (Cells.minus_of_le ?_).trans (congrArg Except.ok ?_)
  · simp only [viewRows, columns]
    omega
  · simp only [flat, viewStart, viewEnd, Memory.cellNumber, columns, viewRows]
    omega

theorem flat_memoryEnd : FlatScreen.memoryEnd = .ok memoryEnd := rfl

/-- The cells are the rows of memory one after another. -/
theorem flat_cells (s : Screen) : s.flat.cells = s.memory.flat := by
  simp only [flat]

/-- A change of the cells alone is a change of memory alone. -/
theorem flat_withMemory {cells : Cells} {m : Memory} (h : cells = m.flat) :
    s.flat.withCells cells = { s with memory := m }.flat := by
  simp only [flat, FlatScreen.withCells, viewStart, h]

/-- Writing its own cells back changes nothing. -/
theorem flat_withCells (s : Screen) : s.flat.withCells s.memory.flat = s.flat :=
  flat_withMemory rfl

/-! ### Erasing -/

/-- An erasure never fails a check, whatever the cells hold. -/
theorem clearRange_holds (fs : FlatScreen) {cells : Cells} {f : Nat → Cell}
    (h : cells.Holds f) (first last : Nat) :
    ∃ next, (fs.withCells cells).clearRange first last = .ok (fs.withCells next) ∧
      next.Holds fun i => if first ≤ i ∧ i ≤ last then .empty else f i := by
  have hend : memoryEnd + 1 = Memory.cellCount := rfl
  simp only [FlatScreen.clearRange, flat_memoryEnd, bind, Except.bind, pure, Except.pure]
  by_cases hreversed : min last memoryEnd < first
  · refine ⟨cells, if_pos hreversed, h.congr fun i hi => ?_⟩
    rw [if_neg (by omega)]
  · obtain ⟨next, hfill, hnext⟩ := h.fill first (min last memoryEnd + 1) .empty
      (Nat.le_succ_of_le (Nat.le_of_not_lt hreversed)) (by omega)
    refine ⟨next, ?_, hnext.congr fun i hi => ?_⟩
    · rw [if_neg hreversed, FlatScreen.withCells, hfill]
      rfl
    · by_cases hin : first ≤ i ∧ i ≤ last
      · exact (if_pos (by omega)).trans (if_pos hin).symm
      · exact (if_neg (by omega)).trans (if_neg hin).symm

/-- Erasing by numbers is erasing in rows; the end is clipped to memory, so no store fails. -/
theorem flat_clearRange (s : Screen) (first last : Nat) :
    s.flat.clearRange first last = .ok (s.eraseRange first last).flat := by
  obtain ⟨cells, hclear, hcells⟩ :=
    clearRange_holds s.flat (Cells.holds_flat s.memory) first last
  rw [← flat_withCells, hclear]
  refine congrArg Except.ok (flat_withMemory (hcells.eq_flat fun i hi => ?_))
  rw [Memory.numbered_eraseRange _ _ _ hi]

/-- A line is erased from its first cell to its last. -/
theorem clearLine_eq (fs : FlatScreen) {last : Nat} (h : fs.lineEnd = .ok last) :
    fs.clearLine = fs.clearRange fs.lineStart last := by
  simp only [FlatScreen.clearLine, h, bind, Except.bind]

/-- Emptying the line never fails a check, whatever the cells hold. -/
theorem clearLine_holds {cells : Cells} {f : Nat → Cell} (h : cells.Holds f) (s : Screen) :
    ∃ next, (s.flat.withCells cells).clearLine = .ok (s.flat.withCells next) ∧
      next.Holds fun i => if s.lineStart ≤ i ∧ i ≤ s.lineEnd then .empty else f i := by
  have hend : (s.flat.withCells cells).lineEnd = .ok s.lineEnd := by
    rw [FlatScreen.lineEnd_withCells, flat_lineEnd]
  rw [clearLine_eq _ hend, FlatScreen.lineStart_withCells, flat_lineStart]
  exact clearRange_holds s.flat h s.lineStart s.lineEnd

/-- Erasing the line never fails. -/
theorem flat_clearLine (s : Screen) : s.flat.clearLine = .ok s.eraseLine.flat := by
  rw [clearLine_eq _ s.flat_lineEnd, flat_lineStart]
  exact s.flat_clearRange s.lineStart s.lineEnd

/-- Erasing characters never fails and stops at the end of the line. -/
theorem flat_clearChars (s : Screen) (count : Nat) :
    s.flat.clearChars count = .ok (s.eraseChars count).flat := by
  have hmore : Cells.minus (max count 1) 1 = .ok (max count 1 - 1) :=
    Cells.minus_of_le (Nat.le_max_right count 1)
  simp only [FlatScreen.clearChars, hmore, flat_lineEnd, flat_cursorCell, bind, Except.bind]
  exact s.flat_clearRange _ _

/-! ### Inserting and deleting -/

/-- The room behind the cursor is the rest of its line. -/
theorem minus_cursorCell (h : s.Bounded) :
    Cells.minus (s.lineEnd + 1) s.cursorCell = .ok s.lineRoom := by
  have hcolumn := h.column_lt
  rw [Cells.minus_of_le]
  · simp only [lineEnd, cursorCell, lineRoom, Memory.cellNumber, columns] at *
    congr 1
    omega
  · simp only [lineEnd, cursorCell, Memory.cellNumber, columns] at *
    omega

/-- The end of the cursor row by the start of the next one. -/
theorem lineEnd_succ (s : Screen) : s.lineEnd + 1 = Memory.cellNumber (s.cursorRow + 1) 0 := by
  simp only [lineEnd, Memory.cellNumber, columns]
  omega

/-- The rest of the line reaches up to its end. -/
theorem cursorCell_add_lineRoom (h : s.Bounded) :
    s.cursorCell + s.lineRoom = s.lineEnd + 1 := by
  have hcolumn := h.column_lt
  simp only [lineEnd, cursorCell, lineRoom, Memory.cellNumber, columns] at *
  omega

/-- The last cell of the cursor row is a cell of memory. -/
theorem lineEnd_lt (h : s.Bounded) : s.lineEnd < Memory.cellCount := by
  have hrow := h.cursorRow_lt
  simp only [lineEnd, Memory.cellNumber, Memory.cellCount, memoryRows, columns] at *
  omega

/-- An insertion that leaves a cell in front of its line's end never fails a
check. -/
theorem flat_openGap (h : s.Bounded) {count : Nat}
    (hcells : min count s.lineRoom ≤ s.lineEnd) :
    s.flat.insertChars count = .ok (s.openGap count).flat := by
  have hrow := h.cursorRow_lt
  have hcolumn := h.column_lt
  have hroom := cursorCell_add_lineRoom h
  have hend := lineEnd_lt h
  have hnext := s.lineEnd_succ
  have hgap : min count s.lineRoom ≤ s.lineRoom := Nat.min_le_right _ _
  have hfits : s.cursor.column + min count s.lineRoom ≤ columns := by
    simp only [lineRoom]
    omega
  have hnumbered (i : Nat) (hi : i < Memory.cellCount) :=
    s.memory.numbered_openGap (.written 0x20 s.cursor.style) hrow hfits hi
  simp only [← hnext] at hnumbered
  simp only [FlatScreen.insertChars, flat_lineEnd, flat_cursorCell, minus_cursorCell h, bind,
    Except.bind, pure, Except.pure]
  by_cases hnone : min count s.lineRoom = 0
  · rw [if_pos hnone]
    refine congrArg Except.ok (flat_withMemory ?_)
    refine (Cells.holds_flat s.memory).eq_flat fun i hi => ?_
    rw [hnumbered i hi, hnone, if_neg (by omega), Nat.add_zero, Nat.sub_zero, ite_self]
  · rw [if_neg hnone, Cells.minus_of_le hcells, flat_cells]
    obtain ⟨moved, hcopy, hmoved⟩ := (Cells.holds_flat s.memory).copyWithin s.cursorCell
      (s.lineEnd - min count s.lineRoom + 1) (s.cursorCell + min count s.lineRoom)
      (by omega) (by omega) (by omega)
    obtain ⟨cells, hfill, hfilled⟩ := hmoved.fill s.cursorCell
      (s.cursorCell + min count s.lineRoom) (.written 0x20 s.cursor.style) (by omega)
      (by omega)
    simp only [hcopy]
    rw [show s.flat.cursor = s.cursor from rfl, hfill]
    refine congrArg Except.ok (flat_withMemory (hfilled.eq_flat fun i hi => ?_))
    rw [hnumbered i hi]
    by_cases hin : s.cursorCell ≤ i ∧ i < s.cursorCell + min count s.lineRoom
    · exact (if_pos hin).trans (if_pos hin).symm
    · refine (if_neg hin).trans (Eq.trans ?_ (if_neg hin).symm)
      by_cases hbehind : s.cursorCell + min count s.lineRoom ≤ i ∧ i < s.lineEnd + 1
      · refine (if_pos (by omega)).trans (Eq.trans ?_ (if_pos hbehind).symm)
        congr 1
        omega
      · exact (if_neg (by omega)).trans (if_neg hbehind).symm

/-- The checks of an insertion fail exactly when the insertion is refused. -/
theorem flat_insertChars (h : s.Bounded) (count : Nat) :
    s.flat.insertChars count =
      match s.insertChars count with
      | .ok next => .ok next.flat
      | .error .shiftBeforeMemory => .error .negative := by
  unfold Screen.insertChars
  by_cases hrefused : s.lineEnd + 1 ≤ min count s.lineRoom
  · have hsome : ¬ min count s.lineRoom = 0 := by omega
    have hshort : Cells.minus s.lineEnd (min count s.lineRoom) = .error .negative :=
      if_neg (by omega)
    simp only [FlatScreen.insertChars, flat_lineEnd, flat_cursorCell, minus_cursorCell h, bind,
      Except.bind, if_pos hrefused, if_neg hsome, hshort]
  · rw [if_neg hrefused]
    exact flat_openGap h (by omega)

/-- A deletion of characters never fails a check. -/
theorem flat_deleteChars (h : s.Bounded) (count : Nat) :
    s.flat.deleteChars count = .ok (s.deleteChars count).flat := by
  have hrow := h.cursorRow_lt
  have hroom := cursorCell_add_lineRoom h
  have hend := lineEnd_lt h
  have hgap : min count s.lineRoom ≤ s.lineRoom := Nat.min_le_right _ _
  have hnumbered (i : Nat) (hi : i < Memory.cellCount) :=
    s.memory.numbered_closeGap s.cursor.column (min count s.lineRoom) hrow hi
  simp only [← s.lineEnd_succ] at hnumbered
  simp only [FlatScreen.deleteChars, flat_lineEnd, flat_cursorCell, minus_cursorCell h, bind,
    Except.bind, pure, Except.pure]
  by_cases hnone : min count s.lineRoom = 0
  · rw [if_pos hnone]
    refine congrArg Except.ok (flat_withMemory ?_)
    refine (Cells.holds_flat s.memory).eq_flat fun i hi => ?_
    rw [hnumbered i hi, hnone, Nat.add_zero]
    split
    · rfl
    · rfl
  · rw [if_neg hnone, Cells.minus_of_le (show min count s.lineRoom ≤ s.lineEnd + 1 by omega),
      flat_cells]
    obtain ⟨moved, hcopy, hmoved⟩ := (Cells.holds_flat s.memory).copyWithin
      (s.cursorCell + min count s.lineRoom) (s.lineEnd + 1) s.cursorCell (by omega)
      (by omega) (by omega)
    obtain ⟨cells, hfill, hfilled⟩ := hmoved.fill (s.lineEnd + 1 - min count s.lineRoom)
      (s.lineEnd + 1) .empty (by omega) (by omega)
    simp only [hcopy, hfill]
    refine congrArg Except.ok (flat_withMemory (hfilled.eq_flat fun i hi => ?_))
    rw [hnumbered i hi]
    by_cases hkept : s.cursorCell ≤ i ∧ i + min count s.lineRoom < s.lineEnd + 1
    · refine (if_neg (by omega)).trans (((if_pos (by omega)).trans ?_).trans (if_pos hkept).symm)
      congr 1
      omega
    · refine Eq.trans ?_ (if_neg hkept).symm
      by_cases hvacated : s.cursorCell ≤ i ∧ i < s.lineEnd + 1
      · exact (if_pos (by omega)).trans (if_pos hvacated).symm
      · refine (if_neg (by omega)).trans ((if_neg (by omega)).trans (if_neg hvacated).symm)

theorem memoryEnd_succ : memoryEnd + 1 = Memory.cellCount := rfl

theorem minus_lastRow :
    Cells.minus (memoryEnd + 1) columns = .ok (Memory.cellCount - columns) := rfl

/-- The rows below are copied as far as there is room for them, and no copy fails. -/
theorem flat_insertLine (h : s.Bounded) : s.flat.insertLine = .ok s.insertLine.flat := by
  have hrow := h.cursorRow_lt
  have hnext := Memory.cellNumber_succ s.cursorRow 0
  have hend := memoryEnd_succ
  have hline := s.lineEnd_succ
  have hnumbered (i : Nat) (hi : i < Memory.cellCount) :=
    s.memory.numbered_insertRow s.cursorRow hi
  simp only [hnext] at hline hnumbered
  have hstart : Memory.cellNumber s.cursorRow 0 = s.lineStart := rfl
  simp only [hstart] at hline hnumbered
  simp only [FlatScreen.insertLine, flat_memoryEnd, flat_lineStart, bind, Except.bind]
  by_cases hbelow : s.lineStart + columns ≤ memoryEnd
  · rw [if_pos hbelow, Cells.minus_of_le (by omega), flat_cells]
    obtain ⟨moved, hcopy, hmoved⟩ := (Cells.holds_flat s.memory).copyWithin s.lineStart
      (memoryEnd - columns + 1) (s.lineStart + columns) (by omega) (by omega) (by omega)
    simp only [hcopy]
    obtain ⟨cells, hclear, hcells⟩ := clearLine_holds hmoved s
    rw [hclear]
    refine congrArg Except.ok (flat_withMemory (hcells.eq_flat fun i hi => ?_))
    rw [hnumbered i hi]
    by_cases habove : i < s.lineStart
    · exact (if_neg (by omega)).trans ((if_neg (by omega)).trans (if_pos habove).symm)
    · refine Eq.trans ?_ (if_neg habove).symm
      by_cases hnew : i < s.lineStart + columns
      · exact (if_pos (by omega)).trans (if_pos hnew).symm
      · refine (if_neg (by omega)).trans (((if_pos (by omega)).trans ?_).trans (if_neg hnew).symm)
        congr 1
        omega
  · rw [if_neg hbelow, flat_clearLine]
    refine congrArg Except.ok (flat_withMemory ?_)
    simp only [eraseLine, eraseRange]
    refine (Cells.holds_flat _).eq_flat fun i hi => ?_
    rw [hnumbered i hi, Memory.numbered_eraseRange _ _ _ hi]
    by_cases habove : i < s.lineStart
    · exact (if_neg (by omega)).trans (if_pos habove).symm
    · rw [if_neg habove, if_pos (by omega), if_pos (by omega)]

/-- Moving the rows behind a row back by one never fails a check. -/
theorem flat_deleteRow (s : Screen) {row start : Nat} (hstart : Memory.cellNumber row 0 = start)
    (hrow : start + columns ≤ Memory.cellCount) :
    ∃ moved, s.memory.flat.copyWithin (start + columns) (memoryEnd + 1) start = .ok moved ∧
      (s.flat.withCells moved).clearRange (Memory.cellCount - columns) memoryEnd =
        .ok { s with memory := s.memory.deleteRow row }.flat := by
  have hend := memoryEnd_succ
  have hnumbered (i : Nat) (hi : i < Memory.cellCount) := s.memory.numbered_deleteRow row hi
  simp only [hstart] at hnumbered
  obtain ⟨moved, hcopy, hmoved⟩ := (Cells.holds_flat s.memory).copyWithin (start + columns)
    (memoryEnd + 1) start (by omega) (by omega) (by omega)
  obtain ⟨cells, hclear, hcells⟩ := clearRange_holds s.flat hmoved
    (Memory.cellCount - columns) memoryEnd
  refine ⟨moved, hcopy, hclear.trans ?_⟩
  refine congrArg Except.ok (flat_withMemory (hcells.eq_flat fun i hi => ?_))
  rw [hnumbered i hi]
  by_cases habove : i < start
  · exact (if_neg (by omega)).trans ((if_neg (by omega)).trans (if_pos habove).symm)
  · refine Eq.trans ?_ (if_neg habove).symm
    by_cases hlast : Memory.cellCount - columns ≤ i
    · rw [s.memory.numbered_of_le (show Memory.cellCount ≤ i + columns by omega)]
      exact if_pos (by omega)
    · refine (if_neg (by omega)).trans ((if_pos (by omega)).trans ?_)
      congr 1
      omega

/-- The rows below are copied over the line, and no copy fails. -/
theorem flat_deleteLine (h : s.Bounded) : s.flat.deleteLine = .ok s.deleteLine.flat := by
  have hend := memoryEnd_succ
  have hstart : Memory.cellNumber s.cursorRow 0 = s.lineStart := rfl
  have hbound : s.lineStart + columns ≤ Memory.cellCount := by
    have hlast := lineEnd_lt h
    simp only [lineEnd, lineStart, Memory.cellNumber, columns] at *
    omega
  simp only [FlatScreen.deleteLine, flat_memoryEnd, minus_lastRow, flat_lineStart, bind,
    Except.bind]
  by_cases hbelow : s.lineStart + columns ≤ memoryEnd
  · obtain ⟨moved, hcopy, hclear⟩ := flat_deleteRow s hstart hbound
    rw [if_pos hbelow, flat_cells]
    simp only [hcopy]
    exact hclear
  · have hnumbered (i : Nat) (hi : i < Memory.cellCount) :=
      s.memory.numbered_deleteRow s.cursorRow hi
    simp only [hstart] at hnumbered
    rw [if_neg hbelow, flat_clearRange]
    refine congrArg Except.ok (flat_withMemory ?_)
    simp only [eraseRange]
    refine (Cells.holds_flat _).eq_flat fun i hi => ?_
    rw [hnumbered i hi, Memory.numbered_eraseRange _ _ _ hi]
    by_cases habove : i < s.lineStart
    · exact (if_neg (by omega)).trans (if_pos habove).symm
    · rw [if_neg habove,
        s.memory.numbered_of_le (show Memory.cellCount ≤ i + columns by omega)]
      exact if_pos (by omega)

/-! ### The view -/

/-- Moving the view by rows moves its first cell by whole rows, up to the same limit. -/
theorem flat_viewDown (s : Screen) (rows : Nat) :
    (s.viewDown rows).flat = s.flat.viewDown rows := by
  have hstart : (s.viewDown rows).viewStart =
      min (s.viewStart + rows * columns) FlatScreen.greatestViewStart := by
    simp only [viewDown, viewStart, Memory.cellNumber, greatestTopRow,
      FlatScreen.greatestViewStart, pages, memoryRows, viewRows, columns]
    omega
  simp only [flat, FlatScreen.viewDown, hstart]
  rfl

/-- All rows but the first are copied up by one, and no copy fails. -/
theorem flat_scrollMemory (s : Screen) : s.flat.scrollMemory = .ok s.scrollMemory.flat := by
  have hstart : Memory.cellNumber 0 0 = 0 := rfl
  have hbound : 0 + columns ≤ Memory.cellCount := by decide
  obtain ⟨moved, hcopy, hclear⟩ := flat_deleteRow s hstart hbound
  rw [Nat.zero_add] at hcopy
  simp only [FlatScreen.scrollMemory, flat_memoryEnd, flat_cells, hcopy, minus_lastRow, bind,
    Except.bind]
  exact hclear

end Screen

end GraphicsTerminal
