import GraphicsTerminal.Screen.Memory

/-!
# Memory as one array

Cell numbers count the cells of memory row by row.  The same cells can be kept
in one array indexed by these numbers; shifts and erasures then are moves and
fills of ranges of the array.  Each access checks its range first, and each
difference of two numbers checks that it is not negative.

Main definitions:

- {lit}`Memory.numbered`: the cell with a number.
- {lit}`Memory.flat`: all cells in the order of their numbers.
- {lit}`Cells.minus`, {lit}`Cells.slice`, {lit}`Cells.fill`, {lit}`Cells.store`,
  {lit}`Cells.copyWithin`: the checked accesses.

Main results:

- Theorems {lit}`Memory.numbered_eraseRange`, {lit}`Memory.numbered_insertRow`,
  {lit}`Memory.numbered_deleteRow`, {lit}`Memory.numbered_openGap`,
  {lit}`Memory.numbered_closeGap` and {lit}`Memory.numbered_put`: the operations
  on memory by cell numbers.
- The theorems of {lit}`Cells.Holds`: which accesses are accepted, and what the
  array then holds.
-/

namespace GraphicsTerminal

/-! ## Checked accesses -/

/-- Why an access was refused. -/
inductive AddressFault where
  /-- A difference would be negative. -/
  | negative
  /-- A range or position lies outside. -/
  | outside
deriving DecidableEq, Repr

/-- Cells in the order of their numbers. -/
abbrev Cells := Array Cell

namespace Cells

/-- A difference that must not be negative. -/
def minus (a b : Nat) : Except AddressFault Nat :=
  if b ≤ a then .ok (a - b) else .error .negative

/-- The cells from {lit}`first` on, before {lit}`stop`. -/
def slice (cells : Cells) (first stop : Nat) : Except AddressFault (List Cell) :=
  if first ≤ stop ∧ stop ≤ cells.size then .ok ((cells.toList.take stop).drop first)
  else .error .outside

/-- Overwrite the cells from {lit}`first` on, before {lit}`stop`. -/
def fill (cells : Cells) (first stop : Nat) (cell : Cell) : Except AddressFault Cells :=
  if first ≤ stop ∧ stop ≤ cells.size then
    .ok (cells.mapIdx fun i old => if first ≤ i ∧ i < stop then cell else old)
  else
    .error .outside

/-- Overwrite one cell. -/
def store (cells : Cells) (position : Nat) (cell : Cell) : Except AddressFault Cells :=
  if position < cells.size then .ok (cells.setIfInBounds position cell)
  else .error .outside

/-- Copy the cells from {lit}`first` on, before {lit}`stop`, to {lit}`target`. -/
def copyWithin (cells : Cells) (first stop target : Nat) : Except AddressFault Cells :=
  if first ≤ stop ∧ stop ≤ cells.size ∧ target + (stop - first) ≤ cells.size then
    .ok (cells.mapIdx fun i old =>
      if target ≤ i ∧ i < target + (stop - first) then
        cells[first + (i - target)]?.getD old
      else old)
  else
    .error .outside

/-- A difference is checked, and fails only below zero. -/
theorem minus_of_le {a b : Nat} (h : b ≤ a) : minus a b = .ok (a - b) := if_pos h

end Cells

namespace Memory

/-! ## Cell numbers -/

/-- The number of cells. -/
abbrev cellCount : Nat := memoryRows * columns

/-- The cell with a number; there is an empty one behind the last. -/
def numbered (m : Memory) (i : Nat) : Cell :=
  (m.cell? (i / columns) (i % columns)).getD .empty

/-- The cells of memory in the order of their numbers. -/
def flat (m : Memory) : Cells := (Vector.flatten m).toArray

@[simp]
theorem size_flat (m : Memory) : m.flat.size = cellCount := Vector.size_toArray _

/-- The number of a cell leads to its row and column. -/
theorem numbered_cellNumber (m : Memory) {row column : Nat} (hrow : row < memoryRows)
    (hcolumn : column < columns) :
    m.numbered (cellNumber row column) = m[row][column] := by
  have hdiv : cellNumber row column / columns = row := by
    simp only [cellNumber, columns] at *
    omega
  have hmod : cellNumber row column % columns = column := by
    simp only [cellNumber, columns] at *
    omega
  simp [numbered, cell?, hdiv, hmod, hrow, hcolumn]

/-- The array holds under each number the cell that has it. -/
theorem getElem_flat (m : Memory) {i : Nat} (h : i < m.flat.size) :
    m.flat[i] = m.numbered i := by
  rw [size_flat] at h
  have hrow : i / columns < memoryRows := by
    simp only [cellCount, memoryRows, columns] at *
    omega
  have hcolumn : i % columns < columns := Nat.mod_lt i (by decide)
  have hflat : m.flat[i] = (Vector.flatten m)[i] := rfl
  rw [hflat, Vector.getElem_flatten]
  simp [numbered, cell?, hrow, hcolumn]

/-- Every number up to the last is that of a row and column. -/
theorem exists_cellNumber {i : Nat} (h : i < cellCount) :
    ∃ row column, row < memoryRows ∧ column < columns ∧ i = cellNumber row column := by
  refine ⟨i / columns, i % columns, ?_, ?_, ?_⟩
  all_goals
    simp only [cellNumber, cellCount, memoryRows, columns] at *
    omega

/-- Behind the last number all cells are empty. -/
theorem numbered_of_le (m : Memory) {i : Nat} (h : cellCount ≤ i) :
    m.numbered i = .empty := by
  have hrow : ¬ i / columns < memoryRows := by
    simp only [cellCount, memoryRows, columns] at *
    omega
  simp [numbered, cell?, Vector.getElem?_eq_none (Nat.le_of_not_lt hrow)]

/-! ## Operations by cell numbers -/

/-- Erasing a range by numbers empties those cells and no other. -/
theorem numbered_eraseRange (m : Memory) (first last : Nat) {i : Nat}
    (h : i < cellCount) :
    (m.eraseRange first last).numbered i =
      if first ≤ i ∧ i ≤ last then .empty else m.numbered i := by
  obtain ⟨row, column, hrow, hcolumn, rfl⟩ := exists_cellNumber h
  rw [numbered_cellNumber _ hrow hcolumn, numbered_cellNumber _ hrow hcolumn,
    getElem_eraseRange m first last hrow hcolumn]

/-- A number lies before a row exactly when its own row does. -/
theorem cellNumber_lt_rowStart (r row : Nat) {c : Nat} (hc : c < columns) :
    cellNumber r c < cellNumber row 0 ↔ r < row := by
  simp only [cellNumber, columns] at *
  omega

/-- The next row begins one line further. -/
theorem cellNumber_succ (r c : Nat) : cellNumber (r + 1) c = cellNumber r c + columns := by
  simp only [cellNumber, columns]
  omega

/-- Opening a row moves the cells behind it on by one row. -/
theorem numbered_insertRow (m : Memory) (row : Nat) {i : Nat} (h : i < cellCount) :
    (m.insertRow row).numbered i =
      if i < cellNumber row 0 then m.numbered i
      else if i < cellNumber (row + 1) 0 then .empty
      else m.numbered (i - columns) := by
  obtain ⟨r, c, hr, hc, rfl⟩ := exists_cellNumber h
  simp only [cellNumber_lt_rowStart _ _ hc, numbered_cellNumber _ hr hc,
    getElem_insertRow m row hr]
  by_cases habove : r < row
  · simp only [habove, if_true]
  · by_cases hnew : r = row
    · simp [hnew, Row.blank]
    · obtain ⟨r, rfl⟩ : ∃ n, r = n + 1 := ⟨r - 1, by omega⟩
      have hbelow : ¬ r + 1 < row + 1 := by omega
      have hback : m.numbered (cellNumber (r + 1) c - columns) = m[r][c] := by
        rw [cellNumber_succ, Nat.add_sub_cancel, numbered_cellNumber m (by omega) hc]
      simp [habove, hnew, hbelow, hback]

/-- Removing a row moves the cells behind it back by one row. -/
theorem numbered_deleteRow (m : Memory) (row : Nat) {i : Nat} (h : i < cellCount) :
    (m.deleteRow row).numbered i =
      if i < cellNumber row 0 then m.numbered i else m.numbered (i + columns) := by
  obtain ⟨r, c, hr, hc, rfl⟩ := exists_cellNumber h
  simp only [cellNumber_lt_rowStart _ _ hc, numbered_cellNumber _ hr hc,
    getElem_deleteRow m row hr, ← cellNumber_succ]
  by_cases habove : r < row
  · simp only [habove, if_true]
  · by_cases hlast : r + 1 < memoryRows
    · rw [numbered_cellNumber m hlast hc]
      simp [habove, hlast]
    · have hbehind : cellCount ≤ cellNumber (r + 1) c := by
        simp only [cellNumber, cellCount, memoryRows, columns] at *
        omega
      rw [numbered_of_le m hbehind]
      simp [habove, hlast, Row.blank]

/-- A change of a row is seen in the numbers of that row alone. -/
theorem numbered_modifyRow (m : Memory) {row : Nat} (f : Row → Row) {r c : Nat}
    (hrow : row < memoryRows) (hr : r < memoryRows) (hc : c < columns) :
    (m.modifyRow row f).numbered (cellNumber r c) =
      if r = row then (f m[row])[c] else m.numbered (cellNumber r c) := by
  rw [numbered_cellNumber _ hr hc, numbered_cellNumber m hr hc]
  by_cases heq : r = row
  · subst heq
    simp only [getElem_modifyRow_self m f hr, if_true]
  · simp only [getElem_modifyRow_ne m f hr (Ne.symm heq), heq, if_false]

/-- Opening a gap moves the rest of its row on. -/
theorem numbered_openGap (m : Memory) {row column count : Nat} (filler : Cell) {i : Nat}
    (hrow : row < memoryRows) (hcount : column + count ≤ columns) (h : i < cellCount) :
    (m.modifyRow row (·.openGap column count filler)).numbered i =
      if cellNumber row column ≤ i ∧ i < cellNumber row column + count then filler
      else if cellNumber row column + count ≤ i ∧ i < cellNumber (row + 1) 0 then
        m.numbered (i - count)
      else m.numbered i := by
  obtain ⟨r, c, hr, hc, rfl⟩ := exists_cellNumber h
  rw [numbered_modifyRow m _ hrow hr hc]
  by_cases heq : r = row
  · subst heq
    have hinside : cellNumber r c < cellNumber (r + 1) 0 :=
      (cellNumber_lt_rowStart r (r + 1) hc).2 (Nat.lt_succ_self r)
    have hstart : cellNumber r column ≤ cellNumber r c ↔ column ≤ c := by
      simp only [cellNumber]
      omega
    have hgap : cellNumber r c < cellNumber r column + count ↔ c < column + count := by
      simp only [cellNumber]
      omega
    rw [Row.getElem_openGap _ _ _ _ hc]
    simp only [if_true, hstart, hgap, hinside, and_true, ← Nat.not_lt]
    by_cases hbefore : c < column
    · have hshort : c < column + count := by omega
      simp [hbefore, hshort, numbered_cellNumber m hr hc]
    · by_cases hin : c < column + count
      · simp [hbefore, hin]
      · have hshift : cellNumber r c - count = cellNumber r (c - count) := by
          simp only [cellNumber]
          omega
        rw [hshift, numbered_cellNumber m hr (by omega)]
        simp [hbefore, hin]
  · have hother : ¬ (cellNumber row column ≤ cellNumber r c ∧
        cellNumber r c < cellNumber (row + 1) 0) := by
      simp only [cellNumber, columns] at *
      omega
    have hgap : cellNumber row column + count ≤ cellNumber (row + 1) 0 := by
      simp only [cellNumber, columns] at *
      omega
    rw [if_neg heq, if_neg (by omega), if_neg (by omega)]

/-- Closing a gap moves the rest of its row back. -/
theorem numbered_closeGap (m : Memory) {row : Nat} (column count : Nat) {i : Nat}
    (hrow : row < memoryRows) (h : i < cellCount) :
    (m.modifyRow row (·.closeGap column count)).numbered i =
      if cellNumber row column ≤ i ∧ i + count < cellNumber (row + 1) 0 then
        m.numbered (i + count)
      else if cellNumber row column ≤ i ∧ i < cellNumber (row + 1) 0 then .empty
      else m.numbered i := by
  obtain ⟨r, c, hr, hc, rfl⟩ := exists_cellNumber h
  rw [numbered_modifyRow m _ hrow hr hc]
  by_cases heq : r = row
  · subst heq
    have hinside : cellNumber r c < cellNumber (r + 1) 0 :=
      (cellNumber_lt_rowStart r (r + 1) hc).2 (Nat.lt_succ_self r)
    have hstart : cellNumber r column ≤ cellNumber r c ↔ column ≤ c := by
      simp only [cellNumber]
      omega
    have hshift : cellNumber r c + count = cellNumber r (c + count) := by
      simp only [cellNumber]
      omega
    have hend : cellNumber r (c + count) < cellNumber (r + 1) 0 ↔ c + count < columns := by
      simp only [cellNumber, columns]
      omega
    rw [Row.getElem_closeGap _ _ _ hc]
    simp only [if_true, hstart, hshift, hend, hinside, and_true, ← Nat.not_lt]
    by_cases hbefore : c < column
    · simp [hbefore, numbered_cellNumber m hr hc]
    · by_cases hin : c + count < columns
      · rw [numbered_cellNumber m hr hin]
        simp [hbefore, hin]
      · simp [hbefore, hin]
  · have hother : ¬ (cellNumber row column ≤ cellNumber r c ∧
        cellNumber r c < cellNumber (row + 1) 0) := by
      simp only [cellNumber, columns] at *
      omega
    rw [if_neg heq, if_neg (by omega), if_neg hother]

/-- A cell that is put is seen under its number alone. -/
theorem numbered_put (m : Memory) {row column : Nat} (cell : Cell) {i : Nat}
    (hrow : row < memoryRows) (hcolumn : column < columns) (h : i < cellCount) :
    (m.modifyRow row (·.put column cell)).numbered i =
      if i = cellNumber row column then cell else m.numbered i := by
  obtain ⟨r, c, hr, hc, rfl⟩ := exists_cellNumber h
  rw [numbered_modifyRow m _ hrow hr hc]
  by_cases heq : r = row
  · subst heq
    rw [Row.getElem_put, numbered_cellNumber m hr hc]
    have hsame : cellNumber r c = cellNumber r column ↔ column = c := by
      simp only [cellNumber]
      omega
    simp only [if_true, hsame]
  · have hother : cellNumber r c ≠ cellNumber row column := by
      simp only [cellNumber, columns] at *
      omega
    simp only [heq, hother, if_false]

end Memory

/-! ## Accesses by cell numbers -/

namespace Cells

/-- The array holds, for every cell number, the cell that a function gives. -/
structure Holds (cells : Cells) (f : Nat → Cell) : Prop where
  size : cells.size = Memory.cellCount
  cell : ∀ i < Memory.cellCount, cells[i]? = some (f i)

theorem holds_flat (m : Memory) : Holds m.flat m.numbered where
  size := m.size_flat
  cell := by
    intro i h
    rw [Array.getElem?_eq_getElem (by simpa using h), Memory.getElem_flat]

namespace Holds

variable {cells : Cells} {f : Nat → Cell}

/-- Only the cells with numbers matter. -/
theorem congr (h : Holds cells f) {g : Nat → Cell} (hfg : ∀ i < Memory.cellCount, f i = g i) :
    Holds cells g where
  size := h.size
  cell := by
    intro i hi
    rw [h.cell i hi, hfg i hi]

/-- An array that holds the numbered cells is flat memory. -/
theorem eq_flat (h : Holds cells f) {m : Memory}
    (hm : ∀ i < Memory.cellCount, f i = m.numbered i) : cells = m.flat := by
  apply Array.ext
  · rw [h.size, m.size_flat]
  · intro i hi hi'
    have hcount : i < Memory.cellCount := h.size ▸ hi
    have hcell := h.cell i hcount
    rw [Array.getElem?_eq_getElem hi, hm i hcount] at hcell
    rw [Memory.getElem_flat]
    exact Option.some.inj hcell

/-- A fill of a range of cells is accepted. -/
theorem fill (h : Holds cells f) (first stop : Nat) (cell : Cell) (hfirst : first ≤ stop)
    (hstop : stop ≤ Memory.cellCount) :
    ∃ next, Cells.fill cells first stop cell = .ok next ∧
      Holds next fun i => if first ≤ i ∧ i < stop then cell else f i := by
  have hrange : first ≤ stop ∧ stop ≤ cells.size := ⟨hfirst, h.size ▸ hstop⟩
  refine ⟨_, if_pos hrange, by simpa using h.size, ?_⟩
  intro i hi
  simp [h.cell i hi]

/-- A copy of a range of cells to a place with enough room is accepted. -/
theorem copyWithin (h : Holds cells f) (first stop target : Nat) (hfirst : first ≤ stop)
    (hstop : stop ≤ Memory.cellCount)
    (htarget : target + (stop - first) ≤ Memory.cellCount) :
    ∃ next, Cells.copyWithin cells first stop target = .ok next ∧
      Holds next fun i =>
        if target ≤ i ∧ i < target + (stop - first) then f (first + (i - target))
        else f i := by
  have hrange : first ≤ stop ∧ stop ≤ cells.size ∧ target + (stop - first) ≤ cells.size :=
    ⟨hfirst, h.size ▸ hstop, h.size ▸ htarget⟩
  refine ⟨_, if_pos hrange, by simpa using h.size, ?_⟩
  intro i hi
  rw [Array.getElem?_mapIdx, h.cell i hi, Option.map_some]
  by_cases hin : target ≤ i ∧ i < target + (stop - first)
  · rw [if_pos hin, if_pos hin, h.cell _ (by omega), Option.getD_some]
  · rw [if_neg hin, if_neg hin]

/-- A store at a number of memory does not fail. -/
theorem store (h : Holds cells f) (position : Nat) (cell : Cell)
    (hposition : position < Memory.cellCount) :
    ∃ next, Cells.store cells position cell = .ok next ∧
      Holds next fun i => if i = position then cell else f i := by
  have hrange : position < cells.size := h.size ▸ hposition
  refine ⟨_, if_pos hrange, by simpa using h.size, ?_⟩
  intro i hi
  rw [Array.getElem?_setIfInBounds]
  by_cases hsame : position = i
  · subst hsame
    simp [hrange]
  · rw [if_neg hsame, if_neg (Ne.symm hsame), h.cell i hi]

/-- A slice of cells is accepted. -/
theorem slice (h : Holds cells f) (first count : Nat)
    (hstop : first + count ≤ Memory.cellCount) :
    Cells.slice cells first (first + count) = .ok ((List.range' first count).map f) := by
  have hrange : first ≤ first + count ∧ first + count ≤ cells.size :=
    ⟨Nat.le_add_right _ _, h.size ▸ hstop⟩
  refine (if_pos hrange).trans (congrArg Except.ok ?_)
  apply List.ext_getElem?
  intro i
  rw [List.getElem?_drop, List.getElem?_take, List.getElem?_map]
  by_cases hi : i < count
  · rw [if_pos (by omega), List.getElem?_range' hi, Array.getElem?_toList,
      h.cell _ (by omega), Nat.one_mul, Option.map_some]
  · rw [if_neg (by omega), List.getElem?_eq_none (by simpa using hi), Option.map_none]

end Holds

end Cells

end GraphicsTerminal
