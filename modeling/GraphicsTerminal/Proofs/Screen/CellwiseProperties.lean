import GraphicsTerminal.Screen.Memory

/-!
# Properties of all cells

A property of cells lifts to rows and to memory.  Every operation on memory
only moves cells, empties them or writes a given one, so it keeps a lifted
property of which the empty cell and the written cell are instances.

Main definitions:

- {lit}`Row.Each`, {lit}`Memory.Each`: every cell has a property.

Main results:

- Theorems {lit}`Row.Each.put`, {lit}`Row.Each.openGap` and
  {lit}`Row.Each.closeGap`: the operations on one row.
- Theorems {lit}`Memory.Each.modifyRow`, {lit}`Memory.Each.eraseRange`,
  {lit}`Memory.Each.insertRow` and {lit}`Memory.Each.deleteRow`: the operations
  on memory.
-/

namespace GraphicsTerminal

variable {P : Cell → Prop}

/-! ## Rows -/

/-- Every cell of the row has the property. -/
structure Row.Each (P : Cell → Prop) (row : Row) : Prop where
  cell : ∀ i (h : i < columns), P row[i]

namespace Row.Each

theorem blank (hempty : P .empty) : Row.Each P Row.blank := by
  constructor
  intro i h
  simpa [Row.blank] using hempty

/-- Putting one more cell with the property into a row keeps the property. -/
theorem put {row : Row} (hrow : Row.Each P row) (column : Nat) {cell : Cell}
    (hcell : P cell) : Row.Each P (row.put column cell) := by
  constructor
  intro i h
  rw [Row.getElem_put]
  split
  · exact hcell
  · exact hrow.cell i h

/-- Opening a gap keeps a property of the filler. -/
theorem openGap {row : Row} (hrow : Row.Each P row) (column count : Nat)
    {filler : Cell} (hfiller : P filler) :
    Row.Each P (row.openGap column count filler) := by
  constructor
  intro i h
  rw [Row.getElem_openGap]
  split
  · exact hrow.cell i h
  · split
    · exact hfiller
    · exact hrow.cell (i - count) (by omega)

/-- Closing a gap keeps a property of the empty cell. -/
theorem closeGap {row : Row} (hrow : Row.Each P row) (hempty : P .empty)
    (column count : Nat) : Row.Each P (row.closeGap column count) := by
  constructor
  intro i h
  rw [Row.getElem_closeGap]
  split
  · exact hrow.cell i h
  · by_cases hin : i + count < columns
    · simpa [hin] using hrow.cell (i + count) hin
    · simpa [hin] using hempty

end Row.Each

/-! ## Memory -/

/-- Every cell of memory has the property. -/
structure Memory.Each (P : Cell → Prop) (m : Memory) : Prop where
  row : ∀ i (h : i < memoryRows), Row.Each P m[i]

namespace Memory.Each

theorem blank (hempty : P .empty) : Memory.Each P Memory.blank := by
  constructor
  intro i h
  simpa [Memory.blank] using Row.Each.blank hempty

/-- A change of one row that keeps the property keeps it for all of memory. -/
theorem modifyRow {m : Memory} (hm : Memory.Each P m) (row : Nat) {f : Row → Row}
    (hf : ∀ cells, Row.Each P cells → Row.Each P (f cells)) :
    Memory.Each P (m.modifyRow row f) := by
  constructor
  intro i h
  by_cases heq : row = i
  · subst heq
    rw [Memory.getElem_modifyRow_self m f h]
    exact hf _ (hm.row row h)
  · rw [Memory.getElem_modifyRow_ne m f h heq]
    exact hm.row i h

theorem eraseRange {m : Memory} (hm : Memory.Each P m) (hempty : P .empty)
    (first last : Nat) : Memory.Each P (m.eraseRange first last) := by
  constructor
  intro i hi
  constructor
  intro j hj
  rw [Memory.getElem_eraseRange m first last hi hj]
  split
  · exact hempty
  · exact (hm.row i hi).cell j hj

theorem insertRow {m : Memory} (hm : Memory.Each P m) (hempty : P .empty)
    (row : Nat) : Memory.Each P (m.insertRow row) := by
  constructor
  intro i h
  rw [Memory.getElem_insertRow]
  split
  · exact hm.row i h
  · split
    · exact Row.Each.blank hempty
    · exact hm.row (i - 1) (by omega)

theorem deleteRow {m : Memory} (hm : Memory.Each P m) (hempty : P .empty)
    (row : Nat) : Memory.Each P (m.deleteRow row) := by
  constructor
  intro i h
  rw [Memory.getElem_deleteRow]
  split
  · exact hm.row i h
  · by_cases hin : i + 1 < memoryRows
    · simpa [hin] using hm.row (i + 1) hin
    · simpa [hin] using Row.Each.blank hempty

end Memory.Each

end GraphicsTerminal
