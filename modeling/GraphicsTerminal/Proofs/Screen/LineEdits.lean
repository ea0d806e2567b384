import GraphicsTerminal.Proofs.Screen.FlatScreen

/-!
# Inserting and deleting lines

A line that is opened and removed again leaves memory as it was, but for the last row, which
fell off when the line was opened.  A line that is removed and opened again comes back empty.
Over one array each of the two edits is a copy and a fill, and none of these accesses
overwrites a cell in front of the cursor row.

Main definitions:

- {lit}`Cells.Access`: one access that overwrites cells.
- {lit}`FlatScreen.after`: the screen over one array after some accesses.
- {lit}`FlatScreen.LeadsTo`: accesses that are accepted and keep the cells below a bound.
- {lit}`Screen.lineInsertion`, {lit}`Screen.lineDeletion`: the accesses of the two edits.

Main results:

- Theorems {lit}`Memory.deleteRow_insertRow` and {lit}`Memory.insertRow_deleteRow`: the rows
  after both edits.
- Theorem {lit}`Cells.getElem?_of_applyAll`: accesses keep the cells in front of all of them.
- Theorems {lit}`Screen.flat_insertLine_eq_after` and {lit}`Screen.flat_deleteLine_eq_after`: an
  edit over one array performs its accesses.
- Theorem {lit}`Screen.lineEdits_cancel`: the two edits cancel out, up to one empty row.
-/

namespace GraphicsTerminal

/-! ## Rows of memory -/

namespace Memory

/-- Opening a row and removing it again loses the last row. -/
theorem deleteRow_insertRow (m : Memory) {row : Nat} (hrow : row < memoryRows) :
    (m.insertRow row).deleteRow row = m.setIfInBounds (memoryRows - 1) Row.blank := by
  apply Vector.ext
  intro i hi
  rw [getElem_deleteRow _ _ hi, Vector.getElem_setIfInBounds hi]
  by_cases habove : i < row
  · rw [if_pos habove, getElem_insertRow _ _ hi, if_pos habove, if_neg (by omega)]
  · rw [if_neg habove]
    by_cases hbelow : i + 1 < memoryRows
    · have hshifted : (m.insertRow row)[i + 1] = m[i] := by
        rw [getElem_insertRow _ _ hbelow, if_neg (by omega), if_neg (by omega)]
        simp only [Nat.add_sub_cancel]
      rw [Vector.getElem?_eq_getElem hbelow, Option.getD_some, hshifted, if_neg (by omega)]
    · rw [Vector.getElem?_eq_none (Nat.not_lt.1 hbelow), Option.getD_none, if_pos (by omega)]

/-- Removing a row and opening it again loses that row. -/
theorem insertRow_deleteRow (m : Memory) (row : Nat) :
    (m.deleteRow row).insertRow row = m.setIfInBounds row Row.blank := by
  apply Vector.ext
  intro i hi
  rw [getElem_insertRow _ _ hi, Vector.getElem_setIfInBounds hi]
  by_cases habove : i < row
  · rw [if_pos habove, getElem_deleteRow _ _ hi, if_pos habove, if_neg (by omega)]
  · rw [if_neg habove]
    by_cases hsame : i = row
    · rw [if_pos hsame, if_pos hsame.symm]
    · have hback : i - 1 + 1 = i := by omega
      rw [if_neg hsame, if_neg (Ne.symm hsame), getElem_deleteRow _ _ (by omega),
        if_neg (by omega), hback, Vector.getElem?_eq_getElem hi, Option.getD_some]

end Memory

/-! ## Accesses -/

namespace Cells

/-- One access that overwrites cells. -/
inductive Access where
  /-- Copy the cells from {lit}`first` on, before {lit}`stop`, to {lit}`target`. -/
  | copy (first stop target : Nat)
  /-- Overwrite the cells from {lit}`first` on, before {lit}`stop`. -/
  | fill (first stop : Nat) (cell : Cell)
deriving DecidableEq, Repr

namespace Access

/-- What an access does to the cells. -/
def apply : Access → Cells → Except AddressFault Cells
  | copy first stop target, cells => cells.copyWithin first stop target
  | fill first stop cell, cells => Cells.fill cells first stop cell

/-- The number from which on an access overwrites cells. -/
def start : Access → Nat
  | copy _ _ target => target
  | fill first _ _ => first

/-- An access keeps the cells in front of those that it overwrites. -/
theorem getElem?_of_apply {access : Access} {cells next : Cells}
    (h : access.apply cells = .ok next) {i : Nat} (hi : i < access.start) :
    next[i]? = cells[i]? := by
  cases access with
  | copy first stop target =>
    have houtside : ¬ target ≤ i := Nat.not_le.2 hi
    simp only [apply, copyWithin] at h
    split at h
    · cases h
      simp [houtside]
    · cases h
  | fill first stop cell =>
    have houtside : ¬ first ≤ i := Nat.not_le.2 hi
    simp only [apply, Cells.fill] at h
    split at h
    · cases h
      simp [houtside]
    · cases h

end Access

/-- What accesses do to the cells, one after another. -/
def applyAll (accesses : List Access) (cells : Cells) : Except AddressFault Cells :=
  accesses.foldlM (fun cells access => access.apply cells) cells

variable {accesses front : List Access} {cells next : Cells}

theorem applyAll_append (front back : List Access) (cells : Cells) :
    applyAll (front ++ back) cells = (applyAll front cells).bind (applyAll back) :=
  List.foldlM_append

/-- When all accesses are accepted, those in front are. -/
theorem exists_applyAll_of_prefix (hfront : front <+: accesses)
    (h : applyAll accesses cells = .ok next) : ∃ between, applyAll front cells = .ok between := by
  obtain ⟨back, rfl⟩ := hfront
  rw [applyAll_append] at h
  cases hfirst : applyAll front cells with
  | error fault =>
    rw [hfirst] at h
    cases h
  | ok between => exact ⟨between, rfl⟩

/-- Accesses keep the cells in front of all that they overwrite. -/
theorem getElem?_of_applyAll {bound : Nat} (h : applyAll accesses cells = .ok next)
    (hstart : ∀ access ∈ accesses, bound ≤ access.start) {i : Nat} (hi : i < bound) :
    next[i]? = cells[i]? := by
  induction accesses generalizing cells with
  | nil =>
    cases h
    rfl
  | cons access accesses ih =>
    simp only [applyAll, List.foldlM_cons] at h
    cases hfirst : access.apply cells with
    | error fault =>
      rw [hfirst] at h
      cases h
    | ok between =>
      rw [hfirst] at h
      have hrest : next[i]? = between[i]? := ih h fun a ha => hstart a (.tail access ha)
      have hnow : i < access.start := Nat.lt_of_lt_of_le hi (hstart access (.head accesses))
      rw [hrest, Access.getElem?_of_apply hfirst hnow]

end Cells

/-! ## Edits as accesses -/

namespace FlatScreen

open Cells (Access applyAll)

/-- The screen after some accesses to its cells. -/
def after (s : FlatScreen) (accesses : List Access) : Except AddressFault FlatScreen :=
  (applyAll accesses s.cells).map s.withCells

theorem after_append (s : FlatScreen) (front back : List Access) :
    s.after (front ++ back) = (s.after front).bind (·.after back) := by
  rw [after, after, Cells.applyAll_append]
  cases applyAll front s.cells with
  | error fault => rfl
  | ok cells => rfl

theorem after_singleton (s : FlatScreen) (access : Access) :
    s.after [access] = (access.apply s.cells).map s.withCells := by
  simp only [after, applyAll, List.foldlM_cons, List.foldlM_nil, bind_pure]

/-- Accesses are accepted one after another up to the last screen, and on the way none of them
changes a cell with a number below the bound. -/
structure LeadsTo (s last : FlatScreen) (accesses : List Access) (bound : Nat) : Prop where
  accepted : s.after accesses = .ok last
  kept : ∀ front, front <+: accesses →
    ∃ between, s.after front = .ok between ∧ ∀ i < bound, between.cells[i]? = s.cells[i]?

/-- Accepted accesses that overwrite no cell below a bound keep these cells on the way. -/
theorem leadsTo_of_start {s last : FlatScreen} {accesses : List Access} {bound : Nat}
    (haccepted : s.after accesses = .ok last)
    (hstart : ∀ access ∈ accesses, bound ≤ access.start) : s.LeadsTo last accesses bound := by
  refine ⟨haccepted, ?_⟩
  intro front hfront
  cases hall : applyAll accesses s.cells with
  | error fault =>
    rw [after, hall] at haccepted
    cases haccepted
  | ok cells =>
    obtain ⟨between, hbetween⟩ := Cells.exists_applyAll_of_prefix hfront hall
    have hahead : ∀ access ∈ front, bound ≤ access.start := by
      intro access haccess
      exact hstart access (hfront.subset haccess)
    refine ⟨s.withCells between, ?_, ?_⟩
    · rw [after, hbetween]
      rfl
    · intro i hi
      exact Cells.getElem?_of_applyAll hbetween hahead hi

/-- Emptying a range inside memory is one access. -/
theorem clearRange_eq_after (s : FlatScreen) {first last : Nat} (hle : first ≤ last)
    (hlast : last ≤ Screen.memoryEnd) :
    s.clearRange first last = s.after [.fill first (last + 1) .empty] := by
  have hmin : min last Screen.memoryEnd = last := Nat.min_eq_left hlast
  simp only [clearRange, Screen.flat_memoryEnd, after_singleton, Access.apply, bind, Except.bind,
    pure, Except.pure]
  rw [hmin, if_neg (Nat.not_lt.2 hle)]
  cases s.cells.fill first (last + 1) .empty with
  | error fault => rfl
  | ok cells => rfl

/-- A copy and an edit of what it leaves. -/
theorem after_copy (s : FlatScreen) {first stop target : Nat} {rest : List Access}
    (edit : FlatScreen → Except AddressFault FlatScreen)
    (hedit : ∀ cells, edit (s.withCells cells) = (s.withCells cells).after rest) :
    (s.cells.copyWithin first stop target).bind (fun moved => edit (s.withCells moved)) =
      s.after ([.copy first stop target] ++ rest) := by
  rw [after_append, after_singleton, Access.apply]
  cases s.cells.copyWithin first stop target with
  | error fault => rfl
  | ok moved => exact hedit moved

end FlatScreen

namespace Screen

open Cells (Access)

/-- The accesses that open a line: unless it is the last one, the rows below move down first. -/
def lineInsertion (s : Screen) : List Access :=
  (if s.lineStart + columns ≤ memoryEnd then
    [.copy s.lineStart (memoryEnd - columns + 1) (s.lineStart + columns)]
  else []) ++ [.fill s.lineStart (s.lineEnd + 1) .empty]

/-- The accesses that remove a line: unless it is the last one, the rows below move up first. -/
def lineDeletion (s : Screen) : List Access :=
  (if s.lineStart + columns ≤ memoryEnd then
    [.copy (s.lineStart + columns) (memoryEnd + 1) s.lineStart]
  else []) ++ [.fill (Memory.cellCount - columns) (memoryEnd + 1) .empty]

variable {s : Screen}

theorem lineStart_le_lineEnd (s : Screen) : s.lineStart ≤ s.lineEnd := by
  simp only [lineStart, lineEnd, Memory.cellNumber]
  omega

/-- Emptying the line is one access, whatever the cells hold. -/
theorem clearLine_eq_after (h : s.Bounded) (cells : Cells) :
    (s.flat.withCells cells).clearLine =
      (s.flat.withCells cells).after [.fill s.lineStart (s.lineEnd + 1) .empty] := by
  have hend : (s.flat.withCells cells).lineEnd = .ok s.lineEnd := by
    rw [FlatScreen.lineEnd_withCells, flat_lineEnd]
  have hlast : s.lineEnd ≤ memoryEnd := Nat.le_of_lt_succ (lineEnd_lt h)
  rw [clearLine_eq _ hend, FlatScreen.lineStart_withCells, flat_lineStart]
  exact FlatScreen.clearRange_eq_after _ s.lineStart_le_lineEnd hlast

/-- Opening a line performs its accesses. -/
theorem flat_insertLine_eq_after (h : s.Bounded) :
    s.flat.insertLine = s.flat.after s.lineInsertion := by
  have hkept : Cells.minus memoryEnd columns = .ok (memoryEnd - columns) :=
    Cells.minus_of_le (by decide)
  simp only [FlatScreen.insertLine, lineInsertion, flat_memoryEnd, flat_lineStart, bind,
    Except.bind]
  by_cases hbelow : s.lineStart + columns ≤ memoryEnd
  · rw [if_pos hbelow, if_pos hbelow, hkept]
    exact s.flat.after_copy FlatScreen.clearLine (clearLine_eq_after h)
  · rw [if_neg hbelow, if_neg hbelow, List.nil_append]
    exact clearLine_eq_after h s.flat.cells

/-- Removing a line performs its accesses. -/
theorem flat_deleteLine_eq_after (s : Screen) :
    s.flat.deleteLine = s.flat.after s.lineDeletion := by
  have hclear (t : FlatScreen) : t.clearRange (Memory.cellCount - columns) memoryEnd =
      t.after [.fill (Memory.cellCount - columns) (memoryEnd + 1) .empty] :=
    t.clearRange_eq_after (by decide) (Nat.le_refl memoryEnd)
  simp only [FlatScreen.deleteLine, lineDeletion, flat_memoryEnd, minus_lastRow, flat_lineStart,
    bind, Except.bind]
  by_cases hbelow : s.lineStart + columns ≤ memoryEnd
  · rw [if_pos hbelow, if_pos hbelow]
    refine s.flat.after_copy (·.clearRange (Memory.cellCount - columns) memoryEnd) ?_
    intro cells
    exact hclear (s.flat.withCells cells)
  · rw [if_neg hbelow, if_neg hbelow, List.nil_append]
    exact hclear s.flat

/-! ## Both edits -/

/-- The accesses of an edit depend on the place of the cursor only. -/
theorem lineInsertion_withMemory (s : Screen) (m : Memory) :
    { s with memory := m }.lineInsertion = s.lineInsertion := rfl

theorem lineDeletion_withMemory (s : Screen) (m : Memory) :
    { s with memory := m }.lineDeletion = s.lineDeletion := rfl

/-- No access of the two edits overwrites a cell in front of the cursor row. -/
theorem lineStart_le_start (h : s.Bounded) {access : Access}
    (haccess : access ∈ s.lineInsertion ∨ access ∈ s.lineDeletion) :
    s.lineStart ≤ access.start := by
  have hend := lineEnd_lt h
  have hlast : s.lineStart ≤ Memory.cellCount - columns := by
    simp only [lineEnd, lineStart, Memory.cellNumber, Memory.cellCount, columns] at *
    omega
  simp only [lineInsertion, lineDeletion, List.mem_append] at haccess
  by_cases hbelow : s.lineStart + columns ≤ memoryEnd
  · simp only [hbelow, if_true, List.mem_singleton] at haccess
    rcases haccess with (rfl | rfl) | (rfl | rfl)
    · exact Nat.le_add_right _ _
    · exact Nat.le_refl _
    · exact Nat.le_refl _
    · exact hlast
  · simp only [hbelow, if_false, List.mem_singleton, List.not_mem_nil, false_or] at haccess
    rcases haccess with rfl | rfl
    · exact Nat.le_refl _
    · exact hlast

/-- Opening and removing a line cancel out.  When the line is opened first, the last row of
memory is left empty; when it is removed first, the cursor row is.  Nothing but memory changes,
not even between the two edits.  Over one array each edit performs its accesses, all of them are
accepted, and after every single one the cells of the rows above the cursor row are as they
were. -/
theorem lineEdits_cancel (h : s.Bounded) :
    s.insertLine.deleteLine =
        { s with memory := s.memory.setIfInBounds (memoryRows - 1) Row.blank } ∧
      s.deleteLine.insertLine =
        { s with memory := s.memory.setIfInBounds s.cursorRow Row.blank } ∧
      s.insertLine = { s with memory := s.insertLine.memory } ∧
      s.deleteLine = { s with memory := s.deleteLine.memory } ∧
      s.flat.insertLine = s.flat.after s.lineInsertion ∧
      s.flat.deleteLine = s.flat.after s.lineDeletion ∧
      s.flat.LeadsTo s.insertLine.deleteLine.flat (s.lineInsertion ++ s.lineDeletion)
        s.lineStart ∧
      s.flat.LeadsTo s.deleteLine.insertLine.flat (s.lineDeletion ++ s.lineInsertion)
        s.lineStart := by
  have hinsert := flat_insertLine_eq_after h
  have hdelete := flat_deleteLine_eq_after s
  have hinsertDelete :
      s.flat.after (s.lineInsertion ++ s.lineDeletion) = .ok s.insertLine.deleteLine.flat := by
    have hnext : s.insertLine.Bounded := h.withMemory (s.memory.insertRow s.cursorRow)
    have hsame : s.insertLine.lineDeletion = s.lineDeletion := s.lineDeletion_withMemory _
    rw [FlatScreen.after_append, ← hinsert, flat_insertLine h, ← hsame]
    exact s.insertLine.flat_deleteLine_eq_after.symm.trans (flat_deleteLine hnext)
  have hdeleteInsert :
      s.flat.after (s.lineDeletion ++ s.lineInsertion) = .ok s.deleteLine.insertLine.flat := by
    have hnext : s.deleteLine.Bounded := h.withMemory (s.memory.deleteRow s.cursorRow)
    have hsame : s.deleteLine.lineInsertion = s.lineInsertion := s.lineInsertion_withMemory _
    rw [FlatScreen.after_append, ← hdelete, flat_deleteLine h, ← hsame]
    exact (flat_insertLine_eq_after hnext).symm.trans (flat_insertLine hnext)
  refine ⟨?_, ?_, rfl, rfl, hinsert, hdelete, ?_, ?_⟩
  · have hrows := s.memory.deleteRow_insertRow h.cursorRow_lt
    simp only [insertLine, deleteLine, cursorRow] at hrows ⊢
    rw [hrows]
  · have hrows := s.memory.insertRow_deleteRow s.cursorRow
    simp only [insertLine, deleteLine, cursorRow] at hrows ⊢
    rw [hrows]
  · refine FlatScreen.leadsTo_of_start hinsertDelete ?_
    intro access haccess
    exact lineStart_le_start h (List.mem_append.1 haccess)
  · refine FlatScreen.leadsTo_of_start hdeleteInsert ?_
    intro access haccess
    exact lineStart_le_start h (List.mem_append.1 haccess).symm

/-- In the last row of memory no row is moved, and both orders leave that row empty. -/
theorem lineEdits_cancel_lastRow :
    let s := ((initial.viewDown 72).atRow 23).putCell (.written 0x41 Enhancement.plain)
    s.Bounded ∧ s.cursorRow = 95 ∧ s.cell? 23 0 = some (.written 0x41 Enhancement.plain) ∧
      s.insertLine.deleteLine = { s with memory := s.memory.setIfInBounds 95 Row.blank } ∧
      s.deleteLine.insertLine = { s with memory := s.memory.setIfInBounds 95 Row.blank } ∧
      s.flat.LeadsTo s.insertLine.deleteLine.flat (s.lineInsertion ++ s.lineDeletion) 7600 := by
  intro s
  have hplace : ((initial.viewDown 72).atRow 23).Bounded :=
    { initial_bounded with topRow_le := by decide, row_lt := by decide }
  have hs : s.Bounded := hplace.withMemory _
  have hstart : s.lineStart = 7600 := by decide
  obtain ⟨hinsertDelete, hdeleteInsert, -, -, -, -, hflat, -⟩ := lineEdits_cancel hs
  rw [hstart] at hflat
  exact ⟨hs, by decide, by decide, hinsertDelete, hdeleteInsert, hflat⟩

end Screen

end GraphicsTerminal
