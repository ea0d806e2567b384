import GraphicsTerminal.Proofs.Screen.FlatScreen

/-!
# Inserting and deleting characters

Characters are inserted and deleted within the cursor row, from the cursor on.  A count that is
greater than the room behind the cursor is clipped to it.  What an edit leaves is described cell
by cell, and from the two descriptions follows what is left after both edits.

Main definitions:

- {lit}`Screen.SameElsewhere`: only the rest of the cursor row differs.
- {lit}`Screen.Inserted`, {lit}`Screen.Deleted`: the cells after an edit of some columns.
- {lit}`Screen.Restored`: the cells after both edits.

Main results:

- Theorem {lit}`Memory.cell?_modifyRow`: the cells of memory after one row was changed.
- Theorems {lit}`Screen.openGap_inserted` and {lit}`Screen.deleteChars_deleted`: what the edits
  leave.
- Theorem {lit}`Screen.Inserted.restored`: what they leave together.
- Theorem {lit}`Screen.charEdits_in_line`: the edits over rows and over one array.
-/

namespace GraphicsTerminal

/-! ## Cells of memory -/

namespace Memory

theorem cell?_eq_some (m : Memory) {row column : Nat} (hrow : row < memoryRows)
    (hcolumn : column < columns) : m.cell? row column = some m[row][column] := by
  simp [cell?, hrow, hcolumn]

theorem cell?_eq_none (m : Memory) (row : Nat) {column : Nat} (hcolumn : columns ≤ column) :
    m.cell? row column = none := by
  simp only [cell?, Option.bind_eq_bind, Option.bind_eq_none_iff]
  intro cells _
  exact Vector.getElem?_eq_none hcolumn

/-- Changing one row changes the cells of that row. -/
theorem cell?_modifyRow (m : Memory) (f : Row → Row) {row : Nat} (hrow : row < memoryRows)
    (r c : Nat) :
    (m.modifyRow row f).cell? r c = if r = row then (f m[row])[c]? else m.cell? r c := by
  by_cases hsame : r = row
  · subst hsame
    rw [if_pos rfl, cell?, Vector.getElem?_eq_getElem hrow, getElem_modifyRow_self m f hrow]
    rfl
  · rw [if_neg hsame, cell?, cell?]
    by_cases hin : r < memoryRows
    · rw [Vector.getElem?_eq_getElem hin, Vector.getElem?_eq_getElem hin,
        getElem_modifyRow_ne m f hin (Ne.symm hsame)]
    · rw [Vector.getElem?_eq_none (Nat.not_lt.1 hin), Vector.getElem?_eq_none (Nat.not_lt.1 hin)]

end Memory

namespace Screen

/-! ## What an edit leaves -/

/-- The cells are the same but for those of the cursor row from the cursor on. -/
def SameElsewhere (s t : Screen) : Prop :=
  ∀ row column, row ≠ s.cursorRow ∨ column < s.cursor.column →
    t.memory.cell? row column = s.memory.cell? row column

/-- Blanks in the current enhancement stand in some columns from the cursor on, and what stood
there stands behind them.  What does not fit into the row any more is lost. -/
structure Inserted (s t : Screen) (count : Nat) : Prop where
  rest_eq : t = { s with memory := t.memory }
  elsewhere : s.SameElsewhere t
  blank : ∀ j, s.cursor.column ≤ j → j < s.cursor.column + count →
    t.memory.cell? s.cursorRow j = some (.written 0x20 s.cursor.style)
  moved : ∀ j, s.cursor.column ≤ j → j < columns - count →
    t.memory.cell? s.cursorRow (j + count) = s.memory.cell? s.cursorRow j

/-- What stood behind some columns from the cursor on stands at the cursor, and as many columns
at the end of the row are empty. -/
structure Deleted (s t : Screen) (count : Nat) : Prop where
  rest_eq : t = { s with memory := t.memory }
  elsewhere : s.SameElsewhere t
  moved : ∀ j, s.cursor.column ≤ j → j < columns - count →
    t.memory.cell? s.cursorRow j = s.memory.cell? s.cursorRow (j + count)
  empty : ∀ j, columns - count ≤ j → j < columns →
    t.memory.cell? s.cursorRow j = some .empty

/-- The cells are the same but for some columns at the end of the cursor row, which are empty. -/
structure Restored (s t : Screen) (count : Nat) : Prop where
  rest_eq : t = { s with memory := t.memory }
  cell_eq : ∀ row column, t.memory.cell? row column =
    if row = s.cursorRow ∧ columns - count ≤ column ∧ column < columns then some .empty
    else s.memory.cell? row column

variable {s t u : Screen}

/-- Change the cursor row. -/
def modifyLine (s : Screen) (f : Row → Row) : Screen :=
  { s with memory := s.memory.modifyRow s.cursorRow f }

/-- A changed cursor row is the image of the old one. -/
theorem cell?_modifyLine (s : Screen) (f : Row → Row) (hrow : s.cursorRow < memoryRows)
    {column : Nat} (hcolumn : column < columns) :
    (s.modifyLine f).memory.cell? s.cursorRow column =
      some (f s.memory[s.cursorRow])[column] := by
  rw [modifyLine, Memory.cell?_modifyRow _ _ hrow, if_pos rfl, Vector.getElem?_eq_getElem hcolumn]

/-- A change of the cursor row that keeps its columns before the cursor keeps all other cells. -/
theorem sameElsewhere_modifyLine (h : s.Bounded) {f : Row → Row}
    (hf : ∀ (row : Row) (i : Nat) (hi : i < columns), i < s.cursor.column → (f row)[i] = row[i]) :
    s.SameElsewhere (s.modifyLine f) := by
  have hrow := h.cursorRow_lt
  intro row column hplace
  by_cases hsame : row = s.cursorRow
  · have hbefore : column < s.cursor.column := hplace.resolve_left (not_not_intro hsame)
    have hin : column < columns := Nat.lt_trans hbefore h.column_lt
    rw [hsame, cell?_modifyLine s f hrow hin, Memory.cell?_eq_some _ hrow hin,
      hf _ column hin hbefore]
  · rw [modifyLine, Memory.cell?_modifyRow _ _ hrow, if_neg hsame]

/-- A gap in the cursor row is an insertion of as many columns as there is room for. -/
theorem openGap_inserted (h : s.Bounded) (count : Nat) :
    s.Inserted (s.openGap count) (min count s.lineRoom) := by
  have hrow := h.cursorRow_lt
  have hcolumn := h.column_lt
  have hroom : min count s.lineRoom ≤ columns - s.cursor.column := Nat.min_le_right _ _
  have hopen : s.openGap count = s.modifyLine
      (·.openGap s.cursor.column (min count s.lineRoom) (.written 0x20 s.cursor.style)) := rfl
  rw [hopen]
  generalize min count s.lineRoom = gap at hroom
  exact
    { rest_eq := rfl
      elsewhere := by
        refine sameElsewhere_modifyLine h fun row i hi hbefore => ?_
        rw [Row.getElem_openGap _ _ _ _ hi, if_pos hbefore]
      blank := by
        intro j hfrom hto
        have hin : j < columns := by omega
        rw [cell?_modifyLine _ _ hrow hin, Row.getElem_openGap _ _ _ _ hin,
          if_neg (Nat.not_lt.2 hfrom), if_pos hto]
      moved := by
        intro j hfrom hto
        have hin : j + gap < columns := by omega
        rw [cell?_modifyLine _ _ hrow hin, Row.getElem_openGap _ _ _ _ hin, if_neg (by omega),
          if_neg (by omega), Memory.cell?_eq_some _ hrow (by omega)]
        simp only [Nat.add_sub_cancel] }

/-- Deleting cells closes a gap of as many columns as the row has from the cursor on. -/
theorem deleteChars_deleted (h : s.Bounded) (count : Nat) :
    s.Deleted (s.deleteChars count) (min count s.lineRoom) := by
  have hrow := h.cursorRow_lt
  have hcolumn := h.column_lt
  have hroom : min count s.lineRoom ≤ columns - s.cursor.column := Nat.min_le_right _ _
  have hclose : s.deleteChars count =
      s.modifyLine (·.closeGap s.cursor.column (min count s.lineRoom)) := rfl
  rw [hclose]
  generalize min count s.lineRoom = gap at hroom
  have hcell (i : Nat) (hi : i < columns) (hfrom : s.cursor.column ≤ i) :
      (s.modifyLine (·.closeGap s.cursor.column gap)).memory.cell? s.cursorRow i =
        some (s.memory[s.cursorRow][i + gap]?.getD .empty) := by
    rw [cell?_modifyLine _ _ hrow hi, Row.getElem_closeGap _ _ _ hi, if_neg (Nat.not_lt.2 hfrom)]
  exact
    { rest_eq := rfl
      elsewhere := by
        refine sameElsewhere_modifyLine h fun row i hi hbefore => ?_
        rw [Row.getElem_closeGap _ _ _ hi, if_pos hbefore]
      moved := by
        intro j hfrom hto
        have hin : j + gap < columns := by omega
        rw [hcell j (by omega) hfrom, Vector.getElem?_eq_getElem hin, Option.getD_some,
          Memory.cell?_eq_some _ hrow hin]
      empty := by
        intro j hfrom hto
        rw [hcell j hto (by omega), Vector.getElem?_eq_none (by omega), Option.getD_none] }

/-! ## Both edits -/

/-- Deleting as many columns as were inserted restores all cells that were not lost. -/
theorem Inserted.restored {count : Nat} (hinserted : s.Inserted t count)
    (hdeleted : t.Deleted u count) (hcount : s.cursor.column + count ≤ columns) :
    s.Restored u count := by
  have hrow : t.cursorRow = s.cursorRow := by
    rw [hinserted.rest_eq]
    rfl
  have hcolumn : t.cursor.column = s.cursor.column := by rw [hinserted.rest_eq]
  refine ⟨?_, fun row column => ?_⟩
  · rw [hdeleted.rest_eq, hinserted.rest_eq]
  · by_cases helsewhere : row ≠ s.cursorRow ∨ column < s.cursor.column
    · rw [hdeleted.elsewhere row column (by rwa [hrow, hcolumn]),
        hinserted.elsewhere row column helsewhere, if_neg (by omega)]
    · obtain ⟨rfl, hfrom⟩ : row = s.cursorRow ∧ s.cursor.column ≤ column := by omega
      by_cases hkept : column < columns - count
      · rw [← hrow, hdeleted.moved column (by omega) hkept, hrow,
          hinserted.moved column hfrom hkept, if_neg (by omega)]
      · by_cases hin : column < columns
        · rw [← hrow, hdeleted.empty column (Nat.not_lt.1 hkept) hin, if_pos (by omega)]
        · rw [Memory.cell?_eq_none _ _ (Nat.not_lt.1 hin), if_neg (by omega),
            Memory.cell?_eq_none _ _ (Nat.not_lt.1 hin)]

/-- An insertion is accepted unless it would fill a whole row from the first cell of memory. -/
theorem insertChars_eq_openGap {count : Nat} (hcount : s.cursorCell = 0 → count < columns) :
    s.insertChars count = .ok (s.openGap count) := by
  refine if_neg ?_
  simp only [lineEnd, lineRoom, cursorCell, Memory.cellNumber, columns] at *
  omega

/-- Inserting and deleting any number of characters stays in the cursor row, both over rows and
over one array, where no check fails.  The number is clipped to the columns from the cursor on;
after the one edit blanks in the current enhancement stand there, after the other the cells that
were behind, and after both of them only the end of the row has changed, which is empty.  The
only exception is an insertion that would fill a whole row from the first cell of memory. -/
theorem charEdits_in_line (h : s.Bounded) {count : Nat}
    (hcount : s.cursorCell = 0 → count < columns) :
    let clipped := min count (columns - s.cursor.column)
    ∃ inserted, s.insertChars count = .ok inserted ∧
      s.flat.insertChars count = .ok inserted.flat ∧
      s.flat.deleteChars count = .ok (s.deleteChars count).flat ∧
      s.Inserted inserted clipped ∧
      s.Deleted (s.deleteChars count) clipped ∧
      s.Restored (inserted.deleteChars count) clipped := by
  intro clipped
  have haccepted := insertChars_eq_openGap hcount
  have hflat := flat_insertChars h count
  rw [haccepted] at hflat
  have hinserted : s.Inserted (s.openGap count) clipped := openGap_inserted h count
  have hbounded : (s.openGap count).Bounded := h.withMemory _
  have hboth : (s.openGap count).Deleted ((s.openGap count).deleteChars count) clipped :=
    deleteChars_deleted hbounded count
  have hclipped : s.cursor.column + clipped ≤ columns := by
    have hcolumn := h.column_lt
    omega
  exact ⟨s.openGap count, haccepted, hflat, flat_deleteChars h count, hinserted,
    deleteChars_deleted h count, hinserted.restored hboth hclipped⟩

/-- A count far beyond the row, two columns before its end. -/
theorem charEdits_in_line_beyond :
    let s := ((initial.atRow 5).atColumn 77).putCell (.written 0x41 Enhancement.plain)
    let t := s.atColumn 78
    t.Bounded ∧ (t.cursorCell = 0 → 18446744073709551615 < columns) ∧
      ∃ inserted, t.insertChars 18446744073709551615 = .ok inserted ∧
        inserted.memory.cell? 5 79 = some (.written 0x20 Enhancement.plain) ∧
        inserted.memory.cell? 6 0 = t.memory.cell? 6 0 ∧
        (t.deleteChars 18446744073709551615).memory.cell? 5 78 = some .empty ∧
        (inserted.deleteChars 18446744073709551615).memory.cell? 5 77 =
          some (.written 0x41 Enhancement.plain) := by
  intro s t
  have hplace : ((initial.atRow 5).atColumn 77).Bounded :=
    { initial_bounded with column_lt := by decide, row_lt := by decide }
  have ht : t.Bounded := { hplace with column_lt := by decide }
  have hcount : t.cursorCell = 0 → 18446744073709551615 < columns := by decide
  obtain ⟨inserted, haccepted, -, -, hinserted, hdeleted, hrestored⟩ :=
    charEdits_in_line ht hcount
  refine ⟨ht, hcount, inserted, haccepted, ?_, ?_, ?_, ?_⟩
  · exact hinserted.blank 79 (by decide) (by decide)
  · exact hinserted.elsewhere 6 0 (.inl (by decide))
  · exact hdeleted.empty 78 (by decide) (by decide)
  · rw [hrestored.cell_eq, if_neg (by decide)]
    decide

end Screen

end GraphicsTerminal
