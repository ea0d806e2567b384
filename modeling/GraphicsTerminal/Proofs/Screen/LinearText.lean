import Mathlib.Data.List.DropRight
import GraphicsTerminal.Screen.Output
import GraphicsTerminal.Screen.ReadBack

/-!
# Linear text

Lines of printable bytes, separated by line ends, fill a new screen like a sheet of
paper: a line that is too long goes on in the next row, and when memory is full the
oldest rows are lost.  The screen is known from the rows of the text alone.

Main definitions:

- {lit}`Text.rowsOfLine`, {lit}`Text.rows`: the rows of a line and of a text.
- {lit}`Screen.Holds`: memory, view and cursor as some rows of text leave them.
- {lit}`Text.shown`: what is seen of rows of text at the end.

Main results:

- Theorems {lit}`Screen.Holds.newRow` and {lit}`Screen.Holds.putCell`: what a line end
  and a byte do to the rows.
- Theorem {lit}`Screen.Fills.putBytes`: what a line does to them.
- Theorem {lit}`Screen.Holds.visibleText`: what is seen of them.
- Theorem {lit}`Screen.initial_putBytes_joined`: a new screen after a text.
-/

namespace GraphicsTerminal

namespace Text

/-! ## Rows of a text -/

/-- The rows of a line: as many full ones as it has, and then what is left, which may be
nothing. -/
def rowsOfLine (line : List UInt8) : List (List UInt8) :=
  (List.range (line.length / columns + 1)).map fun k => (line.drop (columns * k)).take columns

/-- The rows of a text, given by its lines. -/
def rows (lines : List (List UInt8)) : List (List UInt8) := lines.flatMap rowsOfLine

/-- Lines with a carriage return and a line feed between them. -/
def joined (lines : List (List UInt8)) : List UInt8 :=
  List.intercalate [Byte.cr, Byte.lf] lines

/-- A byte that is shown as itself. -/
def Printable (b : UInt8) : Prop := 0x20 ≤ b ∧ b ≤ 0x7E

instance : DecidablePred Printable := fun b => inferInstanceAs (Decidable (0x20 ≤ b ∧ b ≤ 0x7E))

variable {line : List UInt8}

/-- A line that is shorter than a row is one row. -/
theorem rowsOfLine_of_lt (h : line.length < columns) : rowsOfLine line = [line] := by
  have hnone : line.length / columns = 0 := Nat.div_eq_of_lt h
  rw [rowsOfLine, hnone]
  simp [List.take_of_length_le (Nat.le_of_lt h)]

/-- A full row in front of a line is its first row. -/
theorem rowsOfLine_append {row : List UInt8} (h : row.length = columns) (line : List UInt8) :
    rowsOfLine (row ++ line) = row :: rowsOfLine line := by
  have hcount : (row ++ line).length / columns = line.length / columns + 1 := by
    rw [List.length_append, h, Nat.add_div_left _ (by decide)]
  rw [rowsOfLine, hcount, List.range_succ_eq_map, List.map_cons, List.map_map]
  congr 1
  · rw [Nat.mul_zero, List.drop_zero, ← h, List.take_left]
  · refine List.map_congr_left fun k _ => ?_
    have hdrop : columns * (k + 1) = row.length + columns * k := by
      rw [h, Nat.mul_add, Nat.mul_one, Nat.add_comm]
    simp only [Function.comp_apply, Nat.succ_eq_add_one]
    rw [hdrop, List.drop_length_add_append]

/-- The last row of a line has what does not fill a row. -/
theorem length_getLast_rowsOfLine (line : List UInt8) :
    ∃ front last, rowsOfLine line = front ++ [last] ∧ last.length = line.length % columns := by
  refine ⟨(List.range (line.length / columns)).map fun k =>
    (line.drop (columns * k)).take columns,
    (line.drop (columns * (line.length / columns))).take columns, ?_, ?_⟩
  · rw [rowsOfLine, List.range_succ, List.map_append, List.map_singleton]
  · rw [List.length_take, List.length_drop]
    have hsplit := Nat.div_add_mod line.length columns
    have hless := Nat.mod_lt line.length (show 0 < columns by decide)
    omega

/-- No row is longer than the screen is wide. -/
theorem length_le_of_mem_rows {lines : List (List UInt8)} {row : List UInt8}
    (h : row ∈ rows lines) : row.length ≤ columns := by
  obtain ⟨line, -, hrow⟩ := List.mem_flatMap.1 h
  obtain ⟨k, -, rfl⟩ := List.mem_map.1 hrow
  exact List.length_take_le _ _

/-- The bytes of the rows are those of the lines. -/
theorem mem_of_mem_rows {lines : List (List UInt8)} {row : List UInt8} {b : UInt8}
    (h : row ∈ rows lines) (hb : b ∈ row) : ∃ line ∈ lines, b ∈ line := by
  obtain ⟨line, hline, hrow⟩ := List.mem_flatMap.1 h
  obtain ⟨k, -, rfl⟩ := List.mem_map.1 hrow
  exact ⟨line, hline, List.mem_of_mem_drop (List.mem_of_mem_take hb)⟩

end Text

/-! ## Rows of cells -/

namespace Row

/-- A row that was written with the given bytes from the first column on. -/
def ofBytes (bytes : List UInt8) : Row :=
  Vector.ofFn fun i => (bytes[i.val]?).elim .empty (.written · Enhancement.plain)

/-- The text stands at the start of the row, and the rest is empty. -/
theorem getElem_ofBytes (bytes : List UInt8) {i : Nat} (h : i < columns) :
    (ofBytes bytes)[i] = (bytes[i]?).elim .empty (.written · Enhancement.plain) := by
  simp [ofBytes]

theorem ofBytes_nil : ofBytes [] = blank := by
  ext i h
  simp [getElem_ofBytes, blank]

/-- A byte that is put behind the bytes of a row is one more of them. -/
theorem put_ofBytes (bytes : List UInt8) (b : UInt8) :
    (ofBytes bytes).put bytes.length (.written b Enhancement.plain) = ofBytes (bytes ++ [b]) := by
  apply Vector.ext
  intro i h
  rw [getElem_put, getElem_ofBytes, getElem_ofBytes]
  rcases Nat.lt_trichotomy i bytes.length with hbefore | rfl | hbehind
  · rw [if_neg (Nat.ne_of_gt hbefore), List.getElem?_append_left hbefore]
  · rw [if_pos rfl, List.getElem?_concat_length]
    rfl
  · have hshort : (bytes ++ [b]).length ≤ i := by
      rw [List.length_append]
      exact hbehind
    rw [if_neg (Nat.ne_of_lt hbehind), List.getElem?_eq_none hshort,
      List.getElem?_eq_none (Nat.le_of_lt hbehind)]

/-- Reading a row back gives its bytes. -/
theorem written_ofBytes {bytes : List UInt8} (h : bytes.length ≤ columns) :
    (ofBytes bytes).written = bytes := by
  have hcells : (ofBytes bytes).toList =
      bytes.map (.written · Enhancement.plain) ++
        List.replicate (columns - bytes.length) .empty := by
    apply List.ext_getElem
    · simp only [Vector.length_toList, List.length_append, List.length_map,
        List.length_replicate]
      omega
    · intro i hi _
      rw [Vector.getElem_toList, getElem_ofBytes]
      by_cases hin : i < bytes.length
      · simp [hin]
      · simp [List.getElem_append, hin]
  simp [written, hcells, List.filter_map, Function.comp_def, Cell.isEmpty, Cell.content]

end Row

namespace Screen

/-! ## Screens that hold text -/

/-- The screen as some rows of text leave it.  The last rows stand in memory from its
top, as many as it has room for, and the cursor is in the last of them; the rows below
are empty. -/
structure Holds (s : Screen) (rows : List (List UInt8)) : Prop where
  row_eq : ∀ i (h : i < memoryRows),
    s.memory[i] = Row.ofBytes (rows[rows.length - memoryRows + i]?.getD [])
  topRow_eq : s.topRow = min (rows.length - viewRows) greatestTopRow
  cursorRow_eq : s.cursorRow = min rows.length memoryRows - 1
  style_eq : s.cursor.style = Enhancement.plain
  modes_eq : s.modes = Modes.initial

/-- A new screen holds one empty row. -/
theorem initial_holds : initial.Holds [[]] where
  row_eq := by
    intro i h
    have hnone : ([[]] : List (List UInt8))[i]?.getD [] = [] := by
      cases i with
      | zero => rfl
      | succ i => rfl
    rw [List.length_singleton, Nat.sub_eq_zero_of_le (by decide), Nat.zero_add, hnone,
      Row.ofBytes_nil]
    simp [initial, Memory.blank]
  topRow_eq := rfl
  cursorRow_eq := rfl
  style_eq := rfl
  modes_eq := rfl

namespace Holds

variable {s : Screen} {rows : List (List UInt8)}

/-- The row of the view in which the cursor is. -/
theorem row_cursor (h : s.Holds rows) (hrows : rows ≠ []) :
    s.cursor.row = min rows.length viewRows - 1 := by
  have hpos := List.length_pos_iff.2 hrows
  have htop := h.topRow_eq
  have hrow := h.cursorRow_eq
  unfold cursorRow at hrow
  simp only [greatestTopRow, memoryRows, viewRows] at *
  omega

/-! ### Line ends -/

/-- An empty row at the end is a row without bytes. -/
theorem getElem?_newRow (rows : List (List UInt8)) (i : Nat) :
    (rows ++ [[]])[i]?.getD [] = rows[i]?.getD [] := by
  rcases Nat.lt_trichotomy i rows.length with hbefore | rfl | hbehind
  · rw [List.getElem?_append_left hbefore]
  · rw [List.getElem?_concat_length, List.getElem?_eq_none (Nat.le_refl _)]
    rfl
  · have hshort : (rows ++ [[]]).length ≤ i := by
      rw [List.length_append]
      exact hbehind
    rw [List.getElem?_eq_none hshort, List.getElem?_eq_none (Nat.le_of_lt hbehind)]

/-- Erasing a row without bytes changes no cell. -/
theorem eraseLine_of_blank {s : Screen}
    (h : ∀ hrow : s.cursorRow < memoryRows, s.memory[s.cursorRow] = Row.blank) :
    s.eraseLine.memory = s.memory := by
  apply Vector.ext
  intro i hi
  apply Vector.ext
  intro j hj
  simp only [eraseLine, eraseRange]
  rw [Memory.getElem_eraseRange _ _ _ hi hj]
  split
  · rename_i hrange
    obtain rfl : i = s.cursorRow := by
      simp only [lineStart, lineEnd, Memory.cellNumber, columns] at hrange hj
      omega
    simp [h hi, Row.blank]
  · rfl

/-- Below the rows of a text memory is empty. -/
theorem blank_below (h : s.Holds rows) {i : Nat} (hi : i < memoryRows) (hbelow : rows.length ≤ i) :
    s.memory[i] = Row.blank := by
  have hfree : rows.length - memoryRows = 0 := by omega
  rw [h.row_eq i hi, hfree, Nat.zero_add, List.getElem?_eq_none hbelow]
  exact Row.ofBytes_nil

/-- As long as memory has room, a new row changes none of its cells. -/
theorem row_eq_newRow (h : s.Holds rows) (hfree : rows.length < memoryRows) {i : Nat}
    (hi : i < memoryRows) :
    s.memory[i] = Row.ofBytes
      ((rows ++ [[]])[(rows ++ [[]]).length - memoryRows + i]?.getD []) := by
  have hsame : rows.length + 1 - memoryRows = rows.length - memoryRows := by omega
  rw [h.row_eq i hi, getElem?_newRow, List.length_append, List.length_singleton, hsame]

/-- When memory is full, it moves up by a row. -/
theorem scrollMemory_newRow (h : s.Holds rows) (hfull : memoryRows ≤ rows.length) {i : Nat}
    (hi : i < memoryRows) :
    (s.memory.deleteRow 0)[i] = Row.ofBytes
      ((rows ++ [[]])[(rows ++ [[]]).length - memoryRows + i]?.getD []) := by
  have hnext : rows.length + 1 - memoryRows + i = rows.length - memoryRows + (i + 1) := by omega
  rw [Memory.getElem_deleteRow _ _ hi, if_neg (Nat.not_lt_zero i), getElem?_newRow,
    List.length_append, List.length_singleton, hnext]
  by_cases hin : i + 1 < memoryRows
  · rw [Vector.getElem?_eq_getElem hin, Option.getD_some, h.row_eq (i + 1) hin]
  · have hlast : rows.length ≤ rows.length - memoryRows + (i + 1) := by omega
    rw [Vector.getElem?_eq_none (Nat.not_lt.1 hin), List.getElem?_eq_none hlast]
    exact Row.ofBytes_nil.symm

/-- In a view with room the cursor goes down. -/
theorem newRow_of_lt_view (h : s.Holds rows) (hrows : rows ≠ [])
    (hview : rows.length < viewRows) : s.carriageReturn.lineFeed.Holds (rows ++ [[]]) := by
  have hpos := List.length_pos_iff.2 hrows
  have hrow := h.row_cursor hrows
  have htop := h.topRow_eq
  have hcount : (rows ++ [[]]).length = rows.length + 1 := List.length_append
  have hdown : s.carriageReturn.lineFeed = s.carriageReturn.atRow (s.cursor.row + 1) := by
    unfold lineFeed
    refine if_pos ?_
    change s.cursor.row + 1 < viewRows
    omega
  rw [hdown]
  exact
    { row_eq := fun i hi => h.row_eq_newRow (Nat.lt_trans hview (by decide)) hi
      topRow_eq := by
        change s.topRow = _
        omega
      cursorRow_eq := by
        change s.topRow + (s.cursor.row + 1) = _
        simp only [greatestTopRow, memoryRows, viewRows] at *
        omega
      style_eq := rfl
      modes_eq := h.modes_eq }

/-- In a full view the view goes down, over a row that is empty already. -/
theorem newRow_of_lt_memory (h : s.Holds rows) (hrows : rows ≠ [])
    (hview : viewRows ≤ rows.length) (hfree : rows.length < memoryRows) :
    s.carriageReturn.lineFeed.Holds (rows ++ [[]]) := by
  have hrow := h.row_cursor hrows
  have htop := h.topRow_eq
  have hcount : (rows ++ [[]]).length = rows.length + 1 := List.length_append
  have hdown : s.carriageReturn.lineFeed =
      ((s.carriageReturn.atRow (viewRows - 1)).viewDown 1).eraseLine := by
    unfold lineFeed
    rw [if_neg]
    · refine if_pos ?_
      change s.topRow + (viewRows - 1) < memoryRows - 1
      simp only [greatestTopRow, memoryRows, viewRows] at *
      omega
    · change ¬ s.cursor.row + 1 < viewRows
      omega
  have hplace : ((s.carriageReturn.atRow (viewRows - 1)).viewDown 1).cursorRow =
      rows.length := by
    change min (s.topRow + 1) greatestTopRow + (viewRows - 1) = _
    simp only [greatestTopRow, memoryRows, viewRows] at *
    omega
  have hmemory : ((s.carriageReturn.atRow (viewRows - 1)).viewDown 1).eraseLine.memory =
      s.memory := by
    refine eraseLine_of_blank fun hin => ?_
    exact h.blank_below hin (Nat.le_of_eq hplace.symm)
  rw [hdown]
  exact
    { row_eq := by
        intro i hi
        simp only [hmemory]
        exact h.row_eq_newRow hfree hi
      topRow_eq := by
        change min (s.topRow + 1) greatestTopRow = _
        omega
      cursorRow_eq := by
        change ((s.carriageReturn.atRow (viewRows - 1)).viewDown 1).cursorRow = _
        omega
      style_eq := rfl
      modes_eq := h.modes_eq }

/-- At the end of memory all rows move up. -/
theorem newRow_of_full (h : s.Holds rows) (hfull : memoryRows ≤ rows.length) :
    s.carriageReturn.lineFeed.Holds (rows ++ [[]]) := by
  have hrows : rows ≠ [] := List.length_pos_iff.1 (Nat.lt_of_lt_of_le (by decide) hfull)
  have hrow := h.row_cursor hrows
  have htop := h.topRow_eq
  have hcount : (rows ++ [[]]).length = rows.length + 1 := List.length_append
  have hup : s.carriageReturn.lineFeed =
      (s.carriageReturn.atRow (viewRows - 1)).scrollMemory := by
    unfold lineFeed
    rw [if_neg]
    · refine if_neg ?_
      change ¬ s.topRow + (viewRows - 1) < memoryRows - 1
      simp only [greatestTopRow, memoryRows, viewRows] at *
      omega
    · change ¬ s.cursor.row + 1 < viewRows
      simp only [memoryRows, viewRows] at *
      omega
  have hmemory : (s.carriageReturn.atRow (viewRows - 1)).scrollMemory.memory =
      s.memory.deleteRow 0 := by
    simp only [scrollMemory, atRow, carriageReturn]
  have hplace : (s.carriageReturn.atRow (viewRows - 1)).scrollMemory.cursorRow =
      s.topRow + (viewRows - 1) := by
    simp only [cursorRow, scrollMemory, atRow, carriageReturn]
  have hview : (s.carriageReturn.atRow (viewRows - 1)).scrollMemory.topRow = s.topRow := by
    simp only [scrollMemory, atRow, carriageReturn]
  rw [hup]
  exact
    { row_eq := by
        intro i hi
        simp only [hmemory]
        exact h.scrollMemory_newRow hfull hi
      topRow_eq := by
        simp only [greatestTopRow, memoryRows, viewRows] at *
        omega
      cursorRow_eq := by
        simp only [greatestTopRow, memoryRows, viewRows] at *
        omega
      style_eq := rfl
      modes_eq := by
        simp only [scrollMemory, atRow, carriageReturn]
        exact h.modes_eq }

/-- A line end begins a new row. -/
theorem newRow (h : s.Holds rows) (hrows : rows ≠ []) :
    s.carriageReturn.lineFeed.Holds (rows ++ [[]]) := by
  by_cases hview : rows.length < viewRows
  · exact h.newRow_of_lt_view hrows hview
  · by_cases hfree : rows.length < memoryRows
    · exact h.newRow_of_lt_memory hrows (Nat.not_lt.1 hview) hfree
    · exact h.newRow_of_full (Nat.not_lt.1 hfree)

/-! ### Bytes -/

/-- A changed last row is the only difference between two texts. -/
theorem getElem?_concat (rows : List (List UInt8)) (row row' : List UInt8) (i : Nat) :
    (rows ++ [row'])[i]?.getD [] =
      if i = rows.length then row' else (rows ++ [row])[i]?.getD [] := by
  rcases Nat.lt_trichotomy i rows.length with hbefore | rfl | hbehind
  · rw [if_neg (Nat.ne_of_lt hbefore), List.getElem?_append_left hbefore,
      List.getElem?_append_left hbefore]
  · rw [if_pos rfl, List.getElem?_concat_length]
    rfl
  · have hshort (last : List UInt8) : (rows ++ [last]).length ≤ i := by
      rw [List.length_append]
      exact hbehind
    rw [if_neg (Nat.ne_of_gt hbehind), List.getElem?_eq_none (hshort row'),
      List.getElem?_eq_none (hshort row)]

/-- A byte goes behind the bytes of the last row. -/
theorem putCell {row : List UInt8} (h : s.Holds (rows ++ [row]))
    (hcolumn : s.cursor.column = row.length) (b : UInt8) :
    (s.putCell (.written b s.cursor.style)).Holds (rows ++ [row ++ [b]]) := by
  have hcount (last : List UInt8) : (rows ++ [last]).length = rows.length + 1 :=
    List.length_append
  have hcursor : s.cursorRow = min (rows.length + 1) memoryRows - 1 := by
    rw [h.cursorRow_eq, hcount]
  have hlast := h.row_eq
  simp only [hcount] at hlast
  exact
    { row_eq := by
        intro i hi
        have hplace : rows.length + 1 - memoryRows + i = rows.length ↔ i = s.cursorRow := by
          omega
        simp only [Screen.putCell]
        rw [hcount, getElem?_concat rows row]
        by_cases hrow : i = s.cursorRow
        · subst hrow
          rw [if_pos (hplace.2 rfl), Memory.getElem_modifyRow_self _ _ hi, hlast _ hi,
            getElem?_concat rows row row, if_pos (hplace.2 rfl), hcolumn, h.style_eq,
            Row.put_ofBytes]
        · rw [if_neg fun heq => hrow (hplace.1 heq),
            Memory.getElem_modifyRow_ne _ _ hi fun heq => hrow heq.symm]
          exact hlast i hi
      topRow_eq := by
        rw [hcount, ← hcount row]
        exact h.topRow_eq
      cursorRow_eq := by
        rw [hcount]
        exact hcursor
      style_eq := h.style_eq
      modes_eq := h.modes_eq }

end Holds

/-! ## Writing text -/

/-- The screen holds some rows, and the cursor is behind the bytes of the last one, which
has room. -/
structure Fills (s : Screen) (rows : List (List UInt8)) (row : List UInt8) : Prop where
  holds : s.Holds (rows ++ [row])
  column_eq : s.cursor.column = row.length
  length_lt : row.length < columns

/-- A new screen is at the start of its first row. -/
theorem initial_fills : initial.Fills [] [] where
  holds := initial_holds
  column_eq := rfl
  length_lt := by decide

/-- The next row is in the same column. -/
theorem lineFeed_column (s : Screen) : s.lineFeed.cursor.column = s.cursor.column := by
  unfold lineFeed
  dsimp only
  split
  · rfl
  · split <;> rfl

/-- A byte of text is printed. -/
theorem putByte_of_printable {b : UInt8} (h : Text.Printable b) (s : Screen) :
    s.putByte b = s.print b := by
  obtain ⟨hfirst, hlast⟩ := h
  have hprint : isPrintable b = true := by
    simp only [isPrintable, Bool.and_eq_true, decide_eq_true_eq]
    exact ⟨hfirst, Nat.lt_of_le_of_lt hlast (by decide)⟩
  have hnot (c : UInt8) (hc : c < 0x20) : b ≠ c := by
    rintro rfl
    exact absurd hfirst (Nat.not_le.2 hc)
  unfold putByte
  rw [if_neg, if_neg (hnot _ (by decide)), if_neg (hnot _ (by decide)),
    if_neg (hnot _ (by decide)), if_neg (hnot _ (by decide)), if_pos (.inl hprint)]
  rintro (hb | hb | hb) <;> exact hnot _ (by decide) hb

/-- A printable byte is stored, and no mode keeps it from being so. -/
theorem putBytes_cons_of_printable {b : UInt8} (h : Text.Printable b) (s : Screen)
    (text : List UInt8) : s.putBytes (b :: text) = (s.print b).putBytes text := by
  rw [← putByte_of_printable h]
  rfl

/-- Outside insert mode no cell is moved for a byte. -/
theorem print_of_overwrite {s : Screen} (h : s.modes.insert = false) (b : UInt8) :
    s.print b = (s.putCell (.written b s.cursor.style)).stepRight := by
  simp [print, h]

namespace Fills

variable {s : Screen} {rows : List (List UInt8)} {row : List UInt8}

theorem newRow (h : s.Fills rows row) :
    s.carriageReturn.lineFeed.Fills (rows ++ [row]) [] where
  holds := h.holds.newRow (List.append_ne_nil_of_right_ne_nil _ (List.cons_ne_nil _ _))
  column_eq := lineFeed_column _
  length_lt := by decide

/-- A byte goes on in the row as long as the row has room behind it. -/
theorem print_of_lt (h : s.Fills rows row) (b : UInt8) (hroom : row.length + 1 < columns) :
    (s.print b).Fills rows (row ++ [b]) := by
  have hput := h.holds.putCell h.column_eq b
  have hprint : s.print b =
      (s.putCell (.written b s.cursor.style)).atColumn (s.cursor.column + 1) := by
    rw [print_of_overwrite (by rw [h.holds.modes_eq]; rfl)]
    refine if_pos ?_
    change s.cursor.column + 1 < columns
    rwa [h.column_eq]
  rw [hprint]
  exact
    { holds :=
        { row_eq := hput.row_eq
          topRow_eq := hput.topRow_eq
          cursorRow_eq := hput.cursorRow_eq
          style_eq := hput.style_eq
          modes_eq := hput.modes_eq }
      column_eq := by
        change s.cursor.column + 1 = _
        rw [h.column_eq, List.length_append, List.length_singleton]
      length_lt := by
        rw [List.length_append]
        exact hroom }

/-- A byte that fills the row begins a new one. -/
theorem print_of_full (h : s.Fills rows row) (b : UInt8) (hfull : row.length + 1 = columns) :
    (s.print b).Fills (rows ++ [row ++ [b]]) [] := by
  have hput := h.holds.putCell h.column_eq b
  have hprint : s.print b =
      (s.putCell (.written b s.cursor.style)).carriageReturn.lineFeed := by
    have hwrap : (s.putCell (.written b s.cursor.style)).modes.lineWrap = true := by
      rw [hput.modes_eq]
      rfl
    rw [print_of_overwrite (by rw [h.holds.modes_eq]; rfl), stepRight, if_neg, if_pos hwrap]
    change ¬ s.cursor.column + 1 < columns
    rw [h.column_eq, hfull]
    exact Nat.lt_irrefl _
  rw [hprint]
  exact
    { holds := hput.newRow (List.append_ne_nil_of_right_ne_nil _ (List.cons_ne_nil _ _))
      column_eq := lineFeed_column _
      length_lt := by decide }

/-- A line goes on in the row and in as many new rows as it needs. -/
theorem putBytes {line : List UInt8} (h : s.Fills rows row)
    (hprint : ∀ b ∈ line, Text.Printable b) :
    ∃ front last, Text.rowsOfLine (row ++ line) = front ++ [last] ∧
      (s.putBytes line).Fills (rows ++ front) last := by
  induction line generalizing s rows row with
  | nil =>
    refine ⟨[], row, ?_, ?_⟩
    · rw [List.append_nil, Text.rowsOfLine_of_lt h.length_lt, List.nil_append]
    · rw [List.append_nil]
      exact h
  | cons b line ih =>
    have hrest : ∀ c ∈ line, Text.Printable c := fun c hc => hprint c (.tail b hc)
    have hline : row ++ b :: line = (row ++ [b]) ++ line := by simp
    rw [putBytes_cons_of_printable (hprint b (.head line)), hline]
    by_cases hroom : row.length + 1 < columns
    · exact ih (h.print_of_lt b hroom) hrest
    · have hfull : row.length + 1 = columns := Nat.le_antisymm h.length_lt (Nat.not_lt.1 hroom)
      obtain ⟨front, last, hrows, hfills⟩ := ih (h.print_of_full b hfull) hrest
      refine ⟨(row ++ [b]) :: front, last, ?_, ?_⟩
      · rw [List.nil_append] at hrows
        rw [Text.rowsOfLine_append (by rw [List.length_append]; exact hfull), hrows,
          List.cons_append]
      · rwa [List.append_assoc, List.singleton_append] at hfills

/-- Lines begin in an empty row and leave their rows below those that were there. -/
theorem putBytes_joined {lines : List (List UInt8)} (h : s.Fills rows [])
    (hlines : lines ≠ []) (hprint : ∀ line ∈ lines, ∀ b ∈ line, Text.Printable b) :
    ∃ front last, Text.rows lines = front ++ [last] ∧
      (s.putBytes (Text.joined lines)).Fills (rows ++ front) last := by
  induction lines generalizing s rows with
  | nil => exact absurd rfl hlines
  | cons line rest ih =>
    obtain ⟨front, last, hrows, hfills⟩ := h.putBytes (hprint line (.head rest))
    rw [List.nil_append] at hrows
    cases rest with
    | nil =>
      refine ⟨front, last, ?_, ?_⟩
      · rw [Text.rows, List.flatMap_singleton, hrows]
      · rwa [Text.joined, List.intercalate_singleton]
    | cons next rest =>
      have hbytes : s.putBytes (Text.joined (line :: next :: rest)) =
          ((s.putBytes line).carriageReturn.lineFeed).putBytes (Text.joined (next :: rest)) := by
        rw [Text.joined, List.intercalate_cons_cons, Screen.putBytes_append,
          Screen.putBytes_append]
        rfl
      obtain ⟨front', last', hrows', hfills'⟩ :=
        ih hfills.newRow (List.cons_ne_nil _ _) fun l hl => hprint l (.tail line hl)
      refine ⟨front ++ [last] ++ front', last', ?_, ?_⟩
      · rw [Text.rows, List.flatMap_cons, hrows, ← Text.rows, hrows',
          List.append_assoc (front ++ [last])]
      · rw [hbytes]
        rwa [← List.append_assoc, ← List.append_assoc]

end Fills

/-! ## What is seen -/

end Screen

namespace Text

/-- What is seen of rows of text when the last of them were written last: a line for
each, without those at the end that have no bytes. -/
def shown (rows : List (List UInt8)) : String :=
  let seen := (rows.drop (rows.length - viewRows)).map (·.map Byte.char)
  String.ofList (List.intercalate ['\n'] (seen.rdropWhile List.isEmpty))

/-- One more line goes behind the others. -/
theorem intercalate_concat {α : Type} (sep : List α) {lines : List (List α)} (h : lines ≠ [])
    (line : List α) :
    List.intercalate sep (lines ++ [line]) = List.intercalate sep lines ++ (sep ++ line) := by
  induction lines with
  | nil => exact absurd rfl h
  | cons first rest ih =>
    cases rest with
    | nil => simp [List.intercalate_cons_cons, List.intercalate_singleton]
    | cons next rest =>
      rw [List.cons_append, List.cons_append, List.intercalate_cons_cons,
        List.intercalate_cons_cons, ← List.cons_append, ih (List.cons_ne_nil _ _),
        List.append_assoc (first ++ sep)]

/-- The line ends at the end of a text are those of its last lines without bytes. -/
theorem rdropWhile_intercalate {α : Type} [DecidableEq α] (sep : α) {lines : List (List α)}
    (h : ∀ line ∈ lines, sep ∉ line) :
    (List.intercalate [sep] lines).rdropWhile (· == sep) =
      List.intercalate [sep] (lines.rdropWhile List.isEmpty) := by
  induction lines using List.reverseRecOn with
  | nil => rfl
  | append_singleton lines line ih =>
    have hlines : ∀ line ∈ lines, sep ∉ line := fun l hl =>
      h l (List.mem_append_left _ hl)
    rcases List.eq_nil_or_concat' line with rfl | ⟨front, c, rfl⟩
    · rw [List.rdropWhile_concat_pos _ _ _ (by rfl), ← ih hlines]
      by_cases hempty : lines = []
      · rw [hempty]
        rfl
      · rw [intercalate_concat _ hempty, List.append_nil,
          List.rdropWhile_concat_pos _ _ _ (by simp)]
    · have hlast : sep ∉ front ++ [c] := h _ (List.mem_append_right _ (List.mem_singleton_self _))
      have hc : ¬ (c == sep) = true := by
        rintro heq
        rw [eq_of_beq heq] at hlast
        exact hlast (List.mem_append_right _ (List.mem_singleton_self _))
      rw [List.rdropWhile_concat_neg _ _ (front ++ [c]) (by simp)]
      by_cases hempty : lines = []
      · rw [hempty, List.nil_append, List.intercalate_singleton,
          List.rdropWhile_concat_neg (· == sep) _ c hc]
      · rw [intercalate_concat _ hempty, ← List.append_assoc, ← List.append_assoc,
          List.rdropWhile_concat_neg (· == sep) _ c hc]

/-- Lines without bytes at the end are dropped together. -/
theorem rdropWhile_append_replicate {α : Type} (lines : List (List α)) (count : Nat) :
    (lines ++ List.replicate count []).rdropWhile List.isEmpty =
      lines.rdropWhile List.isEmpty := by
  induction count with
  | zero => rw [List.replicate_zero, List.append_nil]
  | succ count ih =>
    rw [List.replicate_succ', ← List.append_assoc, List.rdropWhile_concat_pos _ _ _ (by rfl), ih]

/-- No byte of a text is shown as a line end. -/
theorem char_ne_of_printable {b : UInt8} (h : Printable b) : Byte.char b ≠ '\n' := by
  intro hchar
  have hcode : b.toNat = 10 := congrArg Char.toNat hchar
  have hfirst : 0x20 ≤ b.toNat := UInt8.le_iff_toNat_le.1 h.1
  omega

end Text

namespace Screen

namespace Holds

variable {s : Screen} {rows : List (List UInt8)}

/-- The rows of the view are the last rows of the text and empty ones. -/
theorem getElem_view (h : s.Holds rows) {k : Nat} (hk : k < viewRows) :
    s.memory[s.topRow + k]?.getD Row.blank =
      Row.ofBytes (rows[rows.length - viewRows + k]?.getD []) := by
  have htop := h.topRow_eq
  have hin : s.topRow + k < memoryRows := by
    simp only [greatestTopRow, memoryRows, viewRows] at *
    omega
  have hplace : rows.length - memoryRows + (s.topRow + k) = rows.length - viewRows + k := by
    simp only [greatestTopRow, memoryRows, viewRows] at *
    omega
  rw [Vector.getElem?_eq_getElem hin, Option.getD_some, h.row_eq _ hin, hplace]

/-- Reading the rows of the view back gives the last rows of the text and empty ones. -/
theorem map_view (h : s.Holds rows) (hlength : ∀ row ∈ rows, row.length ≤ columns) :
    (List.range viewRows).map (fun k =>
        ((s.memory[s.topRow + k]?.getD Row.blank).written).map Byte.char) =
      (rows.drop (rows.length - viewRows)).map (·.map Byte.char) ++
        List.replicate (viewRows - rows.length) [] := by
  have hrow (k : Nat) (hk : k < viewRows) :
      (s.memory[s.topRow + k]?.getD Row.blank).written =
        rows[rows.length - viewRows + k]?.getD [] := by
    rw [h.getElem_view hk, Row.written_ofBytes]
    cases hget : rows[rows.length - viewRows + k]? with
    | none => exact Nat.zero_le _
    | some row => exact hlength row (List.mem_of_getElem? hget)
  apply List.ext_getElem
  · simp only [List.length_map, List.length_range, List.length_append, List.length_drop,
      List.length_replicate]
    omega
  · intro k hk _
    rw [List.length_map, List.length_range] at hk
    rw [List.getElem_map, List.getElem_range, hrow k hk]
    by_cases hin : k < (rows.drop (rows.length - viewRows)).length
    · rw [List.getElem_append_left (by rwa [List.length_map]), List.getElem_map,
        List.getElem_drop, List.getElem?_eq_getElem, Option.getD_some]
    · rw [List.getElem_append_right (by rw [List.length_map]; exact Nat.not_lt.1 hin),
        List.getElem_replicate, List.getElem?_eq_none]
      · rfl
      · rw [List.length_drop] at hin
        omega

/-- What is seen are the last rows of the text. -/
theorem visibleText (h : s.Holds rows) (hlength : ∀ row ∈ rows, row.length ≤ columns)
    (hprint : ∀ row ∈ rows, ∀ b ∈ row, Text.Printable b) :
    s.visibleText = Text.shown rows := by
  have hclean : ∀ line ∈ (rows.drop (rows.length - viewRows)).map (·.map Byte.char),
      '\n' ∉ line := by
    intro line hline hmem
    obtain ⟨row, hrow, rfl⟩ := List.mem_map.1 hline
    obtain ⟨b, hb, hchar⟩ := List.mem_map.1 hmem
    exact Text.char_ne_of_printable (hprint row (List.mem_of_mem_drop hrow) b hb) hchar
  have hall : ∀ line ∈ (rows.drop (rows.length - viewRows)).map (·.map Byte.char) ++
      List.replicate (viewRows - rows.length) [], '\n' ∉ line := by
    intro line hline
    rcases List.mem_append.1 hline with htext | hempty
    · exact hclean line htext
    · rw [List.eq_of_mem_replicate hempty]
      exact List.not_mem_nil
  have hstrip := Text.rdropWhile_intercalate '\n' hall
  rw [Text.rdropWhile_append_replicate] at hstrip
  simp only [Screen.visibleText, Text.shown]
  rw [h.map_view hlength]
  exact congrArg String.ofList hstrip

end Holds

/-- The last row of a text has what does not fill a row of its last line. -/
theorem length_last_row {lines front : List (List UInt8)} {last : List UInt8}
    (hlines : lines ≠ []) (hrows : Text.rows lines = front ++ [last]) :
    last.length = (lines.getLast hlines).length % columns := by
  obtain ⟨front', last', hline, hlength⟩ :=
    Text.length_getLast_rowsOfLine (lines.getLast hlines)
  have hsplit : Text.rows lines = Text.rows lines.dropLast ++ (front' ++ [last']) := by
    conv_lhs => rw [← List.dropLast_append_getLast hlines]
    rw [Text.rows, List.flatMap_append, List.flatMap_singleton, hline, Text.rows]
  have hlast : [last] = [last'] := by
    rw [hrows, ← List.append_assoc] at hsplit
    exact (List.append_inj' hsplit rfl).2
  rw [List.head_eq_of_cons_eq hlast, hlength]

/-- A text on a new screen.  Its rows stand in memory from the top, the last ones if
memory is too small for all, and nothing else is written.  The view is at the last rows,
and the cursor is behind the last byte. -/
theorem initial_putBytes_joined {lines : List (List UInt8)} (hlines : lines ≠ [])
    (hprint : ∀ line ∈ lines, ∀ b ∈ line, Text.Printable b) :
    let rows := Text.rows lines
    let s := initial.putBytes (Text.joined lines)
    (∀ i (h : i < memoryRows), i < rows.length →
        ∃ row, rows[rows.length - memoryRows + i]? = some row ∧
          s.memory[i] = Row.ofBytes row) ∧
      (∀ i (h : i < memoryRows), rows.length ≤ i → s.memory[i] = Row.blank) ∧
      s.topRow = min (rows.length - viewRows) (memoryRows - viewRows) ∧
      s.cursorRow = min rows.length memoryRows - 1 ∧
      s.cursor.column = (lines.getLast hlines).length % columns ∧
      s.visibleText = Text.shown rows := by
  intro rows s
  obtain ⟨front, last, hrows, hfills⟩ := initial_fills.putBytes_joined hlines hprint
  have hholds : s.Holds rows := by
    have h := hfills.holds
    rwa [List.nil_append, ← hrows] at h
  refine ⟨fun i hi hin => ?_, fun i hi hbelow => hholds.blank_below hi hbelow,
    hholds.topRow_eq, hholds.cursorRow_eq, ?_, ?_⟩
  · have hplace : rows.length - memoryRows + i < rows.length := by omega
    refine ⟨_, List.getElem?_eq_getElem hplace, ?_⟩
    rw [hholds.row_eq i hi, List.getElem?_eq_getElem hplace, Option.getD_some]
  · rw [← length_last_row hlines hrows]
    exact hfills.column_eq
  · refine hholds.visibleText (fun row hrow => Text.length_le_of_mem_rows hrow) ?_
    intro row hrow b hb
    obtain ⟨line, hline, hbyte⟩ := Text.mem_of_mem_rows hrow hb
    exact hprint line hline b hbyte

/-- A line of 81 bytes and a line of one byte are seen as three rows. -/
theorem initial_putBytes_joined_wrapped :
    let s := initial.putBytes (Text.joined [List.replicate 81 0x41, [0x42]])
    s.topRow = 0 ∧ s.cursorRow = 2 ∧ s.cursor.column = 1 ∧
      s.visibleText = String.ofList (List.replicate 80 'A' ++ ['\n', 'A', '\n', 'B']) := by
  have hprint : ∀ line ∈ [List.replicate 81 (0x41 : UInt8), [0x42]],
      ∀ b ∈ line, Text.Printable b := by
    intro line hline b hb
    rcases List.mem_pair.1 hline with rfl | rfl
    · rw [List.eq_of_mem_replicate hb]
      decide
    · rw [List.mem_singleton.1 hb]
      decide
  obtain ⟨-, -, htop, hrow, hcolumn, htext⟩ :=
    initial_putBytes_joined (List.cons_ne_nil _ _) hprint
  exact ⟨htop, hrow, hcolumn, htext⟩

end Screen

end GraphicsTerminal
