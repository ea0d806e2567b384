import GraphicsTerminal.Proofs.Screen.CharacterEdits
import GraphicsTerminal.Proofs.Screen.LinearText

/-!
# Typing within a row

Text that neither wraps nor leaves its row only changes the cursor row.  Outside insert mode its
bytes are put into that row one after another, and without line wrap all bytes that have no
column of their own go into the last one.  In insert mode each byte first opens a gap of one
column for itself; this is the same as one gap for the whole text, which is then written over.

Main definitions:

- {lit}`Row.putAll`: cells put into a row one after another.
- {lit}`Row.insertAll`: cells inserted into a row one after another.
- {lit}`Screen.rewriteLine`: the screen with another cursor row and column.
- {lit}`Screen.textCells`: the cells of a text in the current enhancement.
- {lit}`Screen.withInsert`: the screen with insert mode on or off.

Main results:

- Theorems {lit}`Row.getElem_putAll_of_lt`, {lit}`Row.getElem_putAll_add`,
  {lit}`Row.getElem_putAll_last` and {lit}`Row.getElem_putAll_of_le`: the cells of a row that was
  written over.
- Theorem {lit}`Row.putAll_openGap`: one gap for all cells, or one for each.
- Theorems {lit}`Screen.putBytes_eq_putAll` and {lit}`Screen.putBytes_eq_insertAll`: text within
  a row.
- Theorem {lit}`Screen.putBytes_insertMode`: insert mode by one insertion.
- Theorem {lit}`Screen.putBytes_clamped`: text without line wrap.
-/

namespace GraphicsTerminal

/-! ## Rows -/

namespace Row

/-- Put cells into a row one after another.  The last column takes all that are left. -/
def putAll : Row → Nat → List Cell → Row
  | row, _, [] => row
  | row, column, cell :: cells =>
    (row.put column cell).putAll (min (column + 1) (columns - 1)) cells

/-- Insert cells into a row one after another, each into a gap that is opened for it. -/
def insertAll : Row → Nat → Cell → List Cell → Row
  | row, _, _, [] => row
  | row, column, filler, cell :: cells =>
    ((row.openGap column 1 filler).put column cell).insertAll (column + 1) filler cells

variable {cells : List Cell} {column i : Nat}

/-! ### Writing over a row -/

/-- The column for the next cell lies in the row. -/
theorem next_lt (column : Nat) : min (column + 1) (columns - 1) < columns :=
  Nat.lt_of_le_of_lt (Nat.min_le_right _ _) (by decide)

/-- The columns before the first cell are kept. -/
theorem getElem_putAll_of_lt (row : Row) (hcolumn : column < columns) (hi : i < columns)
    (hbefore : i < column) : (row.putAll column cells)[i] = row[i] := by
  induction cells generalizing row column with
  | nil => rfl
  | cons cell cells ih =>
    have hnext : i < min (column + 1) (columns - 1) := by omega
    rw [putAll, ih _ (next_lt column) hnext, getElem_put _ _ _ hi, if_neg (Nat.ne_of_gt hbefore)]

/-- Before the last column every cell has a column of its own. -/
theorem getElem_putAll_add (row : Row) (hi : i < cells.length) (hin : column + i < columns)
    (hlast : column + i < columns - 1) : (row.putAll column cells)[column + i] = cells[i] := by
  induction cells generalizing row column i with
  | nil => exact absurd hi (Nat.not_lt_zero i)
  | cons cell cells ih =>
    have hnext : min (column + 1) (columns - 1) = column + 1 := by omega
    cases i with
    | zero =>
      simp only [putAll, hnext, Nat.add_zero, List.getElem_cons_zero]
      rw [getElem_putAll_of_lt _ (by omega) (by omega) (Nat.lt_succ_self column),
        getElem_put _ _ _ (by omega), if_pos rfl]
    | succ i =>
      have hplace : column + (i + 1) = column + 1 + i := by omega
      simp only [putAll, hnext, hplace, List.getElem_cons_succ]
      exact ih _ (Nat.lt_of_succ_lt_succ hi) (by omega) (by omega)

/-- Cells that reach the last column leave the last of them there. -/
theorem getElem_putAll_last (row : Row) (hne : cells ≠ []) (hcolumn : column < columns)
    (hfull : columns ≤ column + cells.length) :
    (row.putAll column cells)[columns - 1] = cells.getLast hne := by
  induction cells generalizing row column with
  | nil => exact absurd rfl hne
  | cons cell cells ih =>
    cases cells with
    | nil =>
      have hhere : column = columns - 1 := by
        simp only [List.length_cons, List.length_nil] at hfull
        omega
      simp only [putAll, List.getLast_singleton]
      rw [getElem_put _ _ _ (by omega), if_pos hhere]
    | cons next cells =>
      rw [List.getLast_cons (List.cons_ne_nil next cells), putAll]
      refine ih _ (List.cons_ne_nil next cells) (next_lt column) ?_
      simp only [List.length_cons] at hfull ⊢
      omega

/-- The columns behind the last cell are kept. -/
theorem getElem_putAll_of_le (row : Row) (hi : i < columns) (hbehind : column + cells.length ≤ i) :
    (row.putAll column cells)[i] = row[i] := by
  induction cells generalizing row column with
  | nil => rfl
  | cons cell cells ih =>
    rw [List.length_cons] at hbehind
    have hnext : min (column + 1) (columns - 1) + cells.length ≤ i := by omega
    rw [putAll, ih _ hnext, getElem_put _ _ _ hi, if_neg (by omega)]

/-! ### Opening gaps -/

/-- A gap of no cells changes nothing. -/
theorem openGap_zero (row : Row) (column : Nat) (filler : Cell) :
    row.openGap column 0 filler = row := by
  apply Vector.ext
  intro i hi
  rw [getElem_openGap _ _ _ _ hi]
  by_cases hbefore : i < column
  · rw [if_pos hbefore]
  · rw [if_neg hbefore, Nat.add_zero, if_neg hbefore]
    rfl

/-- A gap behind a cell that was put into a gap of one column is a wider gap from the start. -/
theorem openGap_put_openGap (row : Row) (column count : Nat) (filler cell : Cell) :
    ((row.openGap column 1 filler).put column cell).openGap (column + 1) count filler =
      (row.openGap column (count + 1) filler).put column cell := by
  apply Vector.ext
  intro i hi
  rw [getElem_openGap _ _ _ _ hi, getElem_put _ _ _ hi, getElem_put _ _ _ hi,
    getElem_openGap _ _ _ _ hi, getElem_openGap _ _ _ _ hi]
  rcases Nat.lt_trichotomy i column with hbefore | rfl | hbehind
  · rw [if_pos (Nat.lt_succ_of_lt hbefore), if_neg (Nat.ne_of_gt hbefore),
      if_neg (Nat.ne_of_gt hbefore), if_pos hbefore, if_pos hbefore]
  · rw [if_pos (Nat.lt_succ_self i), if_pos rfl, if_pos rfl]
  · have hmoved : ¬ i < column + 1 := by omega
    have hkept : ¬ i < column := by omega
    rw [if_neg hmoved, if_neg (Nat.ne_of_lt hbehind), if_neg hkept]
    by_cases hgap : i < column + 1 + count
    · rw [if_pos hgap, if_pos (by omega)]
    · -- what stood there has been moved twice, first by one column and then by the others
      have htwice : i - count - 1 = i - (count + 1) := by omega
      rw [if_neg hgap, if_neg (by omega), getElem_put _ _ _ (by omega), if_neg (by omega),
        getElem_openGap _ _ _ _ (by omega), if_neg (by omega), if_neg (by omega)]
      simp only [htwice]

/-- Writing over one gap for all cells is inserting them one after another. -/
theorem putAll_openGap (row : Row) (filler : Cell) (hfits : column + cells.length < columns) :
    (row.openGap column cells.length filler).putAll column cells =
      row.insertAll column filler cells := by
  induction cells generalizing row column with
  | nil => exact openGap_zero row column filler
  | cons cell cells ih =>
    rw [List.length_cons] at hfits
    have hnext : min (column + 1) (columns - 1) = column + 1 := by omega
    rw [putAll, insertAll, hnext, List.length_cons, ← openGap_put_openGap]
    exact ih _ (by omega)

end Row

namespace Memory

/-- Two changes of a row are one. -/
theorem modifyRow_modifyRow (m : Memory) (row : Nat) (f g : Row → Row) :
    (m.modifyRow row f).modifyRow row g = m.modifyRow row fun cells => g (f cells) := by
  unfold modifyRow
  by_cases hrow : row < memoryRows
  · simp [hrow]
  · simp [hrow]

theorem modifyRow_id (m : Memory) (row : Nat) : (m.modifyRow row fun cells => cells) = m := by
  unfold modifyRow
  by_cases hrow : row < memoryRows
  · simp [hrow]
  · simp [hrow]

end Memory

namespace Screen

variable {s : Screen} {text : List UInt8}

/-! ## Text within a row -/

/-- Change the cursor row and put the cursor into one of its columns. -/
def rewriteLine (s : Screen) (f : Row → Row) (column : Nat) : Screen :=
  (s.modifyLine f).atColumn column

@[simp]
theorem rewriteLine_column (s : Screen) (f : Row → Row) (column : Nat) :
    (s.rewriteLine f column).cursor.column = column := rfl

/-- Two rewrites of a line are one. -/
theorem rewriteLine_rewriteLine (s : Screen) (f g : Row → Row) (column next : Nat) :
    (s.rewriteLine f column).rewriteLine g next = s.rewriteLine (fun row => g (f row)) next := by
  have hmemory := s.memory.modifyRow_modifyRow s.cursorRow f g
  simp only [rewriteLine, modifyLine, atColumn, cursorRow] at hmemory ⊢
  rw [hmemory]

/-- A line that is rewritten as it was is unchanged. -/
theorem rewriteLine_id (s : Screen) : s.rewriteLine (fun row => row) s.cursor.column = s := by
  rw [rewriteLine, modifyLine, Memory.modifyRow_id]
  rfl

/-- A blank in the current enhancement. -/
def blankCell (s : Screen) : Cell := .written 0x20 s.cursor.style

/-- The cells of a text in the current enhancement. -/
def textCells (s : Screen) (text : List UInt8) : List Cell :=
  text.map (.written · s.cursor.style)

@[simp]
theorem blankCell_rewriteLine (s : Screen) (f : Row → Row) (column : Nat) :
    (s.rewriteLine f column).blankCell = s.blankCell := rfl

@[simp]
theorem textCells_rewriteLine (s : Screen) (f : Row → Row) (column : Nat) (text : List UInt8) :
    (s.rewriteLine f column).textCells text = s.textCells text := rfl

/-- A text has one cell per character. -/
@[simp]
theorem length_textCells (s : Screen) (text : List UInt8) :
    (s.textCells text).length = text.length := List.length_map _

theorem textCells_cons (s : Screen) (b : UInt8) (text : List UInt8) :
    s.textCells (b :: text) = .written b s.cursor.style :: s.textCells text := List.map_cons

/-- A gap that fits into the cursor row. -/
theorem openGap_eq_rewriteLine {count : Nat} (hfits : s.cursor.column + count ≤ columns) :
    s.openGap count =
      s.rewriteLine (·.openGap s.cursor.column count s.blankCell) s.cursor.column := by
  have hgap : min count s.lineRoom = count := by
    simp only [lineRoom]
    omega
  rw [openGap, hgap]
  rfl

/-! ### Bytes -/

/-- A byte that does not wrap is put into the cursor row, and the cursor stops at its end. -/
theorem print_eq_put (hinsert : s.modes.insert = false)
    (hcolumn : s.cursor.column < columns)
    (hstays : s.modes.lineWrap = false ∨ s.cursor.column + 1 < columns) (b : UInt8) :
    s.print b = s.rewriteLine (·.put s.cursor.column (.written b s.cursor.style))
      (min (s.cursor.column + 1) (columns - 1)) := by
  rw [print_of_overwrite hinsert]
  by_cases hroom : s.cursor.column + 1 < columns
  · rw [Nat.min_eq_left (Nat.le_sub_one_of_lt hroom)]
    exact if_pos hroom
  · have hwrap : ¬ s.modes.lineWrap = true := by
      rw [hstays.resolve_right hroom]
      exact Bool.false_ne_true
    rw [Nat.min_eq_right (by omega)]
    exact (if_neg hroom).trans (if_neg hwrap)

/-- In insert mode a byte is put into a gap that is opened for it. -/
theorem print_eq_openGap_put (hinsert : s.modes.insert = true)
    (hroom : s.cursor.column + 1 < columns) (b : UInt8) :
    s.print b = s.rewriteLine
      (fun row => (row.openGap s.cursor.column 1 s.blankCell).put s.cursor.column
        (.written b s.cursor.style))
      (s.cursor.column + 1) :=
  calc
    s.print b = ((s.openGap 1).putCell (.written b s.cursor.style)).stepRight := by
      simp only [print, hinsert, if_true]
      rfl
    _ = (s.openGap 1).rewriteLine (·.put s.cursor.column (.written b s.cursor.style))
        (s.cursor.column + 1) := if_pos hroom
    _ = _ := by rw [openGap_eq_rewriteLine (Nat.le_of_lt hroom), rewriteLine_rewriteLine]

/-! ### Texts -/

/-- Text that does not wrap is put into the cursor row, and the cursor stops at its end. -/
theorem putBytes_eq_putAll (hinsert : s.modes.insert = false)
    (hcolumn : s.cursor.column < columns)
    (hstays : s.modes.lineWrap = false ∨ s.cursor.column + text.length < columns)
    (hprint : ∀ b ∈ text, Text.Printable b) :
    s.putBytes text = s.rewriteLine (·.putAll s.cursor.column (s.textCells text))
      (min (s.cursor.column + text.length) (columns - 1)) := by
  induction text generalizing s with
  | nil =>
    have hhere : min (s.cursor.column + 0) (columns - 1) = s.cursor.column :=
      Nat.min_eq_left (Nat.le_sub_one_of_lt hcolumn)
    rw [List.length_nil, hhere]
    exact s.rewriteLine_id.symm
  | cons b text ih =>
    rw [List.length_cons] at hstays ⊢
    have hnow : s.modes.lineWrap = false ∨ s.cursor.column + 1 < columns :=
      hstays.imp_right fun hfits => by omega
    have hlater : s.modes.lineWrap = false ∨
        min (s.cursor.column + 1) (columns - 1) + text.length < columns :=
      hstays.imp_right fun hfits => by omega
    have hend : min (min (s.cursor.column + 1) (columns - 1) + text.length) (columns - 1) =
        min (s.cursor.column + (text.length + 1)) (columns - 1) := by omega
    have hrest := ih
      (s := s.rewriteLine (·.put s.cursor.column (.written b s.cursor.style))
        (min (s.cursor.column + 1) (columns - 1)))
      hinsert (Row.next_lt s.cursor.column) hlater fun c hc => hprint c (.tail b hc)
    rw [putBytes_cons_of_printable (hprint b (.head text)), print_eq_put hinsert hcolumn hnow,
      hrest, rewriteLine_rewriteLine]
    simp only [rewriteLine_column, textCells_rewriteLine, hend, textCells_cons, Row.putAll]

/-- In insert mode text that leaves the last column free is inserted into the cursor row. -/
theorem putBytes_eq_insertAll (hinsert : s.modes.insert = true)
    (hfits : s.cursor.column + text.length < columns) (hprint : ∀ b ∈ text, Text.Printable b) :
    s.putBytes text =
      s.rewriteLine (·.insertAll s.cursor.column s.blankCell (s.textCells text))
        (s.cursor.column + text.length) := by
  induction text generalizing s with
  | nil => exact s.rewriteLine_id.symm
  | cons b text ih =>
    rw [List.length_cons] at hfits ⊢
    have hnow : s.cursor.column + 1 < columns := by omega
    have hlater : s.cursor.column + 1 + text.length < columns := by omega
    have hend : s.cursor.column + 1 + text.length = s.cursor.column + (text.length + 1) := by omega
    have hrest := ih
      (s := s.rewriteLine
        (fun row => (row.openGap s.cursor.column 1 s.blankCell).put s.cursor.column
          (.written b s.cursor.style))
        (s.cursor.column + 1))
      hinsert hlater fun c hc => hprint c (.tail b hc)
    rw [putBytes_cons_of_printable (hprint b (.head text)), print_eq_openGap_put hinsert hnow,
      hrest, rewriteLine_rewriteLine]
    simp only [rewriteLine_column, blankCell_rewriteLine, textCells_rewriteLine, hend,
      textCells_cons, Row.insertAll]

/-! ## Insert mode -/

/-- The screen with insert mode on or off. -/
def withInsert (s : Screen) (on : Bool) : Screen :=
  s.modifyModes fun m => { m with insert := on }

/-- Insert mode and the cells of the line do not depend on each other. -/
theorem withInsert_rewriteLine (s : Screen) (f : Row → Row) (column : Nat) (on : Bool) :
    (s.rewriteLine f column).withInsert on = (s.withInsert on).rewriteLine f column := rfl

theorem withInsert_withInsert (s : Screen) (before on : Bool) :
    (s.withInsert before).withInsert on = s.withInsert on := rfl

/-- Typing in insert mode is one insertion that is then written over: for text that leaves the
last column free, both ways lead to the same screen, but for the mode itself.  The insertion is
never refused. -/
theorem putBytes_insertMode (hfits : s.cursor.column + text.length < columns)
    (hprint : ∀ b ∈ text, Text.Printable b) :
    ∃ shifted, s.insertChars text.length = .ok shifted ∧
      (s.withInsert true).putBytes text =
        ((shifted.withInsert false).putBytes text).withInsert true := by
  have hcolumn : s.cursor.column < columns := by omega
  have hend : min (s.cursor.column + text.length) (columns - 1) =
      s.cursor.column + text.length := by omega
  have htyped : (s.withInsert true).putBytes text =
      (s.withInsert true).rewriteLine
        (·.insertAll s.cursor.column s.blankCell (s.textCells text))
        (s.cursor.column + text.length) :=
    putBytes_eq_insertAll rfl hfits hprint
  have hover : ((s.openGap text.length).withInsert false).putBytes text =
      ((s.openGap text.length).withInsert false).rewriteLine
        (·.putAll s.cursor.column (s.textCells text))
        (min (s.cursor.column + text.length) (columns - 1)) :=
    putBytes_eq_putAll rfl hcolumn (.inr hfits) hprint
  have hrow (row : Row) :
      (row.openGap s.cursor.column text.length s.blankCell).putAll s.cursor.column
          (s.textCells text) =
        row.insertAll s.cursor.column s.blankCell (s.textCells text) := by
    rw [← s.length_textCells text] at hfits ⊢
    exact row.putAll_openGap s.blankCell hfits
  refine ⟨s.openGap text.length, insertChars_eq_openGap fun _ => by omega, ?_⟩
  rw [htyped, hover, openGap_eq_rewriteLine (Nat.le_of_lt hfits)]
  simp only [withInsert_rewriteLine, withInsert_withInsert, rewriteLine_rewriteLine, hend, hrow]

/-- Two bytes in front of three. -/
theorem putBytes_insertMode_typed :
    let s := (initial.putBytes [0x61, 0x62, 0x63]).atColumn 0
    let text : List UInt8 := [0x58, 0x59]
    s.cursor.column + text.length < columns ∧ (∀ b ∈ text, Text.Printable b) ∧
      (∃ shifted, s.insertChars 2 = .ok shifted ∧
        (s.withInsert true).putBytes text =
          ((shifted.withInsert false).putBytes text).withInsert true) ∧
      ((s.withInsert true).putBytes text).memoryLine 0 0 columns =
        [0x58, 0x59, 0x61, 0x62, 0x63] := by
  intro s text
  have hfits : s.cursor.column + text.length < columns := by decide
  have hprint : ∀ b ∈ text, Text.Printable b := by
    intro b hb
    rcases List.mem_pair.1 hb with rfl | rfl
    · decide
    · decide
  exact ⟨hfits, hprint, putBytes_insertMode hfits hprint, by decide⟩

/-! ## Text without line wrap -/

/-- Without line wrap text never leaves its row.  Outside insert mode it changes nothing but
the cells of the cursor row from the cursor on: each byte is stored in the column that it comes
to, all bytes that come to the last column or behind it are stored there one over another, and
the columns that no byte comes to are kept.  The cursor ends behind the last byte or in the last
column, and nothing else changes. -/
theorem putBytes_clamped (h : s.Bounded) (hinsert : s.modes.insert = false)
    (hwrap : s.modes.lineWrap = false) (hne : text ≠ [])
    (hprint : ∀ b ∈ text, Text.Printable b) :
    let x := s.cursor.column
    let t := s.putBytes text
    s.SameElsewhere t ∧
      (∀ i (hi : i < text.length), x + i < columns - 1 →
        t.memory.cell? s.cursorRow (x + i) = some (.written text[i] s.cursor.style)) ∧
      (columns ≤ x + text.length →
        t.memory.cell? s.cursorRow (columns - 1) =
          some (.written (text.getLast hne) s.cursor.style)) ∧
      (∀ column, x + text.length ≤ column →
        t.memory.cell? s.cursorRow column = s.memory.cell? s.cursorRow column) ∧
      t = { s with
        memory := t.memory
        cursor := { s.cursor with column := min (x + text.length) (columns - 1) } } := by
  intro x t
  have hrow := h.cursorRow_lt
  have hcolumn := h.column_lt
  have ht : t = s.rewriteLine (·.putAll x (s.textCells text))
      (min (x + text.length) (columns - 1)) :=
    putBytes_eq_putAll hinsert hcolumn (.inl hwrap) hprint
  have hmemory : t.memory = (s.modifyLine (·.putAll x (s.textCells text))).memory := by
    rw [ht]
    rfl
  have hlength := s.length_textCells text
  refine ⟨?_, ?_, ?_, ?_, ?_⟩
  · intro row column hplace
    rw [hmemory]
    refine sameElsewhere_modifyLine h (fun row i hi hbefore => ?_) row column hplace
    exact Row.getElem_putAll_of_lt row hcolumn hi hbefore
  · intro i hi hlast
    have hin : x + i < columns := by omega
    rw [hmemory, cell?_modifyLine s _ hrow hin,
      Row.getElem_putAll_add _ (by rwa [hlength]) hin hlast]
    simp only [textCells, List.getElem_map]
  · intro hfull
    have hcells : s.textCells text ≠ [] := fun hnil => hne (List.map_eq_nil_iff.1 hnil)
    rw [hmemory, cell?_modifyLine s _ hrow (by decide),
      Row.getElem_putAll_last _ hcells hcolumn (by rwa [hlength])]
    simp only [textCells, List.getLast_map]
  · intro column hbehind
    by_cases hin : column < columns
    · rw [hmemory, cell?_modifyLine s _ hrow hin, Memory.cell?_eq_some _ hrow hin,
        Row.getElem_putAll_of_le _ hin (by rwa [hlength])]
    · rw [Memory.cell?_eq_none _ _ (Nat.not_lt.1 hin), Memory.cell?_eq_none _ _ (Nat.not_lt.1 hin)]
  · rw [ht]
    rfl

/-- Three bytes, two columns before the end of a row. -/
theorem putBytes_clamped_atEnd :
    let s := (initial.modifyModes fun m => { m with lineWrap := false }).atColumn 78
    let text : List UInt8 := [0x58, 0x59, 0x5A]
    s.Bounded ∧ s.modes.insert = false ∧ s.modes.lineWrap = false ∧ text ≠ [] ∧
      (∀ b ∈ text, Text.Printable b) ∧
      (s.putBytes text).memory.cell? 0 78 = some (.written 0x58 Enhancement.plain) ∧
      (s.putBytes text).memory.cell? 0 79 = some (.written 0x5A Enhancement.plain) ∧
      (s.putBytes text).memory.cell? 1 0 = s.memory.cell? 1 0 ∧
      (s.putBytes text).cursor = ⟨79, 0, Enhancement.plain⟩ := by
  intro s text
  have hs : s.Bounded := { initial_bounded with column_lt := by decide }
  have hprint : ∀ b ∈ text, Text.Printable b := by
    intro b hb
    simp only [text, List.mem_cons, List.not_mem_nil, or_false] at hb
    rcases hb with rfl | rfl | rfl
    · decide
    · decide
    · decide
  obtain ⟨helsewhere, hbefore, hlast, -, hrest⟩ :=
    putBytes_clamped hs rfl rfl (List.cons_ne_nil _ _) hprint
  refine ⟨hs, rfl, rfl, List.cons_ne_nil _ _, hprint, ?_, ?_, ?_, ?_⟩
  · exact hbefore 0 (by decide) (by decide)
  · exact hlast (by decide)
  · exact helsewhere 1 0 (.inl (by decide))
  · rw [hrest]
    rfl

end Screen

end GraphicsTerminal
