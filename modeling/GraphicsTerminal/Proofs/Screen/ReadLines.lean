import GraphicsTerminal.Proofs.Screen.Addressable
import GraphicsTerminal.Proofs.Screen.CharacterEdits

/-!
# Lines that are read back

A line is read from a position on and ends at the first empty cell, at the end of the row or with
the count, whichever comes first: it is the longest run of written cells that fits.  A column
behind the last one becomes the last.  A row behind the last one of memory does not: the last row
of the first page is read for it, and not the last row of memory, which would be the nearest.

Main definitions:

- {lit}`Cell.contents`: the contents of cells up to the first empty one.
- {lit}`Memory.Writes`: bytes stand in written cells, from a position on.
- {lit}`Memory.LongestRun`: they do, and no more of them fit into a count.
- {lit}`FlatScreen.viewLine`: the checked read of a line of the view.
- {lit}`Screen.readRow`: the row of memory that is read where a row is asked for.
- {lit}`Screen.ReadsLine`: what a checked read gives, and when it is what the nearest row gives.

Main results:

- Theorem {lit}`Memory.longestRun_iff`: a longest run is one that goes on until it has to stop.
- Theorem {lit}`Memory.longestRun_line`: what is read from a row is the longest run.
- Theorem {lit}`Screen.readsLine`: lines read back from rows of memory and of the view.
- Theorem {lit}`Screen.row_beyond_memory_read`: a row behind the last one is not the nearest.
-/

namespace GraphicsTerminal

/-! ## Written runs -/

namespace Cell

/-- The contents of the written cells in front of the first empty one. -/
def contents (cells : List Cell) : List UInt8 :=
  (cells.takeWhile (!·.isEmpty)).map content

theorem length_contents_le (cells : List Cell) : (contents cells).length ≤ cells.length := by
  rw [contents, List.length_map]
  exact (List.takeWhile_sublist _).length_le

/-- All bytes stand in written cells, in order. -/
theorem exists_of_lt_contents (cells : List Cell) {i : Nat} (h : i < (contents cells).length) :
    ∃ style, cells[i]? = some (.written (contents cells)[i] style) := by
  induction cells generalizing i with
  | nil => cases h
  | cons cell cells ih =>
    cases cell with
    | empty => cases h
    | written b style =>
      cases i with
      | zero => exact ⟨style, rfl⟩
      | succ i => exact ih (Nat.lt_of_succ_lt_succ h)

/-- Behind the last byte there is no written cell. -/
theorem contents_stops (cells : List Cell) (b : UInt8) (style : Enhancement) :
    cells[(contents cells).length]? ≠ some (.written b style) := by
  induction cells with
  | nil => exact (Option.some_ne_none _).symm
  | cons cell cells ih =>
    cases cell with
    | empty => exact fun h => Cell.noConfusion (Option.some.inj h)
    | written content style => exact ih

end Cell

namespace Memory

/-- The bytes stand in written cells of one row, from a column on.  There is no cell behind the
last column, so no run goes on from one row to the next. -/
def Writes (m : Memory) (row column : Nat) (run : List UInt8) : Prop :=
  ∀ i (h : i < run.length), ∃ style,
    m.cell? row (column + i) = some (.written run[i] style)

/-- The contents of the longest run of written cells that begins at a position and is not longer
than a count. -/
structure LongestRun (m : Memory) (row column count : Nat) (run : List UInt8) : Prop where
  writes : m.Writes row column run
  length_le : run.length ≤ count
  longest : ∀ other, m.Writes row column other → other.length ≤ count →
    other.length ≤ run.length

variable {m : Memory} {row column count : Nat} {run run' : List UInt8}

/-- There are no written cells behind the last column. -/
theorem Writes.end_le (h : m.Writes row column run) (hcolumn : column ≤ columns) :
    column + run.length ≤ columns := by
  refine Nat.not_lt.1 fun hbeyond => ?_
  have hlast : run.length - 1 < run.length := by omega
  obtain ⟨style, hwritten⟩ := h _ hlast
  rw [m.cell?_eq_none row (by omega)] at hwritten
  cases hwritten

/-- A written cell continues the run in front of it. -/
theorem Writes.concat (h : m.Writes row column run) {b : UInt8} {style : Enhancement}
    (hcell : m.cell? row (column + run.length) = some (.written b style)) :
    m.Writes row column (run ++ [b]) := by
  intro i hi
  rw [List.length_append, List.length_singleton] at hi
  rcases Nat.lt_succ_iff_lt_or_eq.1 hi with hbefore | rfl
  · rw [List.getElem_append_left hbefore]
    exact h i hbefore
  · rw [List.getElem_concat_length rfl]
    exact ⟨style, hcell⟩

/-- There is only one longest run. -/
theorem LongestRun.unique (h : m.LongestRun row column count run)
    (h' : m.LongestRun row column count run') : run = run' := by
  have hlength : run.length = run'.length :=
    Nat.le_antisymm (h'.longest run h.writes h.length_le) (h.longest run' h'.writes h'.length_le)
  refine List.ext_getElem hlength fun i hi hi' => ?_
  obtain ⟨style, hwritten⟩ := h.writes i hi
  obtain ⟨style', hwritten'⟩ := h'.writes i hi'
  rw [hwritten] at hwritten'
  exact (Cell.written.inj (Option.some.inj hwritten')).1

/-- A run is the longest if it ends with the count or in front of a cell that is not written. -/
theorem longestRun_iff : m.LongestRun row column count run ↔
    m.Writes row column run ∧ run.length ≤ count ∧
      (run.length = count ∨
        ∀ b style, m.cell? row (column + run.length) ≠ some (.written b style)) := by
  constructor
  · intro h
    refine ⟨h.writes, h.length_le, (Nat.lt_or_eq_of_le h.length_le).symm.imp_right ?_⟩
    intro hshort b style hcell
    have hlength : (run ++ [b]).length = run.length + 1 := List.length_append
    have hlonger := h.longest _ (h.writes.concat hcell) (by omega)
    omega
  · rintro ⟨hwrites, hfits, hstops⟩
    refine ⟨hwrites, hfits, fun other hother hcount => Nat.not_lt.1 fun hlonger => ?_⟩
    obtain ⟨style, hwritten⟩ := hother run.length hlonger
    rcases hstops with hend | hnone
    · omega
    · exact hnone _ style hwritten

/-! ## Reading from a row -/

/-- What is read from a row is the longest run. -/
theorem longestRun_line (m : Memory) (hrow : row < memoryRows) (column count : Nat) :
    m.LongestRun row column count (m[row].line column count) := by
  let cells := (m[row].toList.drop column).take count
  have hline : m[row].line column count = Cell.contents cells := rfl
  have hcell {i : Nat} (hi : i < count) : m.cell? row (column + i) = cells[i]? := by
    rw [cell?, Vector.getElem?_eq_getElem hrow, List.getElem?_take, if_pos hi, List.getElem?_drop]
    exact Vector.getElem?_toList.symm
  have hcount : (Cell.contents cells).length ≤ count :=
    Nat.le_trans (Cell.length_contents_le cells) (List.length_take_le _ _)
  rw [hline, longestRun_iff]
  refine ⟨fun i hi => ?_, hcount, (Nat.lt_or_eq_of_le hcount).symm.imp_right ?_⟩
  · rw [hcell (Nat.lt_of_lt_of_le hi hcount)]
    exact Cell.exists_of_lt_contents cells hi
  · intro hshort b style
    rw [hcell hshort]
    exact Cell.contents_stops cells b style

end Memory

/-! ## Reading from the screen -/

/-- The same read over one array, from a row of the view. -/
def FlatScreen.viewLine (s : FlatScreen) (row column count : Nat) :
    Except AddressFault (List UInt8) :=
  s.memoryLine (row + s.viewStart / columns) column count

namespace Screen

/-- The row of memory that is read where a row is asked for. -/
def readRow (row : Nat) : Nat := if row < memoryRows then row else viewRows - 1

theorem readRow_of_lt {row : Nat} (h : row < memoryRows) : readRow row = row := if_pos h

theorem readRow_of_le {row : Nat} (h : memoryRows ≤ row) : readRow row = viewRows - 1 :=
  if_neg (Nat.not_lt.2 h)

theorem readRow_lt (row : Nat) : readRow row < memoryRows := by
  rw [readRow]
  split
  · assumption
  · decide

/-- A line is the longest run of the row that is read, from the nearest column on. -/
theorem longestRun_memoryLine (s : Screen) (row column count : Nat) :
    s.memory.LongestRun (readRow row) (min column (columns - 1)) count
      (s.memoryLine row column count) := by
  have hrow := readRow_lt row
  have hline : s.memoryLine row column count =
      s.memory[readRow row].line (min column (columns - 1)) count := by
    change (s.memory[readRow row]?.getD Row.blank).line _ count = _
    rw [Vector.getElem?_eq_getElem hrow, Option.getD_some]
  rw [hline]
  exact s.memory.longestRun_line hrow _ count

/-- For the rows of memory the line is the longest run of the nearest row.  For all others it is so
exactly when the last rows of the first page and of memory read the same. -/
theorem longestRun_nearest_iff (s : Screen) (row column count : Nat) :
    s.memory.LongestRun (min row (memoryRows - 1)) (min column (columns - 1)) count
        (s.memoryLine row column count) ↔
      row < memoryRows ∨
        s.memoryLine (viewRows - 1) column count = s.memoryLine (memoryRows - 1) column count := by
  have hread := s.longestRun_memoryLine row column count
  rcases Nat.lt_or_ge row memoryRows with hin | hbeyond
  · have hself : min row (memoryRows - 1) = row := Nat.min_eq_left (Nat.le_sub_one_of_lt hin)
    rw [readRow_of_lt hin] at hread
    rw [hself]
    exact iff_of_true hread (.inl hin)
  · have hlast : min row (memoryRows - 1) = memoryRows - 1 :=
      Nat.min_eq_right (Nat.le_trans (Nat.sub_le _ _) hbeyond)
    have hpage : s.memoryLine row column count = s.memoryLine (viewRows - 1) column count := by
      have hfirst := s.longestRun_memoryLine (viewRows - 1) column count
      rw [readRow_of_lt (by decide)] at hfirst
      rw [readRow_of_le hbeyond] at hread
      exact hread.unique hfirst
    have hnearest := s.longestRun_memoryLine (memoryRows - 1) column count
    rw [readRow_of_lt (by decide)] at hnearest
    rw [hlast, hpage, or_iff_right (Nat.not_lt.2 hbeyond)]
    constructor
    · exact fun hrun => hrun.unique hnearest
    · intro hsame
      rw [hsame]
      exact hnearest

theorem flat_viewLine (s : Screen) (row column count : Nat) :
    s.flat.viewLine row column count = .ok (s.viewLine row column count) := by
  have htop : s.flat.viewStart / columns = s.topRow :=
    Nat.mul_div_cancel s.topRow (show 0 < columns by decide)
  rw [FlatScreen.viewLine, htop]
  exact flat_memoryLine s _ column count

/-- What a read gives that is asked for a row of memory.  Its checks pass, and it gives the longest
run of the row that is read, from the nearest column on.  For the rows of memory this is the
longest run of the nearest row, and for all others exactly when the last rows of the first page and
of memory read the same. -/
structure ReadsLine (s : Screen) (row column count : Nat)
    (read : Except AddressFault (List UInt8)) (line : List UInt8) : Prop where
  accepted : read = .ok line
  longest : s.memory.LongestRun (readRow row) (min column (columns - 1)) count line
  nearest_iff : s.memory.LongestRun (min row (memoryRows - 1)) (min column (columns - 1)) count
      line ↔
    row < memoryRows ∨
      s.memoryLine (viewRows - 1) column count = s.memoryLine (memoryRows - 1) column count

/-- Rows of memory and rows of the view are read the same way, whatever row, column and count are
asked for.  A row of the view is first counted from the top of memory, and no bound is put on that
sum. -/
theorem readsLine (s : Screen) (row column count : Nat) :
    s.ReadsLine row column count (s.flat.memoryLine row column count)
        (s.memoryLine row column count) ∧
      s.ReadsLine (row + s.topRow) column count (s.flat.viewLine row column count)
        (s.viewLine row column count) := by
  have hread (row : Nat) : s.ReadsLine row column count (s.flat.memoryLine row column count)
      (s.memoryLine row column count) :=
    { accepted := flat_memoryLine s row column count
      longest := s.longestRun_memoryLine row column count
      nearest_iff := s.longestRun_nearest_iff row column count }
  refine ⟨hread row, ?_⟩
  exact { hread (row + s.topRow) with accepted := flat_viewLine s row column count }

/-- With one byte in the last row of the view, the row behind the last one of memory reads as that
byte, though the last row of memory is empty. -/
theorem row_beyond_memory_read :
    let s := initial.homeDown.putByte 0x41
    s.WellFormed ∧ s.memoryLine memoryRows 0 columns = [0x41] ∧
      s.memory.LongestRun (min memoryRows (memoryRows - 1)) (min 0 (columns - 1)) columns [] ∧
      ¬ s.memory.LongestRun (min memoryRows (memoryRows - 1)) (min 0 (columns - 1)) columns
        (s.memoryLine memoryRows 0 columns) ∧
      ¬ s.memory.LongestRun (min (memoryRows + s.topRow) (memoryRows - 1)) (min 0 (columns - 1))
        columns (s.viewLine memoryRows 0 columns) := by
  intro s
  have hpage : s.memoryLine (viewRows - 1) 0 columns = [0x41] := by decide +kernel
  have hlast : s.memoryLine (memoryRows - 1) 0 columns = [] := by decide +kernel
  have hdiffer :
      s.memoryLine (viewRows - 1) 0 columns ≠ s.memoryLine (memoryRows - 1) 0 columns := by
    rw [hpage, hlast]
    exact List.cons_ne_nil _ _
  have hmissed (row : Nat) (hrow : memoryRows ≤ row) :
      ¬ s.memory.LongestRun (min row (memoryRows - 1)) (min 0 (columns - 1)) columns
        (s.memoryLine row 0 columns) := by
    rw [s.longestRun_nearest_iff, not_or]
    exact ⟨Nat.not_lt.2 hrow, hdiffer⟩
  refine ⟨(initial_wellFormed.homeDown).putByte _, ?_, ?_, hmissed _ (Nat.le_refl _), ?_⟩
  · exact hpage
  · rw [← hlast]
    exact s.longestRun_memoryLine (memoryRows - 1) 0 columns
  · exact hmissed _ (Nat.le_add_right _ _)

end Screen

end GraphicsTerminal
