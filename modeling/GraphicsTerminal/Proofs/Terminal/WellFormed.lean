import GraphicsTerminal.Proofs.Engine.WellFormed
import GraphicsTerminal.Proofs.Screen.FlatScreen
import GraphicsTerminal.Proofs.Terminal.Run

/-!
# Well-formed terminals

The screen of a terminal has its full number of cells and lies inside its
bounds, its colours can be chosen, and the size of the picture is supported.
This holds at the start of a session and is kept by everything that happens to
the terminal.

Main definitions:

- {lit}`Terminal.WellFormed`: the bounds of the state of a terminal.

Main results:

- Theorem {lit}`Terminal.wellFormed_invariant`: well-formed engines are kept by
  every event.
- Theorem {lit}`Terminal.wellFormed_of_run_start`: every run of a new terminal
  ends in a well-formed one.
-/

namespace GraphicsTerminal

namespace Terminal

variable {L S : Type}

/-- The bounds of the state of a terminal.  Positions are those of the screen
over one array. -/
structure WellFormed (t : Terminal L S) : Prop where
  cells_size : t.engine.screen.flat.cells.size = memoryRows * columns
  viewStart_dvd : columns ∣ t.engine.screen.flat.viewStart
  viewStart_le : t.engine.screen.flat.viewStart ≤ (pages - 1) * viewRows * columns
  column_lt : t.engine.screen.cursor.column < columns
  row_lt : t.engine.screen.cursor.row < viewRows
  saved_column_lt : t.engine.screen.saved.column < columns
  saved_row_lt : t.engine.screen.saved.row < viewRows
  left_lt : t.engine.screen.margins.left < columns
  right_lt : t.engine.screen.margins.right < columns
  tabs_size : t.engine.screen.tabs.stops.size = columns
  /-- A cell that was never written shows a space. -/
  content_of_empty :
    ∀ cell ∈ t.engine.screen.flat.cells, cell.style? = none → cell.content = 0x20
  color_le : ∀ cell ∈ t.engine.screen.flat.cells, ∀ style, cell.style? = some style →
    style.color ≤ Enhancement.greatestChosen
  cursor_color_le : t.engine.screen.cursor.style.color ≤ Enhancement.greatestChosen
  width_ge : GraphicsState.leastWidth ≤ t.engine.graphics.width
  width_le : t.engine.graphics.width ≤ GraphicsState.greatestWidth
  height_ge : GraphicsState.leastHeight ≤ t.engine.graphics.height
  height_le : t.engine.graphics.height ≤ GraphicsState.greatestHeight

/-! ## From engines to terminals -/

/-- Every cell of the array is a cell of a row. -/
theorem exists_of_mem_flat {m : Memory} {cell : Cell} (h : cell ∈ m.flat) :
    ∃ row column, ∃ (hrow : row < memoryRows) (hcolumn : column < columns),
      cell = m[row][column] := by
  obtain ⟨i, hi, rfl⟩ := Array.mem_iff_getElem.1 h
  have hcount : i < Memory.cellCount := m.size_flat ▸ hi
  obtain ⟨row, column, hrow, hcolumn, rfl⟩ := Memory.exists_cellNumber hcount
  refine ⟨row, column, hrow, hcolumn, ?_⟩
  rw [Memory.getElem_flat, Memory.numbered_cellNumber m hrow hcolumn]

/-- A terminal is well-formed when its engine is. -/
theorem wellFormed_of_engine {t : Terminal L S} (h : t.engine.WellFormed) : t.WellFormed := by
  have hstart : t.engine.screen.flat.viewStart = t.engine.screen.topRow * columns := rfl
  have htop := h.screen.topRow_le
  exact
    { cells_size := by
        rw [Screen.flat_cells, Memory.size_flat]
      viewStart_dvd := by
        rw [hstart]
        exact Nat.dvd_mul_left columns _
      viewStart_le := by
        rw [hstart]
        exact Nat.mul_le_mul_right columns htop
      column_lt := h.screen.column_lt
      row_lt := h.screen.row_lt
      saved_column_lt := h.screen.saved_column_lt
      saved_row_lt := h.screen.saved_row_lt
      left_lt := h.screen.left_lt
      right_lt := h.screen.right_lt
      tabs_size := h.screen.tabs_size
      content_of_empty := by
        intro cell _ hempty
        cases cell with
        | empty => rfl
        | written content style => cases hempty
      color_le := by
        intro cell hmem style hstyle
        rw [Screen.flat_cells] at hmem
        obtain ⟨row, column, hrow, hcolumn, rfl⟩ := exists_of_mem_flat hmem
        have hcolored := (h.screen.cells_colored.row row hrow).cell column hcolumn
        cases hcell : t.engine.screen.memory[row][column] with
        | empty =>
          rw [hcell] at hstyle
          cases hstyle
        | written content chosen =>
          rw [hcell] at hstyle hcolored
          cases hstyle
          exact hcolored
      cursor_color_le := h.screen.cursor_colored
      width_ge := h.graphics.width_ge
      width_le := h.graphics.width_le
      height_ge := h.graphics.height_ge
      height_le := h.graphics.height_le }

/-! ## Runs -/

variable [HostLink L] [Surface S]

/-- Well-formed engines are kept by everything that happens to a terminal. -/
theorem wellFormed_invariant :
    Invariant fun t : Terminal L S => t.engine.WellFormed where
  toStepInvariant := .of_engine (fun _ h => h.pollClick) (fun _ h => h.idle)
    fun _ _ _ h hreceive => h.receive hreceive
  press := fun _ key h => h.press key
  surface := fun _ _ h => ⟨h.screen, h.graphics⟩
  link := fun _ _ h => ⟨h.screen, h.graphics⟩
  collect := fun _ h => ⟨h.screen, h.graphics⟩

/-- Every run of a new terminal that is not refused ends in a well-formed one. -/
theorem wellFormed_of_run_start (settings : Settings) (link : L) (surface : S)
    (tape : S → TapeSource) (events : List (Event L S)) {t : Terminal L S}
    (h : (start settings link surface tape).run events = .ok t) : t.WellFormed :=
  wellFormed_of_engine
    (wellFormed_invariant.run (Engine.WellFormed.start settings link surface tape) h)

/-- A letter, a key, a click, and an enquiry whose answer the link refuses. -/
def refusedAnswer : List (Event RecordingLink RecordingSurface) :=
  [.push [0x41], .step, .key .left, .surface (·.addClick ⟨⟨3, 4⟩, Click.left⟩),
    .link fun _ => RecordingLink.failing, .push [Byte.enq], .step, .step]

/-- A session in which the link is lost. -/
theorem wellFormed_of_run_start_refusedAnswer :
    ∃ t, (recorded 4).run refusedAnswer = .ok t ∧ t.WellFormed := by
  obtain ⟨t, ht⟩ : ∃ t, (recorded 4).run refusedAnswer = .ok t := ⟨_, rfl⟩
  exact ⟨t, ht, wellFormed_of_run_start _ _ _ _ _ ht⟩

end Terminal

end GraphicsTerminal
