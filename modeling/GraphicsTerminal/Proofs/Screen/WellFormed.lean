import GraphicsTerminal.Engine.Apply
import GraphicsTerminal.Proofs.Screen.CellwiseProperties

/-!
# Well-formed screens

A screen is well-formed when its cursor, view, margins and tab stops lie inside
the screen and when every colour in it is one that an enhancement code can
choose.  The colours of the saved cursor belong to it as well: without them the
property would not survive the return to the saved cursor.

Main definitions:

- {lit}`Enhancement.Colored`, {lit}`Cell.Colored`: the colour can be chosen.
- {lit}`Screen.WellFormed`: bounds and colours together.

Main results:

- Theorem {lit}`Screen.initial_wellFormed`: the initial screen is well-formed.
- The theorems of {lit}`Screen.WellFormed`: every operation of the screen keeps
  it well-formed, up to {lit}`Screen.WellFormed.putBytes` for host bytes and
  {lit}`Screen.WellFormed.address` for cursor addresses.
-/

namespace GraphicsTerminal

/-! ## Colours -/

/-- The greatest colour that a code chooses. -/
abbrev Enhancement.greatestChosen : Nat := 15

/-- The colour is one that a code can choose. -/
def Enhancement.Colored (a : Enhancement) : Prop := a.color ≤ greatestChosen

/-- A plain enhancement has the first colour. -/
theorem Enhancement.plain_colored : plain.Colored := Nat.zero_le _

/-- Every code leaves a colour that a code can choose. -/
theorem Enhancement.Colored.applyCode {a : Enhancement} (h : a.Colored) (code : Int) :
    (a.applyCode code).Colored := by
  unfold Enhancement.applyCode
  split
  · exact plain_colored
  iterate 3
    split
    · exact h
  split
  · simp only [Enhancement.Colored, greatestChosen]
    omega
  · split
    · simp only [Enhancement.Colored, greatestChosen]
      omega
    · exact h

/-- A written cell has a colour that a code can choose. -/
def Cell.Colored : Cell → Prop
  | .empty => True
  | .written _ style => style.Colored

/-! ## Tab stops -/

namespace TabStops

/-- Stops at a stride have one flag per column. -/
@[simp]
theorem size_setDefault (tabs : TabStops) (step : Nat) :
    (tabs.setDefault step).stops.size = tabs.stops.size := by
  simp [setDefault, regular]

/-- Without its stops a line keeps one flag for every column. -/
@[simp]
theorem size_clearAll (tabs : TabStops) : tabs.clearAll.stops.size = tabs.stops.size := by
  simp [clearAll]

/-- A new stop changes one flag, or none where the column is beyond the line. -/
@[simp]
theorem size_set (tabs : TabStops) (column : Nat) :
    (tabs.set column).stops.size = tabs.stops.size := by
  simp [set]

@[simp]
theorem size_clear (tabs : TabStops) (column : Nat) :
    (tabs.clear column).stops.size = tabs.stops.size := by
  simp [clear]

/-- The next stop is a column, if the search began at one. -/
theorem nextFrom_lt (tabs : TabStops) {column : Nat} (h : column < tabs.stops.size) :
    tabs.nextFrom column < tabs.stops.size := by
  unfold nextFrom
  cases hfind : (List.range' (column + 1) (tabs.stops.size - (column + 1))).find?
      tabs.isSet with
  | none => exact h
  | some stop =>
    have hmem := List.mem_of_find?_eq_some hfind
    rw [List.mem_range'_1] at hmem
    simp only [Option.getD_some]
    omega

/-- The previous stop is no further right than the column. -/
theorem prevFrom_le (tabs : TabStops) (column : Nat) : tabs.prevFrom column ≤ column := by
  unfold prevFrom
  cases hfind : (List.range (min column tabs.stops.size)).reverse.find? tabs.isSet with
  | none => exact Nat.le_refl column
  | some stop =>
    have hmem := List.mem_of_find?_eq_some hfind
    rw [List.mem_reverse, List.mem_range] at hmem
    simp only [Option.getD_some]
    omega

end TabStops

namespace Screen

theorem columns_pos : 0 < columns := by decide

theorem viewRows_pos : 0 < viewRows := by decide

/-- The next tab stop is a column of the screen. -/
theorem Bounded.nextTab_lt {s : Screen} (h : s.Bounded) : s.nextTab < columns := by
  rw [← h.tabs_size]
  exact s.tabs.nextFrom_lt (h.tabs_size ▸ h.column_lt)

/-! ## Well-formed screens -/

/-- Everything lies inside the screen, and every colour can be chosen. -/
structure WellFormed (s : Screen) : Prop extends Bounded s where
  cursor_colored : s.cursor.style.Colored
  saved_colored : s.saved.style.Colored
  cells_colored : s.memory.Each Cell.Colored

/-- A new screen is well-formed: its cells are empty and its enhancements plain. -/
theorem initial_wellFormed : WellFormed initial where
  toBounded := initial_bounded
  cursor_colored := Enhancement.plain_colored
  saved_colored := Enhancement.plain_colored
  cells_colored := Memory.Each.blank trivial

namespace WellFormed

variable {s : Screen}

/-! ### Cursor, margins, tabs and modes -/

/-- The cursor can be put into any column of the line. -/
theorem atColumn (h : s.WellFormed) {column : Nat} (hcolumn : column < columns) :
    (s.atColumn column).WellFormed :=
  { h with column_lt := hcolumn }

/-- The cursor can be put into any row of the view. -/
theorem atRow (h : s.WellFormed) {row : Nat} (hrow : row < viewRows) :
    (s.atRow row).WellFormed :=
  { h with row_lt := hrow }

/-- A code gives the cursor a colour that can be chosen. -/
theorem applyCode (h : s.WellFormed) (code : Int) : (s.applyCode code).WellFormed :=
  { h with cursor_colored := h.cursor_colored.applyCode code }

/-- A list of codes is applied one after another. -/
theorem applyCodes (h : s.WellFormed) (codes : List Int) :
    (s.applyCodes codes).WellFormed := by
  induction codes generalizing s with
  | nil => exact h
  | cons code codes ih => exact ih (h.applyCode code)

/-- The left margin becomes the cursor column, which is on the line. -/
theorem setLeftMargin (h : s.WellFormed) : s.setLeftMargin.WellFormed :=
  { h with left_lt := h.column_lt }

/-- The right margin becomes the cursor column, also where it is left of the left one. -/
theorem setRightMargin (h : s.WellFormed) : s.setRightMargin.WellFormed :=
  { h with right_lt := h.column_lt }

/-- The left margin is a column of the line. -/
theorem toLeftMargin (h : s.WellFormed) : s.toLeftMargin.WellFormed :=
  h.atColumn (Nat.lt_of_le_of_lt (Nat.min_le_left _ _) h.left_lt)

/-- The previous stop is no further right than the cursor. -/
theorem backTab (h : s.WellFormed) : s.backTab.WellFormed :=
  h.atColumn (Nat.lt_of_le_of_lt (s.tabs.prevFrom_le _) h.column_lt)

/-- A change of tab stops has to keep one flag per column. -/
theorem modifyTabs (h : s.WellFormed) {f : TabStops → TabStops}
    (hf : (f s.tabs).stops.size = s.tabs.stops.size) : (s.modifyTabs f).WellFormed :=
  { h with tabs_size := hf.trans h.tabs_size }

theorem modifyModes (h : s.WellFormed) (f : Modes → Modes) : (s.modifyModes f).WellFormed :=
  { h with }

/-- The copy has the bounds and the colour of the cursor. -/
theorem saveCursor (h : s.WellFormed) : s.saveCursor.WellFormed :=
  { h with
    saved_column_lt := h.column_lt
    saved_row_lt := h.row_lt
    saved_colored := h.cursor_colored }

/-- The copy kept its bounds and its colour, so it can become the cursor again. -/
theorem restoreCursor (h : s.WellFormed) : s.restoreCursor.WellFormed :=
  { h with
    column_lt := Nat.lt_of_le_of_lt (Nat.min_le_left _ _) h.saved_column_lt
    row_lt := Nat.lt_of_le_of_lt (Nat.min_le_left _ _) h.saved_row_lt
    cursor_colored := h.saved_colored }

theorem showBank (h : s.WellFormed) (bank : KeyBank) : (s.showBank bank).WellFormed :=
  { h with }

theorem toggleBank (h : s.WellFormed) :
    { s with softKeys := s.softKeys.toggle }.WellFormed :=
  { h with }

theorem withCharset (h : s.WellFormed) (charset : Charset) :
    { s with charset := charset }.WellFormed :=
  { h with }

/-! ### Memory -/

/-- A change of memory alone has to keep the colours. -/
theorem withMemory (h : s.WellFormed) {m : Memory} (hm : m.Each Cell.Colored) :
    { s with memory := m }.WellFormed :=
  { h with cells_colored := hm }

/-- Erased cells are empty and have no colour. -/
theorem eraseRange (h : s.WellFormed) (first last : Nat) :
    (s.eraseRange first last).WellFormed :=
  h.withMemory (h.cells_colored.eraseRange trivial first last)

/-- A change of the cursor row has to keep its colours. -/
theorem modifyCursorRow (h : s.WellFormed) {f : Row → Row}
    (hf : ∀ row, Row.Each Cell.Colored row → Row.Each Cell.Colored (f row)) :
    { s with memory := s.memory.modifyRow s.cursorRow f }.WellFormed := by
  have hcells := h.cells_colored.modifyRow s.cursorRow hf
  exact h.withMemory hcells

/-- The blanks of a gap are written in the current colour. -/
theorem openGap (h : s.WellFormed) (count : Nat) : (s.openGap count).WellFormed := by
  have hblank : Cell.Colored (.written 0x20 s.cursor.style) := h.cursor_colored
  exact h.modifyCursorRow fun row hrow => hrow.openGap _ _ hblank

/-- The cells of the row move left, and those that are vacated are empty. -/
theorem deleteChars (h : s.WellFormed) (count : Nat) : (s.deleteChars count).WellFormed :=
  h.modifyCursorRow fun _ hrow => hrow.closeGap trivial _ _

/-- The rows below move down and an empty one takes the place of the cursor row. -/
theorem insertLine (h : s.WellFormed) : s.insertLine.WellFormed := by
  have hcells := h.cells_colored.insertRow trivial s.cursorRow
  exact h.withMemory hcells

/-- The rows below move up and the last one becomes empty. -/
theorem deleteLine (h : s.WellFormed) : s.deleteLine.WellFormed := by
  have hcells := h.cells_colored.deleteRow trivial s.cursorRow
  exact h.withMemory hcells

/-- Rows that move up keep their colours. -/
theorem scrollMemory (h : s.WellFormed) : s.scrollMemory.WellFormed := by
  have hcells := h.cells_colored.deleteRow trivial 0
  exact h.withMemory hcells

/-- Cells are written in colours that can be chosen. -/
theorem putCell (h : s.WellFormed) {cell : Cell} (hcell : cell.Colored) :
    (s.putCell cell).WellFormed :=
  h.modifyCursorRow fun _ hrow => hrow.put _ hcell

/-- Repeating an operation that keeps screens well-formed keeps them so. -/
theorem repeat_of_step {f : Screen → Screen}
    (hf : ∀ {s : Screen}, s.WellFormed → (f s).WellFormed) (count : Nat)
    (h : s.WellFormed) : (count.repeat f s).WellFormed := by
  induction count with
  | zero => exact h
  | succ count ih => exact hf ih

theorem insertLines (h : s.WellFormed) (count : Nat) : (s.insertLines count).WellFormed :=
  repeat_of_step insertLine _ h

theorem deleteLines (h : s.WellFormed) (count : Nat) : (s.deleteLines count).WellFormed :=
  repeat_of_step deleteLine _ h

/-- An insertion that is not refused opens a gap in the cursor row. -/
theorem insertChars (h : s.WellFormed) {count : Nat} {next : Screen}
    (hnext : s.insertChars count = .ok next) : next.WellFormed := by
  unfold Screen.insertChars at hnext
  split at hnext
  · cases hnext
  · cases hnext
    exact h.openGap count

/-- A reset keeps the colours of memory or removes them with the cells. -/
theorem reset (h : s.WellFormed) (hard : Bool) : (s.reset hard).WellFormed := by
  have hsoft : (s.reset false).WellFormed :=
    { h with
      column_lt := columns_pos
      row_lt := viewRows_pos
      saved_column_lt := columns_pos
      saved_row_lt := viewRows_pos
      left_lt := columns_pos
      right_lt := Nat.sub_lt columns_pos Nat.one_pos
      tabs_size := (s.tabs.size_setDefault _).trans h.tabs_size
      cursor_colored := Enhancement.plain_colored
      saved_colored := Enhancement.plain_colored }
  cases hard with
  | false => exact hsoft
  | true => exact { hsoft with
      topRow_le := Nat.zero_le _
      cells_colored := Memory.Each.blank trivial }

/-! ### The view and the cursor -/

/-- The view is clipped to the last row it can begin at. -/
theorem viewUp (h : s.WellFormed) (rows : Nat) : (s.viewUp rows).WellFormed :=
  { h with topRow_le := Nat.min_le_right _ _ }

/-- The view is clipped to the last row it can begin at. -/
theorem viewDown (h : s.WellFormed) (rows : Nat) : (s.viewDown rows).WellFormed :=
  { h with topRow_le := Nat.min_le_right _ _ }

/-- The view begins at the first row and the cursor stands in its first cell. -/
theorem homeUp (h : s.WellFormed) : s.homeUp.WellFormed :=
  { h with topRow_le := Nat.zero_le _, column_lt := columns_pos, row_lt := viewRows_pos }

/-- The first column and the last row of the view are on the screen. -/
theorem homeDown (h : s.WellFormed) : s.homeDown.WellFormed :=
  (h.atColumn columns_pos).atRow (Nat.sub_lt viewRows_pos Nat.one_pos)

/-- The nearest position is one of those asked for. -/
theorem nearest_lt {limit : Nat} (hlimit : 0 < limit) (v : Int) :
    Screen.nearest limit v < limit := by
  unfold Screen.nearest Word.clamp
  omega

/-- The nearest row and column are on the screen, whatever the numbers are. -/
theorem placeInView (h : s.WellFormed) (row column : Int) :
    (s.placeInView row column).WellFormed :=
  (h.atColumn (nearest_lt columns_pos column)).atRow (nearest_lt viewRows_pos row)

/-- The view may move first; the cursor is then placed in it. -/
theorem placeInMemory (h : s.WellFormed) (row column : Int) :
    (s.placeInMemory row column).WellFormed := by
  refine placeInView ?_ _ _
  split
  · exact h.viewUp _
  · split
    · exact h.viewDown _
    · exact h

/-- The terms of an address are folded into one position of memory. -/
theorem address (h : s.WellFormed) (terms : List AddressTerm) :
    (s.address terms).WellFormed :=
  h.placeInMemory _ _

/-- Whatever the distance, the cursor stays inside: a side that is left leads
to an edge column, and the top or bottom to an edge row. -/
theorem moveCursor (h : s.WellFormed) (rows cols : Int) :
    (s.moveCursor rows cols).WellFormed := by
  unfold Screen.moveCursor
  -- the row is corrected last, whatever the wrap at a side made of it
  have hrow (v : Int) :
      (if v < 0 then (viewRows - 1 : Int) else if viewRows ≤ v then 0 else v).toNat
        < viewRows := by
    simp only [viewRows]
    omega
  by_cases hleft : (s.cursor.column : Int) + cols < 0
  · simp only [hleft, if_true]
    exact (h.atColumn (by decide)).atRow (hrow _)
  · by_cases hright : (columns : Int) ≤ s.cursor.column + cols
    · simp only [hleft, hright, if_true, if_false]
      exact (h.atColumn columns_pos).atRow (hrow _)
    · simp only [hleft, hright, if_false]
      exact (h.atColumn (by omega)).atRow (hrow _)

/-! ### Host bytes -/

/-- The enhancement of the cursor becomes plain. -/
theorem carriageReturn (h : s.WellFormed) : s.carriageReturn.WellFormed :=
  { h with column_lt := columns_pos, cursor_colored := Enhancement.plain_colored }

theorem backspace (h : s.WellFormed) : s.backspace.WellFormed :=
  h.atColumn (Nat.lt_of_le_of_lt (Nat.sub_le _ 1) h.column_lt)

/-- The cursor moves down in the view, the view moves down, or memory moves up. -/
theorem lineFeed (h : s.WellFormed) : s.lineFeed.WellFormed := by
  unfold Screen.lineFeed
  split
  · exact h.atRow ‹_›
  · have hlast : (s.atRow (viewRows - 1)).WellFormed := h.atRow (by decide)
    simp only
    split
    · exact (hlast.viewDown 1).eraseRange _ _
    · exact hlast.scrollMemory

/-- The next stop is on the line, and a gap up to it is written in the current colour. -/
theorem horizontalTab (h : s.WellFormed) : s.horizontalTab.WellFormed := by
  unfold Screen.horizontalTab
  refine atColumn ?_ h.toBounded.nextTab_lt
  split
  · exact h.openGap _
  · exact h

/-- After the last column the cursor wraps or stays. -/
theorem stepRight (h : s.WellFormed) : s.stepRight.WellFormed := by
  unfold Screen.stepRight
  split
  · exact h.atColumn ‹_›
  · split
    · exact h.carriageReturn.lineFeed
    · exact h.atColumn (by decide)

/-- The character is written in the colour of the cursor, which can be chosen. -/
theorem print (h : s.WellFormed) (b : UInt8) : (s.print b).WellFormed := by
  have hgap : (if s.modes.insert then s.openGap 1 else s).WellFormed := by
    split
    · exact h.openGap 1
    · exact h
  have hcell : Cell.Colored (.written b _) := hgap.cursor_colored
  exact (hgap.putCell hcell).stepRight

/-- A byte moves the cursor, is printed or is ignored. -/
theorem putByte (h : s.WellFormed) (b : UInt8) : (s.putByte b).WellFormed := by
  unfold Screen.putByte
  split
  · exact h.lineFeed
  split
  · exact h.carriageReturn
  split
  · exact h.backspace
  split
  · exact h.horizontalTab
  split
  · exact h
  split
  · exact h.print b
  · exact h

/-- Host bytes of any number and kind keep a screen well-formed. -/
theorem putBytes (h : s.WellFormed) (bytes : List UInt8) : (s.putBytes bytes).WellFormed := by
  induction bytes generalizing s with
  | nil => exact h
  | cons b bytes ih => exact ih (h.putByte b)

theorem putText (h : s.WellFormed) (text : String) : (s.putText text).WellFormed :=
  h.putBytes _

end WellFormed

end Screen

end GraphicsTerminal
