import GraphicsTerminal.Screen.Erase

/-!
# Inserting and deleting

Characters are inserted and deleted in the cursor row from the cursor on, and
lines at the cursor row.  One insertion is refused: as many blanks as a row is
wide cannot be inserted at the first cell of memory, because the cells that
would have to move end before that cell.

Main definitions:

- {lit}`Screen.openGap`: insert blanks, at most up to the end of the line.
- {lit}`Screen.insertChars`: the same, with the refusal.
- {lit}`Screen.deleteChars`, {lit}`Screen.insertLine`,
  {lit}`Screen.deleteLine`: the other edits.

Main results:

- Theorems {lit}`Fault.exists_of_map` and {lit}`Fault.exists_of_bind`: what an accepted
  result was made of.
-/

namespace GraphicsTerminal

/-- Why an operation was refused. -/
inductive Fault where
  /-- The cells to shift would end before the first cell of memory. -/
  | shiftBeforeMemory
deriving DecidableEq, Repr

namespace Fault

variable {α β : Type} {x : Except Fault α} {b : β}

/-- What is accepted after it was mapped was accepted before. -/
theorem exists_of_map {f : α → β} (h : x.map f = .ok b) : ∃ a, x = .ok a ∧ f a = b := by
  cases x with
  | error fault => cases h
  | ok a => exact ⟨a, rfl, Except.ok.inj h⟩

/-- What is accepted in the end was accepted on the way. -/
theorem exists_of_bind {f : α → Except Fault β} (h : x >>= f = .ok b) :
    ∃ a, x = .ok a ∧ f a = .ok b := by
  cases x with
  | error fault => cases h
  | ok a => exact ⟨a, rfl, h⟩

end Fault

namespace Screen

/-- The cells of the cursor row from the cursor on. -/
def lineRoom (s : Screen) : Nat := columns - s.cursor.column

/-- Insert blanks in the current enhancement at the cursor. -/
def openGap (s : Screen) (count : Nat) : Screen :=
  { s with
    memory := s.memory.modifyRow s.cursorRow fun row =>
      row.openGap s.cursor.column (min count s.lineRoom) (.written 0x20 s.cursor.style) }

/-- Insert blanks in the current enhancement at the cursor, unless the cells
to shift would end before the first cell of memory. -/
def insertChars (s : Screen) (count : Nat) : Except Fault Screen :=
  if s.lineEnd + 1 ≤ min count s.lineRoom then .error .shiftBeforeMemory
  else .ok (s.openGap count)

/-- Delete cells at the cursor; cells at the end of the line become empty. -/
def deleteChars (s : Screen) (count : Nat) : Screen :=
  { s with
    memory := s.memory.modifyRow s.cursorRow fun row =>
      row.closeGap s.cursor.column (min count s.lineRoom) }

/-- Open an empty line at the cursor row; the last row of memory is lost. -/
def insertLine (s : Screen) : Screen :=
  { s with memory := s.memory.insertRow s.cursorRow }

/-- Remove the cursor row; the last row of memory becomes empty. -/
def deleteLine (s : Screen) : Screen :=
  { s with memory := s.memory.deleteRow s.cursorRow }

/-- The greatest number of lines that one sequence inserts or deletes. -/
abbrev mostLines : Nat := memoryRows

/-- Insert lines one by one. -/
def insertLines (s : Screen) (count : Nat) : Screen :=
  (min count mostLines).repeat insertLine s

/-- Delete lines one by one. -/
def deleteLines (s : Screen) (count : Nat) : Screen :=
  (min count mostLines).repeat deleteLine s

end Screen

end GraphicsTerminal
