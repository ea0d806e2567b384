import GraphicsTerminal.Proofs.Protocol.Parameters
import GraphicsTerminal.Proofs.Screen.Addressable

/-!
# Repeated line edits

A line is opened or removed as often as a count says.  After some rounds the rows that have
moved are known one by one, and there are no more rows to move after as many rounds as memory
has rows.  So a count beyond that number may be clipped to it.

Main definitions:

- {lit}`LineEdit`: opening and removing a line.

Main results:

- Theorems {lit}`Memory.getElem_repeat_insertRow` and {lit}`Memory.getElem_repeat_deleteRow`:
  the rows after some rounds.
- Theorem {lit}`LineEdit.repeat_clipped`: a count may be clipped.
- Theorem {lit}`LineEdit.times_flat`: the same over one array.
-/

namespace GraphicsTerminal

/-! ## Rows after some rounds -/

namespace Memory

/-- Some empty rows were opened, and the rows below have moved down past them. -/
theorem getElem_repeat_insertRow (m : Memory) (row count : Nat) {i : Nat} (h : i < memoryRows) :
    (count.repeat (·.insertRow row) m)[i] =
      if i < row then m[i] else if i < row + count then Row.blank else m[i - count] := by
  induction count generalizing i with
  | zero =>
    rw [Nat.add_zero]
    split <;> rfl
  | succ count ih =>
    rw [Nat.repeat, getElem_insertRow _ _ h]
    by_cases habove : i < row
    · rw [if_pos habove, if_pos habove, ih h, if_pos habove]
    · rw [if_neg habove, if_neg habove]
      by_cases hnew : i = row
      · rw [if_pos hnew, if_pos (by omega)]
      · rw [if_neg hnew, ih (by omega), if_neg (by omega)]
        by_cases hopened : i < row + (count + 1)
        · rw [if_pos hopened, if_pos (by omega)]
        · rw [if_neg hopened, if_neg (by omega)]
          congr 1
          omega

/-- Some rows were removed, and the rows below have moved up to their place. -/
theorem getElem_repeat_deleteRow (m : Memory) (row count : Nat) {i : Nat} (h : i < memoryRows) :
    (count.repeat (·.deleteRow row) m)[i] =
      if i < row then m[i] else m[i + count]?.getD Row.blank := by
  induction count generalizing i with
  | zero =>
    rw [Nat.add_zero, Vector.getElem?_eq_getElem h]
    split <;> rfl
  | succ count ih =>
    rw [Nat.repeat, getElem_deleteRow _ _ h]
    by_cases habove : i < row
    · rw [if_pos habove, if_pos habove, ih h, if_pos habove]
    · rw [if_neg habove, if_neg habove]
      by_cases hbelow : i + 1 < memoryRows
      · have hnext : i + 1 + count = i + (count + 1) := by omega
        rw [Vector.getElem?_eq_getElem hbelow, Option.getD_some, ih hbelow, if_neg (by omega), hnext]
      · rw [Vector.getElem?_eq_none (by omega), Vector.getElem?_eq_none (by omega)]

/-- After as many rounds as there are rows, no row is left to move down. -/
theorem repeat_insertRow_clipped (m : Memory) (row count : Nat) :
    (min count memoryRows).repeat (·.insertRow row) m = count.repeat (·.insertRow row) m := by
  apply Vector.ext
  intro i hi
  rw [getElem_repeat_insertRow _ _ _ hi, getElem_repeat_insertRow _ _ _ hi]
  by_cases hfew : count ≤ memoryRows
  · rw [Nat.min_eq_left hfew]
  · rw [if_pos (by omega : i < row + min count memoryRows), if_pos (by omega : i < row + count)]

/-- After as many rounds as there are rows, no row is left to move up. -/
theorem repeat_deleteRow_clipped (m : Memory) (row count : Nat) :
    (min count memoryRows).repeat (·.deleteRow row) m = count.repeat (·.deleteRow row) m := by
  apply Vector.ext
  intro i hi
  rw [getElem_repeat_deleteRow _ _ _ hi, getElem_repeat_deleteRow _ _ _ hi]
  by_cases hfew : count ≤ memoryRows
  · rw [Nat.min_eq_left hfew]
  · rw [Vector.getElem?_eq_none (by omega : memoryRows ≤ i + min count memoryRows),
      Vector.getElem?_eq_none (by omega : memoryRows ≤ i + count)]

end Memory

/-! ## Edits of lines -/

/-- The edits of whole lines. -/
inductive LineEdit where
  | insert
  | delete
deriving DecidableEq, Repr

namespace LineEdit

open ControlSequence (spelled parameter)

/-- What an edit does once. -/
def apply : LineEdit → Screen → Screen
  | insert => Screen.insertLine
  | delete => Screen.deleteLine

/-- What an edit does to memory once, at a row. -/
def applyRow : LineEdit → Nat → Memory → Memory
  | insert => fun row m => m.insertRow row
  | delete => fun row m => m.deleteRow row

/-- What an edit does once over one array. -/
def applyFlat : LineEdit → FlatScreen → Except AddressFault FlatScreen
  | insert => FlatScreen.insertLine
  | delete => FlatScreen.deleteLine

/-- What a sequence with a count does. -/
def applyCount : LineEdit → Nat → Screen → Screen
  | insert => fun count s => s.insertLines count
  | delete => fun count s => s.deleteLines count

/-- What a sequence with a count does over one array. -/
def applyCountFlat : LineEdit → Nat → FlatScreen → Except AddressFault FlatScreen
  | insert => fun count s => s.insertLines count
  | delete => fun count s => s.deleteLines count

/-- The command of a sequence with a count. -/
def command : LineEdit → Int → ControlSequence
  | insert => .insertLines
  | delete => .deleteLines

/-- The last byte of the sequence. -/
def final : LineEdit → UInt8
  | insert => 0x4C
  | delete => 0x4D

variable {s : Screen}

/-- Behind an escape byte the sequence completes the command, whatever the count is. -/
theorem feed_spelled (edit : LineEdit) (text : Array UInt8) (number : Option Decimal.Written) :
    (Parser.within text .inEscape []).feed (spelled number edit.final) =
      ([.control (edit.command (parameter 1 number))],
        Parser.within text .idle (spelled number edit.final)) := by
  cases edit with
  | insert => exact Parser.feed_spelled ControlSequence.reads_insertLines rfl text number
  | delete => exact Parser.feed_spelled ControlSequence.reads_deleteLines rfl text number

/-- The command does nothing but the edits. -/
theorem apply_command {L S : Type} [HostLink L] [Surface S] (edit : LineEdit) (count : Int)
    (e : Engine L S) :
    e.apply (.control (edit.command count)) = .ok (e.modifyScreen (edit.applyCount count.toNat)) := by
  cases edit <;> rfl

/-! ## Clipped counts -/

/-- Some rounds of an edit change memory only, always at the same row. -/
theorem repeat_apply (edit : LineEdit) (count : Nat) (s : Screen) :
    count.repeat edit.apply s =
      { s with memory := count.repeat (edit.applyRow s.cursorRow) s.memory } := by
  induction count with
  | zero => rfl
  | succ count ih =>
    rw [Nat.repeat, ih]
    cases edit <;> rfl

/-- A sequence with a count does as many rounds, also where it stops after fewer. -/
theorem repeat_clipped (edit : LineEdit) (count : Nat) (s : Screen) :
    edit.applyCount count s = count.repeat edit.apply s := by
  have hclip : edit.applyCount count s = (min count Screen.mostLines).repeat edit.apply s := by
    cases edit <;> rfl
  have hrows : (min count Screen.mostLines).repeat (edit.applyRow s.cursorRow) s.memory =
      count.repeat (edit.applyRow s.cursorRow) s.memory := by
    cases edit with
    | insert => exact s.memory.repeat_insertRow_clipped s.cursorRow count
    | delete => exact s.memory.repeat_deleteRow_clipped s.cursorRow count
  rw [hclip, repeat_apply, repeat_apply, hrows]

/-- Over one array no check fails in any round, and the clipped rounds lead to the same cells. -/
theorem times_flat (h : s.WellFormed) (edit : LineEdit) (count : Nat) :
    FlatScreen.times edit.applyFlat count s.flat = .ok (count.repeat edit.apply s).flat ∧
      edit.applyCountFlat count s.flat = .ok (count.repeat edit.apply s).flat := by
  rw [← repeat_clipped]
  cases edit with
  | insert =>
    refine ⟨?_, Screen.flat_insertLines h count⟩
    rw [repeat_clipped]
    exact Screen.flat_times (fun _ hs => Screen.flat_insertLine hs.toBounded)
      Screen.WellFormed.insertLine h count
  | delete =>
    refine ⟨?_, Screen.flat_deleteLines h count⟩
    rw [repeat_clipped]
    exact Screen.flat_times (fun _ hs => Screen.flat_deleteLine hs.toBounded)
      Screen.WellFormed.deleteLine h count

end LineEdit

end GraphicsTerminal
