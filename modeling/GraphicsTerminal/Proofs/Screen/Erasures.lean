import GraphicsTerminal.Proofs.Protocol.Parameters
import GraphicsTerminal.Proofs.Screen.Addressing
import GraphicsTerminal.Proofs.Screen.CharacterEdits

/-!
# Erasures

An erasure is asked for by a range that depends on the cursor and the view.  The range is given
here by rows and columns of memory, and the cells in it are exactly those that become empty.
From this follows what several erasures do together, since the cells after an erasure are known
one by one.

Main definitions:

- {lit}`Erasure`: the erasures that the host can ask for.
- {lit}`Erasure.Spells`: the byte strings that ask for one.
- {lit}`Erasure.Covers`: the cells that one is to empty.
- {lit}`Screen.Emptied`: exactly some cells are emptied, and nothing else changes.

Main results:

- Theorem {lit}`Screen.eraseRange_emptied`: a range of cell numbers.
- Theorems {lit}`Screen.Emptied.trans` and {lit}`Screen.Emptied.unique`: two erasures one after
  the other, and two with the same cells.
- Theorem {lit}`Erasure.emptied`: every erasure empties the cells that it covers.
- Theorem {lit}`Erasure.erase_parts`: both parts of the view or of the line.
- Theorem {lit}`Erasure.flat_erase`: the same over one array.
-/

namespace GraphicsTerminal

/-! ## Exactly some cells -/

namespace Memory

/-- Cell numbers are in the order of rows, and of columns within a row. -/
theorem cellNumber_le_iff {row row' column column' : Nat} (hcolumn : column < columns)
    (hcolumn' : column' < columns) :
    cellNumber row column ≤ cellNumber row' column' ↔
      row < row' ∨ row = row' ∧ column ≤ column' := by
  simp only [cellNumber, columns] at *
  omega

theorem cell?_of_outside (m : Memory) {row column : Nat}
    (h : ¬ (row < memoryRows ∧ column < columns)) : m.cell? row column = none := by
  by_cases hcolumn : column < columns
  · have hrow : memoryRows ≤ row := Nat.not_lt.1 fun hrow => h ⟨hrow, hcolumn⟩
    rw [cell?, Vector.getElem?_eq_none hrow]
    rfl
  · exact m.cell?_eq_none row (Nat.not_lt.1 hcolumn)

end Memory

namespace Screen

/-- Exactly the cells at some rows and columns of memory are emptied, and nothing else
changes. -/
structure Emptied (s t : Screen) (covers : Nat → Nat → Prop) : Prop where
  rest_eq : t = { s with memory := t.memory }
  empty : ∀ row column, row < memoryRows → column < columns → covers row column →
    t.memory.cell? row column = some .empty
  kept : ∀ row column, ¬ covers row column →
    t.memory.cell? row column = s.memory.cell? row column

variable {s t t' u : Screen} {covers covers' : Nat → Nat → Prop}

/-- The cells with the numbers of a range. -/
def InRange (first last row column : Nat) : Prop :=
  first ≤ Memory.cellNumber row column ∧ Memory.cellNumber row column ≤ last

/-- An erasure by cell numbers empties the cells with these numbers. -/
theorem eraseRange_emptied (s : Screen) (first last : Nat) :
    s.Emptied (s.eraseRange first last) (InRange first last) where
  rest_eq := rfl
  empty := by
    intro row column hrow hcolumn hin
    rw [Memory.cell?_eq_some _ hrow hcolumn, eraseRange, Memory.getElem_eraseRange _ _ _ hrow hcolumn]
    exact congrArg some (if_pos hin)
  kept := by
    intro row column hout
    by_cases hinside : row < memoryRows ∧ column < columns
    · obtain ⟨hrow, hcolumn⟩ := hinside
      rw [Memory.cell?_eq_some _ hrow hcolumn, Memory.cell?_eq_some _ hrow hcolumn, eraseRange,
        Memory.getElem_eraseRange _ _ _ hrow hcolumn]
      exact congrArg some (if_neg hout)
    · rw [Memory.cell?_of_outside _ hinside, Memory.cell?_of_outside _ hinside]

namespace Emptied

/-- Only rows and columns of memory matter. -/
theorem congr (h : s.Emptied t covers)
    (hiff : ∀ row column, row < memoryRows → column < columns →
      (covers row column ↔ covers' row column)) : s.Emptied t covers' where
  rest_eq := h.rest_eq
  empty := by
    intro row column hrow hcolumn hcovers
    exact h.empty row column hrow hcolumn ((hiff row column hrow hcolumn).2 hcovers)
  kept := by
    intro row column hcovers
    by_cases hinside : row < memoryRows ∧ column < columns
    · exact h.kept row column fun hcovered =>
        hcovers ((hiff row column hinside.1 hinside.2).1 hcovered)
    · rw [Memory.cell?_of_outside _ hinside, Memory.cell?_of_outside _ hinside]

/-- After two erasures the cells of both are empty. -/
theorem trans (h : s.Emptied t covers) (h' : t.Emptied u covers') :
    s.Emptied u fun row column => covers row column ∨ covers' row column where
  rest_eq := by
    rw [h'.rest_eq, h.rest_eq]
  empty := by
    intro row column hrow hcolumn hcovers
    by_cases hlater : covers' row column
    · exact h'.empty row column hrow hcolumn hlater
    · rw [h'.kept row column hlater]
      exact h.empty row column hrow hcolumn (hcovers.resolve_right hlater)
  kept := by
    intro row column hcovers
    rw [h'.kept row column fun hlater => hcovers (.inr hlater),
      h.kept row column fun hnow => hcovers (.inl hnow)]

/-- The cells that are emptied say what is left. -/
theorem unique (h : s.Emptied t covers) (h' : s.Emptied t' covers) : t = t' := by
  have hmemory : t.memory = t'.memory := by
    apply Vector.ext
    intro row hrow
    apply Vector.ext
    intro column hcolumn
    have hcell : t.memory.cell? row column = t'.memory.cell? row column := by
      by_cases hcovers : covers row column
      · rw [h.empty row column hrow hcolumn hcovers, h'.empty row column hrow hcolumn hcovers]
      · rw [h.kept row column hcovers, h'.kept row column hcovers]
    rw [Memory.cell?_eq_some _ hrow hcolumn, Memory.cell?_eq_some _ hrow hcolumn] at hcell
    exact Option.some.inj hcell
  rw [h.rest_eq, h'.rest_eq, hmemory]

end Emptied

/-- An erasure between two places empties the cells between them. -/
theorem emptied_between (s : Screen) {row column row' column' : Nat} (hcolumn : column < columns)
    (hcolumn' : column' < columns)
    (hiff : ∀ r c, r < memoryRows → c < columns →
      ((row < r ∨ row = r ∧ column ≤ c) ∧ (r < row' ∨ r = row' ∧ c ≤ column') ↔ covers r c)) :
    s.Emptied
      (s.eraseRange (Memory.cellNumber row column) (Memory.cellNumber row' column')) covers := by
  refine (s.eraseRange_emptied _ _).congr fun r c hr hc => ?_
  rw [InRange, Memory.cellNumber_le_iff hcolumn hc, Memory.cellNumber_le_iff hc hcolumn']
  exact hiff r c hr hc

/-! ## Places -/

/-- A cell is that under the cursor, or stands behind it. -/
def FromCursor (s : Screen) (row column : Nat) : Prop :=
  s.cursorRow < row ∨ row = s.cursorRow ∧ s.cursor.column ≤ column

/-- A cell is that under the cursor, or stands in front of it. -/
def UpToCursor (s : Screen) (row column : Nat) : Prop :=
  row < s.cursorRow ∨ row = s.cursorRow ∧ column ≤ s.cursor.column

end Screen

/-! ## Erasures of the host -/

/-- A part of the view or of the line. -/
inductive Part where
  | fromCursor
  | upToCursor
  | whole
deriving DecidableEq, Repr

namespace Part

/-- The selector of a part. -/
def selector : Part → Int
  | fromCursor => 0
  | upToCursor => 1
  | whole => 2

/-- The cells of a part. -/
def Covers (s : Screen) : Part → Nat → Nat → Prop
  | fromCursor => s.FromCursor
  | upToCursor => s.UpToCursor
  | whole => fun _ _ => True

end Part

/-- The erasures that the host can ask for. -/
inductive Erasure where
  /-- From the cursor to the end of memory. -/
  | memoryRest
  /-- From the cursor to the end of the line. -/
  | lineRest
  | view (part : Part)
  | line (part : Part)
  /-- As many cells of the line from the cursor on as a count says, and at least one. -/
  | chars (count : Int)
deriving DecidableEq, Repr

namespace Erasure

open ControlSequence (spelled parameter)

/-- The action that asks for an erasure. -/
def action : Erasure → Action
  | memoryRest => .single .clearToEndOfMemory
  | lineRest => .single .clearToEndOfLine
  | view part => .control (.eraseInDisplay part.selector)
  | line part => .control (.eraseInLine part.selector)
  | chars count => .control (.eraseChars count)

/-- The byte strings that ask for an erasure behind an escape byte. -/
inductive Spells : Erasure → List UInt8 → Prop
  | memoryRest : Spells memoryRest [0x4A]
  | lineRest : Spells lineRest [0x4B]
  | view {part : Part} {number : Option Decimal.Written}
      (hpart : parameter 0 number = part.selector) : Spells (view part) (spelled number 0x4A)
  | line {part : Part} {number : Option Decimal.Written}
      (hpart : parameter 0 number = part.selector) : Spells (line part) (spelled number 0x4B)
  | chars (number : Option Decimal.Written) :
      Spells (chars (parameter 1 number)) (spelled number 0x58)

/-- What an erasure does to the screen. -/
def erase : Erasure → Screen → Screen
  | memoryRest => Screen.eraseToMemoryEnd
  | lineRest => Screen.eraseToLineEnd
  | view .fromCursor => Screen.eraseToViewEnd
  | view .upToCursor => Screen.eraseToViewStart
  | view .whole => Screen.eraseView
  | line .fromCursor => Screen.eraseToLineEnd
  | line .upToCursor => Screen.eraseToLineStart
  | line .whole => Screen.eraseLine
  | chars count => fun s => s.eraseChars count.toNat

/-- The same over one array. -/
def eraseFlat : Erasure → FlatScreen → Except AddressFault FlatScreen
  | memoryRest => fun s => do s.clearRange s.cursorCell (← FlatScreen.memoryEnd)
  | lineRest => fun s => do s.clearRange s.cursorCell (← s.lineEnd)
  | view .fromCursor => fun s => do s.clearRange s.cursorCell (← s.viewEnd)
  | view .upToCursor => fun s => s.clearRange s.viewStart s.cursorCell
  | view .whole => fun s => do s.clearRange s.viewStart (← s.viewEnd)
  | line .fromCursor => fun s => do s.clearRange s.cursorCell (← s.lineEnd)
  | line .upToCursor => fun s => s.clearRange s.lineStart s.cursorCell
  | line .whole => FlatScreen.clearLine
  | chars count => fun s => s.clearChars count.toNat

/-- The cells that an erasure is to empty, by their rows and columns of memory. -/
def Covers (s : Screen) : Erasure → Nat → Nat → Prop
  | memoryRest, row, column => s.FromCursor row column
  | lineRest, row, column => row = s.cursorRow ∧ s.cursor.column ≤ column
  | view part, row, column => s.Shows row ∧ part.Covers s row column
  | line part, row, column => row = s.cursorRow ∧ part.Covers s row column
  | chars count, row, column =>
    row = s.cursorRow ∧ s.cursor.column ≤ column ∧
      (column : Int) < s.cursor.column + max count 1

/-- Behind an escape byte such a byte string completes the action. -/
theorem feed_of_spells {erasure : Erasure} {bytes : List UInt8} (h : erasure.Spells bytes)
    (text : Array UInt8) :
    (Parser.within text .inEscape []).feed bytes =
      ([erasure.action], Parser.within text .idle bytes) := by
  cases h with
  | memoryRest => rfl
  | lineRest => rfl
  | view hpart =>
    rw [Parser.feed_spelled ControlSequence.reads_eraseInDisplay rfl, hpart]
    rfl
  | line hpart =>
    rw [Parser.feed_spelled ControlSequence.reads_eraseInLine rfl, hpart]
    rfl
  | chars number => exact Parser.feed_spelled ControlSequence.reads_eraseChars rfl text number

/-- The action of an erasure does nothing but that erasure. -/
theorem apply_action {L S : Type} [HostLink L] [Surface S] (erasure : Erasure)
    (e : Engine L S) : e.apply erasure.action = .ok (e.modifyScreen erasure.erase) := by
  cases erasure with
  | view part => cases part <;> rfl
  | line part => cases part <;> rfl
  | _ => rfl

/-! ## Cell by cell -/

variable {s : Screen}

/-- Every erasure empties exactly the cells that it covers. -/
theorem emptied (h : s.Bounded) (erasure : Erasure) :
    s.Emptied (erasure.erase s) (erasure.Covers s) := by
  have hcursor := h.column_lt
  have hrow := h.row_lt
  have hplace : s.cursorRow = s.topRow + s.cursor.row := rfl
  have hfirst : 0 < columns := by decide
  have hlast : columns - 1 < columns := by decide
  -- In every case it is left to compare a row and a column with the two ends of a range.
  cases erasure with
  | memoryRest =>
    refine s.emptied_between hcursor hlast fun r c hr hc => ?_
    simp only [Covers, Screen.FromCursor, memoryRows, columns] at *
    omega
  | lineRest =>
    refine s.emptied_between hcursor hlast fun r c hr hc => ?_
    simp only [Covers, columns] at *
    omega
  | view part =>
    cases part with
    | fromCursor =>
      refine s.emptied_between hcursor hlast fun r c hr hc => ?_
      simp only [Covers, Part.Covers, Screen.FromCursor, Screen.Shows, viewRows, columns] at *
      omega
    | upToCursor =>
      refine s.emptied_between hfirst hcursor fun r c hr hc => ?_
      simp only [Covers, Part.Covers, Screen.UpToCursor, Screen.Shows, viewRows, columns] at *
      omega
    | whole =>
      refine s.emptied_between hfirst hlast fun r c hr hc => ?_
      simp only [Covers, Part.Covers, Screen.Shows, and_true, viewRows, columns] at *
      omega
  | line part =>
    cases part with
    | fromCursor =>
      refine s.emptied_between hcursor hlast fun r c hr hc => ?_
      simp only [Covers, Part.Covers, Screen.FromCursor, columns] at *
      omega
    | upToCursor =>
      refine s.emptied_between hfirst hcursor fun r c hr hc => ?_
      simp only [Covers, Part.Covers, Screen.UpToCursor, columns] at *
      omega
    | whole =>
      refine s.emptied_between hfirst hlast fun r c hr hc => ?_
      simp only [Covers, Part.Covers, and_true, columns] at *
      omega
  | chars count =>
    refine (s.eraseRange_emptied s.cursorCell _).congr fun r c hr hc => ?_
    simp only [Covers, Screen.InRange, Screen.cursorCell, Screen.lineEnd, Memory.cellNumber,
      columns] at *
    omega

/-! ## Several erasures -/

/-- What an erasure covers depends on the cursor and the view only. -/
theorem covers_withMemory (erasure : Erasure) (s : Screen) (m : Memory) :
    erasure.Covers { s with memory := m } = erasure.Covers s := by
  cases erasure with
  | view part => cases part <;> rfl
  | line part => cases part <;> rfl
  | _ => rfl

/-- Two erasures that cover the cells of a third one do what it does. -/
theorem erase_erase (h : s.Bounded) {first second both : Erasure}
    (hcovers : ∀ row column, first.Covers s row column ∨ second.Covers s row column ↔
      both.Covers s row column) :
    second.erase (first.erase s) = both.erase s := by
  have hfirst := emptied h first
  have hsecond : (first.erase s).Emptied (second.erase (first.erase s)) (second.Covers s) := by
    have hbounded : (first.erase s).Bounded := by
      rw [hfirst.rest_eq]
      exact h.withMemory _
    have hsame : second.Covers (first.erase s) = second.Covers s := by
      rw [hfirst.rest_eq]
      exact second.covers_withMemory s _
    rw [← hsame]
    exact emptied hbounded second
  refine (hfirst.trans hsecond).unique ((emptied h both).congr fun row column _ _ => ?_)
  exact (hcovers row column).symm

/-- Up to the cursor and from the cursor on are all cells. -/
theorem covers_parts (s : Screen) (row column : Nat) :
    Part.Covers s .upToCursor row column ∨ Part.Covers s .fromCursor row column := by
  simp only [Part.Covers, Screen.FromCursor, Screen.UpToCursor]
  omega

/-- Two parts make up the whole, in either order. -/
theorem erase_parts (h : s.Bounded) (region : Part → Erasure) (place : Nat → Prop)
    (hregion : ∀ part row column,
      (region part).Covers s row column ↔ place row ∧ part.Covers s row column) :
    (region .fromCursor).erase ((region .upToCursor).erase s) = (region .whole).erase s ∧
      (region .upToCursor).erase ((region .fromCursor).erase s) = (region .whole).erase s := by
  have hwhole (row column : Nat) : (region .whole).Covers s row column ↔ place row :=
    (hregion .whole row column).trans (and_iff_left trivial)
  constructor
  · refine erase_erase h fun row column => ?_
    rw [hregion, hregion, hwhole, ← and_or_left]
    exact and_iff_left (covers_parts s row column)
  · refine erase_erase h fun row column => ?_
    rw [hregion, hregion, hwhole, ← and_or_left]
    exact and_iff_left (covers_parts s row column).symm

/-! ## Over one array -/

/-- No check of an erasure fails over one array, and it does there what it does to rows. -/
theorem flat_erase (erasure : Erasure) (s : Screen) :
    erasure.eraseFlat s.flat = .ok (erasure.erase s).flat := by
  have hstart : s.flat.viewStart = s.viewStart := rfl
  have hclear := s.flat_clearRange
  cases erasure with
  | memoryRest =>
    simp only [eraseFlat, Screen.flat_memoryEnd, Screen.flat_cursorCell, bind, Except.bind]
    exact hclear _ _
  | lineRest =>
    simp only [eraseFlat, Screen.flat_lineEnd, Screen.flat_cursorCell, bind, Except.bind]
    exact hclear _ _
  | view part =>
    cases part with
    | fromCursor =>
      simp only [eraseFlat, Screen.flat_viewEnd, Screen.flat_cursorCell, bind, Except.bind]
      exact hclear _ _
    | upToCursor =>
      simp only [eraseFlat, hstart, Screen.flat_cursorCell]
      exact hclear _ _
    | whole =>
      simp only [eraseFlat, hstart, Screen.flat_viewEnd, bind, Except.bind]
      exact hclear _ _
  | line part =>
    cases part with
    | fromCursor =>
      simp only [eraseFlat, Screen.flat_lineEnd, Screen.flat_cursorCell, bind, Except.bind]
      exact hclear _ _
    | upToCursor =>
      simp only [eraseFlat, Screen.flat_lineStart, Screen.flat_cursorCell]
      exact hclear _ _
    | whole => exact s.flat_clearLine
  | chars count => exact s.flat_clearChars count.toNat

end Erasure

end GraphicsTerminal
