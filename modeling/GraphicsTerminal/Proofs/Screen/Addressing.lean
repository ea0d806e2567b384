import Mathlib.Algebra.Ring.Int.Defs
import Mathlib.Algebra.Ring.Nat
import Mathlib.Tactic.SplitIfs
import GraphicsTerminal.Engine.Apply

/-!
# Where cursor addresses lead

The terms of a cursor address are followed from the place of the cursor in memory.  A term by
value replaces its coordinate, a term by distance is added to it, and rows of the view are
counted from the top row that was in view before.  The cursor is put on the cell of memory that
is nearest to where the exact sums lead.  The view moves only to show that cell, and nothing
else changes.

Main definitions:

- {lit}`AddressTerm.rowAfter`, {lit}`AddressTerm.columnAfter`: what one term makes of a row of
  memory and of a column.
- {lit}`Screen.atPlace`: the screen with another part of memory in view and the cursor elsewhere.

Main results:

- Theorem {lit}`AddressTerm.follow_eq`: rows and columns are followed by themselves.
- Theorem {lit}`AddressTerm.foldl_within`: the sums of an address grow by a word a term.
- Theorem {lit}`Screen.exists_placeInMemory`: the cursor is put on the nearest row of memory.
- Theorem {lit}`Screen.address_nearest`: an address leads to the cell that is nearest to its
  exact sums.
-/

namespace GraphicsTerminal

/-- Saturation changes no nearest value of a range of words. -/
theorem Word.clamp_saturate {low high : Int} (hlow : least ≤ low) (hle : low ≤ high)
    (hhigh : high ≤ greatest) (v : Int) : clamp low high (saturate v) = clamp low high v := by
  simp only [saturate, clamp, least, greatest] at *
  omega

/-! ## Following terms -/

namespace AddressTerm

/-- The row of memory to which a term leads from a row, when the given row is at the top of the
view. -/
def rowAfter (topRow : Nat) (row : Int) (t : AddressTerm) : Int :=
  match t.axis, t.relative with
  | .memoryRow, false => t.value
  | .screenRow, false => topRow + t.value
  | .memoryRow, true => row + t.value
  | .screenRow, true => row + t.value
  | .column, _ => row

/-- The column to which a term leads from a column. -/
def columnAfter (column : Int) (t : AddressTerm) : Int :=
  match t.axis, t.relative with
  | .column, false => t.value
  | .column, true => column + t.value
  | _, _ => column

/-- The value of the term is a word. -/
def IsWord (t : AddressTerm) : Prop := Word.least ≤ t.value ∧ t.value ≤ Word.greatest

instance (t : AddressTerm) : Decidable t.IsWord := instDecidableAnd

/-- Rows and columns are followed by themselves. -/
theorem follow_eq (topRow : Nat) (terms : List AddressTerm) (row column : Int) :
    follow topRow terms row column =
      (terms.foldl (rowAfter topRow) row, terms.foldl columnAfter column) := by
  induction terms generalizing row column with
  | nil => rfl
  | cons t terms ih =>
    obtain ⟨axis, value, relative⟩ := t
    rw [List.foldl_cons, List.foldl_cons, ← ih]
    cases axis <;> cases relative <;> simp [follow, rowAfter, columnAfter, Int.add_comm]

/-! ### The size of the sums -/

/-- The value lies between a bound and its negation. -/
def Within (bound v : Int) : Prop := -bound ≤ v ∧ v ≤ bound

/-- One more than the greatest word. -/
abbrev span : Int := 2147483648

theorem within_rowAfter {topRow : Nat} {bound row : Int} {t : AddressTerm} (ht : t.IsWord)
    (htop : topRow ≤ bound) (hrow : Within bound row) :
    Within (bound + span) (rowAfter topRow row t) := by
  obtain ⟨axis, value, relative⟩ := t
  simp only [IsWord, Within, Word.least, Word.greatest, span] at *
  cases axis <;> cases relative <;> simp only [rowAfter] <;> omega

theorem within_columnAfter {bound column : Int} {t : AddressTerm} (ht : t.IsWord)
    (hcolumn : Within bound column) : Within (bound + span) (columnAfter column t) := by
  obtain ⟨axis, value, relative⟩ := t
  simp only [IsWord, Within, Word.least, Word.greatest, span] at *
  cases axis <;> cases relative <;> simp only [columnAfter] <;> omega

/-- Where every term adds a word at most, the sums stay below the words of all terms. -/
theorem foldl_within {f : Int → AddressTerm → Int} {least bound start : Int}
    (hf : ∀ {bound v : Int} {t : AddressTerm}, t.IsWord → least ≤ bound → Within bound v →
      Within (bound + span) (f v t))
    {terms : List AddressTerm} (hwords : ∀ t ∈ terms, t.IsWord) (hbound : least ≤ bound)
    (hstart : Within bound start) : Within (bound + span * terms.length) (terms.foldl f start) := by
  induction terms generalizing bound start with
  | nil => simpa using hstart
  | cons t terms ih =>
    have hnow : Within (bound + span) (f start t) := hf (hwords t (.head terms)) hbound hstart
    have hlater := ih (fun t' ht' => hwords t' (.tail t ht')) (by simp only [span]; omega) hnow
    have hsum : bound + span + span * terms.length = bound + span * (t :: terms).length := by
      simp only [List.length_cons, span]
      omega
    rwa [hsum] at hlater

end AddressTerm

/-! ## Placing the cursor -/

namespace Screen

/-- The screen with another part of memory in view and the cursor at another place. -/
def atPlace (s : Screen) (topRow row column : Nat) : Screen :=
  { s with topRow := topRow, cursor := { s.cursor with column := column, row := row } }

/-- The row of memory is in view. -/
def Shows (s : Screen) (row : Nat) : Prop := s.topRow ≤ row ∧ row < s.topRow + viewRows

variable {s : Screen}

/-- The nearest position is the number itself, clamped. -/
theorem natCast_nearest {limit : Nat} (hlimit : 0 < limit) (v : Int) :
    (nearest limit v : Int) = Word.clamp 0 (limit - 1) v := by
  simp only [nearest, Word.clamp]
  omega

theorem nearest_saturate {limit : Nat} (hlimit : 0 < limit) (hle : limit ≤ 2 ^ 31) (v : Int) :
    nearest limit (Word.saturate v) = nearest limit v := by
  rw [nearest, Word.clamp_saturate (by simp) (by omega) (by simp only [Word.greatest]; omega)]
  rfl

/-- A view that shows the nearest row of memory takes the cursor to it. -/
theorem topRow_add_nearest {topRow : Nat} {row : Int} (htop : topRow ≤ greatestTopRow)
    (hlow : topRow ≤ nearest memoryRows row)
    (hhigh : nearest memoryRows row < topRow + viewRows) :
    topRow + nearest viewRows (row - topRow) = nearest memoryRows row := by
  simp only [greatestTopRow, nearest, Word.clamp, memoryRows, viewRows] at *
  omega

/-- However the view moves, it shows the row of memory that is nearest to the one asked for, and
it does not move if it showed that row before. -/
theorem exists_placeInMemory (htop : s.topRow ≤ greatestTopRow) (row column : Int) :
    ∃ topRow, s.placeInMemory row column =
        s.atPlace topRow (nearest viewRows (row - topRow)) (nearest columns column) ∧
      topRow + nearest viewRows (row - topRow) = nearest memoryRows row ∧
      (s.Shows (nearest memoryRows row) → topRow = s.topRow) := by
  rw [placeInMemory]
  have hplaced {topRow : Nat} (hle : topRow ≤ greatestTopRow)
      (hlow : topRow ≤ nearest memoryRows row)
      (hhigh : nearest memoryRows row < topRow + viewRows)
      (hkept : s.Shows (nearest memoryRows row) → topRow = s.topRow) :
      ∃ topRow', { s with topRow := topRow }.placeInView (row - topRow) column =
          s.atPlace topRow' (nearest viewRows (row - topRow')) (nearest columns column) ∧
        topRow' + nearest viewRows (row - topRow') = nearest memoryRows row ∧
        (s.Shows (nearest memoryRows row) → topRow' = s.topRow) :=
    ⟨topRow, rfl, topRow_add_nearest hle hlow hhigh, hkept⟩
  have hnearest := natCast_nearest (show 0 < memoryRows by decide) row
  simp only [viewUp, viewDown, greatestTopRow, Word.clamp, Shows, memoryRows, viewRows]
    at htop hplaced hnearest ⊢
  split_ifs with hup hdown
  · apply hplaced <;> omega
  · apply hplaced <;> omega
  · apply hplaced <;> omega

/-! ## Following an address -/

/-- A cursor address leads to the cell of memory that is nearest to its exact sums, and the view
moves only if it does not show that cell. -/
theorem exists_address_atPlace (htop : s.topRow ≤ greatestTopRow) (terms : List AddressTerm) :
    ∃ topRow row, s.address terms =
        s.atPlace topRow row
          (nearest columns (terms.foldl AddressTerm.columnAfter s.cursor.column)) ∧
      topRow + row =
        nearest memoryRows (terms.foldl (AddressTerm.rowAfter s.topRow) s.cursorRow) ∧
      (s.Shows (nearest memoryRows (terms.foldl (AddressTerm.rowAfter s.topRow) s.cursorRow)) →
        topRow = s.topRow) := by
  rw [address, AddressTerm.follow_eq]
  generalize terms.foldl (AddressTerm.rowAfter s.topRow) s.cursorRow = row
  generalize terms.foldl AddressTerm.columnAfter s.cursor.column = column
  obtain ⟨topRow, hplaced, hsum, hkept⟩ :=
    exists_placeInMemory htop (Word.saturate row) (Word.saturate column)
  rw [nearest_saturate (by decide) (by decide)] at hplaced hsum hkept
  exact ⟨topRow, _, hplaced, hsum, hkept⟩

/-- The sums of fewer terms than there are words above zero fit into 64 bits. -/
theorem within_long {f : Int → AddressTerm → Int} {start : Int} {terms front : List AddressTerm}
    (hf : ∀ {bound v : Int} {t : AddressTerm}, t.IsWord → memoryRows ≤ bound →
      AddressTerm.Within bound v → AddressTerm.Within (bound + AddressTerm.span) (f v t))
    (hwords : ∀ t ∈ terms, t.IsWord) (hlength : terms.length < 2 ^ 31)
    (hstart : AddressTerm.Within memoryRows start) (hfront : front <+: terms) :
    AddressTerm.Within (2 ^ 63 - 1) (front.foldl f start) := by
  have hsum := AddressTerm.foldl_within hf (fun t ht => hwords t (hfront.subset ht))
    (Int.le_refl _) hstart
  have hle := hfront.length_le
  simp only [AddressTerm.Within, AddressTerm.span, memoryRows] at hsum ⊢
  omega

/-- A cursor address of fewer than 2^31 terms is exact and clamped: it leads to the row and the
column of memory that are nearest to the integers that its terms lead to, and 64 bits hold all
sums on the way.  The view does not move if it showed that row before, and nothing but the view
and the place of the cursor changes. -/
theorem address_nearest (hs : s.Bounded) {terms : List AddressTerm}
    (hwords : ∀ t ∈ terms, t.IsWord) (hlength : terms.length < 2 ^ 31) :
    let row := Word.clamp 0 (memoryRows - 1)
      (terms.foldl (AddressTerm.rowAfter s.topRow) s.cursorRow)
    let column := Word.clamp 0 (columns - 1)
      (terms.foldl AddressTerm.columnAfter s.cursor.column)
    let addressed := s.address terms
    addressed.cursorRow = row ∧ addressed.cursor.column = column ∧
      (s.topRow ≤ row ∧ row < s.topRow + viewRows → addressed.topRow = s.topRow) ∧
      addressed.memory = s.memory ∧
      addressed = s.atPlace addressed.topRow addressed.cursor.row addressed.cursor.column ∧
      ∀ front, front <+: terms →
        AddressTerm.Within (2 ^ 63 - 1)
            (front.foldl (AddressTerm.rowAfter s.topRow) s.cursorRow) ∧
          AddressTerm.Within (2 ^ 63 - 1)
            (front.foldl AddressTerm.columnAfter s.cursor.column) := by
  intro row column addressed
  obtain ⟨topRow, viewRow, hplaced, hsum, hkept⟩ := exists_address_atPlace hs.topRow_le terms
  have hrow : (nearest memoryRows _ : Int) = row := natCast_nearest (by decide) _
  have hcolumn : (nearest columns _ : Int) = column := natCast_nearest (by decide) _
  have htop := hs.topRow_le
  have hcursor := hs.row_lt
  have hside := hs.column_lt
  simp only [greatestTopRow, memoryRows, viewRows, columns] at htop hcursor hside
  refine ⟨?_, ?_, ?_, ?_, ?_, fun front hfront => ⟨?_, ?_⟩⟩
  · simp only [addressed, hplaced]
    rw [← hrow, ← hsum]
    rfl
  · simp only [addressed, hplaced]
    exact hcolumn
  · simp only [addressed, hplaced, ← hrow]
    rintro ⟨hlow, hhigh⟩
    exact hkept ⟨Int.ofNat_le.1 hlow, Int.ofNat_lt.1 hhigh⟩
  · simp only [addressed, hplaced]
    rfl
  · simp only [addressed, hplaced]
    rfl
  · refine within_long (fun ht hle => AddressTerm.within_rowAfter ht ?_) hwords hlength ?_ hfront
    · simp only [memoryRows] at hle
      omega
    · simp only [AddressTerm.Within, cursorRow, memoryRows]
      omega
  · refine within_long (fun ht _ => AddressTerm.within_columnAfter ht) hwords hlength ?_ hfront
    simp only [AddressTerm.Within, memoryRows]
    omega

/-- Distances far beyond the last column, and a row that is in view. -/
theorem address_nearest_beyond :
    let s := initial.atPlace 40 5 10
    let terms : List AddressTerm :=
      [⟨.column, 2147483647, true⟩, ⟨.column, 2147483647, true⟩, ⟨.memoryRow, 60, false⟩,
        ⟨.screenRow, -3, true⟩]
    s.Bounded ∧ (∀ t ∈ terms, t.IsWord) ∧ terms.length < 2 ^ 31 ∧
      (s.address terms).cursorRow = 57 ∧ (s.address terms).cursor.column = 79 ∧
      (s.address terms).topRow = 40 ∧ (s.address terms).memory = Memory.blank := by
  intro s terms
  have hs : s.Bounded :=
    { initial_bounded with topRow_le := by decide, column_lt := by decide, row_lt := by decide }
  have hwords : ∀ t ∈ terms, t.IsWord := by decide
  obtain ⟨hrow, hcolumn, hkept, hmemory, -⟩ := address_nearest hs hwords (by decide)
  exact ⟨hs, hwords, by decide, Int.ofNat_inj.1 hrow, Int.ofNat_inj.1 hcolumn,
    hkept (by decide), hmemory⟩

end Screen

end GraphicsTerminal
