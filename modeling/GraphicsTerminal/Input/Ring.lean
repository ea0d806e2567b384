/-!
# The input ring

Host bytes wait in a ring of cells between the transport and the protocol
loop.  One cell stays unused, so that equal positions mean an empty ring.
A byte pushed into a full ring takes the place of the oldest one; a byte put
back in front of a full ring takes the place of the newest one.  Both kinds of
loss are counted.

Main definitions:

- {lit}`Ring.toList`: the unread bytes, oldest first.
- {lit}`Ring.push`, {lit}`Ring.pop?`, {lit}`Ring.putBack`: the two ends.

Main results:

- Theorem {lit}`Ring.pop?_length`: a successful {lit}`pop?` leaves one byte
  fewer.
- Theorem {lit}`Ring.length_putBack_le`: putting a byte back adds at most one
  unread byte.
- Theorem {lit}`Ring.pop?_putBack`: a byte that was put back is the next one
  taken.
-/

namespace GraphicsTerminal

/-- A ring of cells with a reading and a writing position. -/
structure Ring where
  /-- The cells, read and written modulo their number. -/
  cells : Array UInt8
  /-- The cell of the oldest unread byte. -/
  readAt : Nat
  /-- The cell of the next byte to arrive. -/
  writeAt : Nat
  /-- The number of bytes lost so far. -/
  overruns : Nat
  two_le_size : 2 ≤ cells.size := by omega
  readAt_lt : readAt < cells.size := by omega
  writeAt_lt : writeAt < cells.size := by omega

namespace Ring

/-- The number of cells in the ring of a default session. -/
abbrev defaultCapacity : Nat := 4096

/-- An empty ring with the given number of cells, at least two. -/
def empty (capacity : Nat) : Ring where
  cells := Array.replicate (max capacity 2) 0
  readAt := 0
  writeAt := 0
  overruns := 0
  two_le_size := by simp only [Array.size_replicate]; omega
  readAt_lt := by simp only [Array.size_replicate]; omega
  writeAt_lt := by simp only [Array.size_replicate]; omega

/-! ## Positions -/

/-- The cell after a cell. -/
def after (size position : Nat) : Nat :=
  if position + 1 = size then 0 else position + 1

/-- The cell before a cell. -/
def before (size position : Nat) : Nat :=
  if position = 0 then size - 1 else position - 1

/-- The cell after a cell is a cell. -/
theorem after_lt {size position : Nat} (h : position < size) :
    after size position < size := by
  unfold after
  split <;> omega

/-- The cell before a cell is a cell. -/
theorem before_lt {size position : Nat} (h : position < size) :
    before size position < size := by
  unfold before
  split <;> omega

/-! ## Observations -/

/-- The number of cells, the unused one included. -/
def capacity (ring : Ring) : Nat := ring.cells.size

/-- The number of unread bytes. -/
def length (ring : Ring) : Nat :=
  (ring.writeAt + ring.cells.size - ring.readAt) % ring.cells.size

/-- Whether no byte is unread. -/
def isEmpty (ring : Ring) : Bool := ring.readAt == ring.writeAt

/-- Whether a byte is unread. -/
def hasData (ring : Ring) : Bool := !ring.isEmpty

/-- Whether the next push loses a byte. -/
def isFull (ring : Ring) : Bool := ring.length == ring.capacity - 1

/-- The number of bytes that can be pushed before one is lost. -/
def free (ring : Ring) : Nat := ring.capacity - 1 - ring.length

/-- The unread bytes, oldest first. -/
def toList (ring : Ring) : List UInt8 :=
  (List.range ring.length).map fun i =>
    ring.cells[(ring.readAt + i) % ring.cells.size]?.getD 0

/-- The oldest unread byte. -/
def peek? (ring : Ring) : Option UInt8 :=
  if ring.isEmpty then none else ring.cells[ring.readAt]?

/-! ## Operations -/

/-- Drop the oldest unread byte. -/
def skip (ring : Ring) : Ring :=
  { ring with
    readAt := after ring.cells.size ring.readAt
    two_le_size := ring.two_le_size
    readAt_lt := after_lt ring.readAt_lt
    writeAt_lt := ring.writeAt_lt }

/-- Write a byte into the cell at the writing position and move past it. -/
def store (ring : Ring) (b : UInt8) : Ring :=
  let next := after ring.cells.size ring.writeAt
  { ring with
    cells := ring.cells.setIfInBounds ring.writeAt b
    writeAt := next
    two_le_size := by simpa using ring.two_le_size
    readAt_lt := by simpa using ring.readAt_lt
    writeAt_lt := by simpa [next] using after_lt ring.writeAt_lt }

/-- Count one lost byte. -/
def countLoss (ring : Ring) : Ring :=
  { ring with
    overruns := ring.overruns + 1
    two_le_size := ring.two_le_size
    readAt_lt := ring.readAt_lt
    writeAt_lt := ring.writeAt_lt }

/-- Append a byte.  A full ring first loses its oldest byte, and the flag is
then false. -/
def push (ring : Ring) (b : UInt8) : Bool × Ring :=
  if ring.isFull then
    (false, (ring.skip.countLoss).store b)
  else
    (true, ring.store b)

/-- Append bytes in order, and count those that made an older byte be lost. -/
def extend (ring : Ring) : List UInt8 → Nat × Ring
  | [] => (0, ring)
  | b :: rest =>
    match ring.push b with
    | (true, ring) => ring.extend rest
    | (false, ring) =>
      let more := ring.extend rest
      (more.1 + 1, more.2)

/-- Take the oldest unread byte. -/
def pop? (ring : Ring) : Option (UInt8 × Ring) :=
  if ring.isEmpty then
    none
  else
    have := ring.readAt_lt
    some (ring.cells[ring.readAt], ring.skip)

/-- Forget the newest unread byte. -/
def dropNewest (ring : Ring) : Ring :=
  { ring with
    writeAt := before ring.cells.size ring.writeAt
    two_le_size := ring.two_le_size
    readAt_lt := ring.readAt_lt
    writeAt_lt := before_lt ring.writeAt_lt }

/-- Put a byte in front of the unread ones, in the cell before the oldest. -/
def storeFront (ring : Ring) (b : UInt8) : Ring :=
  let position := before ring.cells.size ring.readAt
  { ring with
    cells := ring.cells.setIfInBounds position b
    readAt := position
    two_le_size := by simpa using ring.two_le_size
    readAt_lt := by simpa [position] using before_lt ring.readAt_lt
    writeAt_lt := by simpa using ring.writeAt_lt }

/-- Put a byte back so that it is the next one taken.  A full ring first loses
its newest byte. -/
def putBack (ring : Ring) (b : UInt8) : Ring :=
  if ring.isFull then
    (ring.dropNewest.countLoss).storeFront b
  else
    ring.storeFront b

/-- Forget all unread bytes. -/
def clear (ring : Ring) : Ring :=
  { ring with
    readAt := ring.writeAt
    two_le_size := ring.two_le_size
    readAt_lt := ring.writeAt_lt
    writeAt_lt := ring.writeAt_lt }

/-! ## Lengths -/

/-- The number of unread bytes, by the order of the two positions. -/
theorem length_eq (ring : Ring) :
    ring.length =
      if ring.readAt ≤ ring.writeAt then ring.writeAt - ring.readAt
      else ring.writeAt + ring.cells.size - ring.readAt := by
  have hread := ring.readAt_lt
  have hwrite := ring.writeAt_lt
  unfold length
  split
  · rw [show ring.writeAt + ring.cells.size - ring.readAt =
        ring.writeAt - ring.readAt + ring.cells.size by omega,
      Nat.add_mod_right, Nat.mod_eq_of_lt (by omega)]
  · exact Nat.mod_eq_of_lt (by omega)

/-- A ring holds fewer bytes than it has cells. -/
theorem length_lt_capacity (ring : Ring) : ring.length < ring.capacity :=
  Nat.mod_lt _ (Nat.lt_of_lt_of_le Nat.zero_lt_two ring.two_le_size)

/-- A successful {lit}`pop?` leaves one byte fewer. -/
theorem pop?_length {ring next : Ring} {b : UInt8} (h : ring.pop? = some (b, next)) :
    next.length + 1 = ring.length := by
  unfold pop? at h
  simp only [Option.ite_none_left_eq_some, Option.some.injEq, Prod.mk.injEq] at h
  obtain ⟨hne, -, rfl⟩ := h
  have hread := ring.readAt_lt
  have hwrite := ring.writeAt_lt
  have hne' : ring.readAt ≠ ring.writeAt := by simpa [isEmpty] using hne
  rw [length_eq, length_eq]
  simp only [skip, after]
  repeat' split
  all_goals omega

/-- Putting a byte back adds at most one unread byte. -/
theorem length_putBack_le (ring : Ring) (b : UInt8) :
    (ring.putBack b).length ≤ ring.length + 1 := by
  have hread := ring.readAt_lt
  have hwrite := ring.writeAt_lt
  have hsize := ring.two_le_size
  unfold putBack
  split
  · rename_i hfull
    simp only [isFull, capacity, beq_iff_eq] at hfull
    have hlt := (ring.dropNewest.countLoss.storeFront b).length_lt_capacity
    simp only [capacity, storeFront, countLoss, dropNewest,
      Array.size_setIfInBounds] at hlt
    simp only [storeFront, countLoss, dropNewest]
    omega
  · rename_i hfull
    rw [length_eq, length_eq]
    simp only [isFull, capacity, beq_iff_eq, length_eq] at hfull
    simp only [storeFront, before, Array.size_setIfInBounds]
    repeat' split
    all_goals omega

/-- A byte that was put back is the next one taken. -/
theorem pop?_putBack (ring : Ring) (b : UInt8) :
    ∃ next, (ring.putBack b).pop? = some (b, next) := by
  have hread := ring.readAt_lt
  have hwrite := ring.writeAt_lt
  have hsize := ring.two_le_size
  unfold putBack
  split
  · rename_i hfull
    simp only [isFull, capacity, beq_iff_eq, length_eq] at hfull
    have hne : before ring.cells.size ring.readAt ≠
        before ring.cells.size ring.writeAt := by
      grind [before]
    simp [pop?, isEmpty, storeFront, countLoss, dropNewest, hne]
  · rename_i hfull
    simp only [isFull, capacity, beq_iff_eq, length_eq] at hfull
    have hne : before ring.cells.size ring.readAt ≠ ring.writeAt := by
      grind [before]
    simp [pop?, isEmpty, storeFront, hne]

end Ring

end GraphicsTerminal
