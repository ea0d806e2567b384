import GraphicsTerminal.Proofs.Input.Accounting

/-!
# The ring is a bounded deque

Whoever uses the ring sees a list of bytes that never grows beyond a bound.  Bytes
join it at either end and leave it at the front; when there is no room, a byte at the
other end gives way and is counted.

Main definitions:

- {lit}`BoundedDeque`: a list of bounded length, with the number of bytes that gave way.
- {lit}`RingOperation`: what can be done with a ring.
- {lit}`Ring.trace`, {lit}`BoundedDeque.trace`: what is answered and seen, operation
  after operation.

Main results:

- Theorem {lit}`Ring.contents_extend`: of the bytes that wait and those that are
  appended, the newest remain.
- Theorem {lit}`Ring.contents_perform`: an operation does the same to the ring and to
  the deque of its contents.
- Theorem {lit}`Ring.trace_empty`: after any operations a new ring is the deque.
-/

namespace GraphicsTerminal

/-- A list of bytes of bounded length, oldest first. -/
@[ext]
structure BoundedDeque where
  /-- The number of bytes that it holds at most. -/
  bound : Nat
  bytes : List UInt8
  /-- The number of bytes that gave way to others so far. -/
  dropped : Nat
  bound_pos : 0 < bound := by omega
  length_le : bytes.length ≤ bound := by omega

/-- What can be done with a ring. -/
inductive RingOperation where
  | push (b : UInt8)
  | extend (bytes : List UInt8)
  | pop
  | peek
  | putBack (b : UInt8)
  | clear
deriving DecidableEq, Repr

/-- What an operation answers. -/
inductive RingAnswer where
  | nothing
  /-- Whether no byte gave way. -/
  | flag (clean : Bool)
  | count (dropped : Nat)
  | byte (b : Option UInt8)
deriving DecidableEq, Repr

/-- What can be seen of a ring between operations. -/
structure RingView where
  length : Nat
  isEmpty : Bool
  isFull : Bool
  hasData : Bool
  overruns : Nat
deriving DecidableEq, Repr

/-! ## The deque -/

namespace BoundedDeque

/-- A deque without bytes. -/
def empty (bound : Nat) (h : 0 < bound) : BoundedDeque where
  bound := bound
  bytes := []
  dropped := 0
  length_le := Nat.zero_le bound

/-- Whether the next byte finds no room. -/
def isFull (d : BoundedDeque) : Bool := d.bytes.length == d.bound

/-- How many bytes give way when some are appended. -/
def excess (d : BoundedDeque) (count : Nat) : Nat := d.bytes.length + count - d.bound

/-- Append a byte.  In a full deque the oldest byte gives way, and the flag is then
false. -/
def push (d : BoundedDeque) (b : UInt8) : Bool × BoundedDeque :=
  (!d.isFull,
    { d with
      bytes := (if d.isFull then d.bytes.tail else d.bytes) ++ [b]
      dropped := d.dropped + d.isFull.toNat
      bound_pos := d.bound_pos
      length_le := by
        have hpos := d.bound_pos
        have hle := d.length_le
        by_cases hfull : d.isFull = true
        · simp [hfull]
          omega
        · simp [isFull] at hfull
          simp [isFull, hfull]
          omega })

/-- Append bytes.  The newest remain, and the others are counted. -/
def append (d : BoundedDeque) (bytes : List UInt8) : Nat × BoundedDeque :=
  (d.excess bytes.length,
    { d with
      bytes := (d.bytes ++ bytes).drop (d.excess bytes.length)
      dropped := d.dropped + d.excess bytes.length
      bound_pos := d.bound_pos
      length_le := by
        simp only [List.length_drop, List.length_append, excess]
        omega })

/-- Take the oldest byte. -/
def pop (d : BoundedDeque) : Option UInt8 × BoundedDeque :=
  (d.bytes.head?,
    { d with
      bytes := d.bytes.tail
      bound_pos := d.bound_pos
      length_le := by
        have hle := d.length_le
        simp only [List.length_tail]
        omega })

/-- Prepend a byte.  In a full deque the newest byte gives way. -/
def putBack (d : BoundedDeque) (b : UInt8) : BoundedDeque :=
  { d with
    bytes := b :: (if d.isFull then d.bytes.dropLast else d.bytes)
    dropped := d.dropped + d.isFull.toNat
    bound_pos := d.bound_pos
    length_le := by
      have hpos := d.bound_pos
      have hle := d.length_le
      by_cases hfull : d.isFull = true
      · simp [hfull]
        omega
      · simp [isFull] at hfull
        simp [isFull, hfull]
        omega }

/-- Forget all bytes; they are not counted. -/
def clear (d : BoundedDeque) : BoundedDeque :=
  { d with
    bytes := []
    bound_pos := d.bound_pos
    length_le := Nat.zero_le d.bound }

/-- The effect of an operation. -/
def perform (d : BoundedDeque) : RingOperation → RingAnswer × BoundedDeque
  | .push b => ((d.push b).map .flag id)
  | .extend bytes => ((d.append bytes).map .count id)
  | .pop => (d.pop.map .byte id)
  | .peek => (.byte d.bytes.head?, d)
  | .putBack b => (.nothing, d.putBack b)
  | .clear => (.nothing, d.clear)

/-- What can be seen of a deque. -/
def view (d : BoundedDeque) : RingView where
  length := d.bytes.length
  isEmpty := d.bytes.isEmpty
  isFull := d.isFull
  hasData := !d.bytes.isEmpty
  overruns := d.dropped

/-- The deque after operations in order. -/
def performAll (d : BoundedDeque) (operations : List RingOperation) : BoundedDeque :=
  operations.foldl (fun d operation => (d.perform operation).2) d

/-- What is answered and then seen, operation after operation. -/
def trace (d : BoundedDeque) : List RingOperation → List (RingAnswer × RingView)
  | [] => []
  | operation :: operations =>
    let done := d.perform operation
    (done.1, done.2.view) :: done.2.trace operations

/-! ### Appending one by one -/

/-- How many bytes give way when one is pushed and others follow it. -/
theorem excess_push (d : BoundedDeque) (b : UInt8) (count : Nat) :
    (d.push b).2.excess count + d.isFull.toNat = d.excess (count + 1) := by
  have hpos := d.bound_pos
  have hle := d.length_le
  by_cases hfull : d.isFull = true
  · have hlength : d.bytes.length = d.bound := by simpa [isFull] using hfull
    simp [excess, push, hfull]
    omega
  · have hlength : d.bytes.length ≠ d.bound := by simpa [isFull] using hfull
    simp [excess, push, hfull]
    omega

/-- The oldest byte of a full deque is the first of those that give way. -/
theorem append_cons (d : BoundedDeque) (b : UInt8) (rest : List UInt8) :
    d.append (b :: rest) =
      (((d.push b).2.append rest).1 + d.isFull.toNat, ((d.push b).2.append rest).2) := by
  have hexcess := excess_push d b rest.length
  apply Prod.ext
  · simp only [append, List.length_cons, hexcess]
  · ext1
    · rfl
    · simp only [append, List.length_cons, ← hexcess]
      by_cases hfull : d.isFull = true
      · have hpos := d.bound_pos
        have hlength : d.bytes.length = d.bound := by simpa [isFull] using hfull
        rcases hbytes : d.bytes with _ | ⟨oldest, others⟩
        · simp [hbytes] at hlength
          omega
        · simp [push, hfull, hbytes]
      · simp [push, hfull]
    · simp only [append, List.length_cons, ← hexcess, push]
      omega

end BoundedDeque

/-! ## The ring -/

namespace Ring

/-- The effect of an operation. -/
def perform (ring : Ring) : RingOperation → RingAnswer × Ring
  | .push b => (ring.push b).map .flag id
  | .extend bytes => (ring.extend bytes).map .count id
  | .pop => ring.pop?.elim (.byte none, ring) fun (b, next) => (.byte (some b), next)
  | .peek => (.byte ring.peek?, ring)
  | .putBack b => (.nothing, ring.putBack b)
  | .clear => (.nothing, ring.clear)

/-- What can be seen of a ring. -/
def view (ring : Ring) : RingView where
  length := ring.length
  isEmpty := ring.isEmpty
  isFull := ring.isFull
  hasData := ring.hasData
  overruns := ring.overruns

/-- The ring after operations in order. -/
def performAll (ring : Ring) (operations : List RingOperation) : Ring :=
  operations.foldl (fun ring operation => (ring.perform operation).2) ring

/-- What is answered and then seen, operation after operation. -/
def trace (ring : Ring) : List RingOperation → List (RingAnswer × RingView)
  | [] => []
  | operation :: operations =>
    let done := ring.perform operation
    (done.1, done.2.view) :: done.2.trace operations

/-- A ring has room for a byte. -/
theorem capacity_sub_one_pos (ring : Ring) : 0 < ring.capacity - 1 := by
  have hsize := ring.two_le_size
  simp only [capacity]
  omega

/-- One place of the ring is always free. -/
theorem length_toList_le (ring : Ring) : ring.toList.length ≤ ring.capacity - 1 := by
  rw [length_toList]
  exact Nat.le_sub_one_of_lt ring.length_lt_capacity

/-- The deque that a ring stands for.  One cell of the ring is never used. -/
def contents (ring : Ring) : BoundedDeque where
  bound := ring.capacity - 1
  bytes := ring.toList
  dropped := ring.overruns
  bound_pos := ring.capacity_sub_one_pos
  length_le := ring.length_toList_le

/-! ## One operation -/

/-- The ring is full exactly when its contents are. -/
@[simp]
theorem isFull_contents (ring : Ring) : ring.contents.isFull = ring.isFull := by
  simp [BoundedDeque.isFull, contents, isFull]

/-- What is seen of a ring is what is seen of its contents. -/
theorem view_contents (ring : Ring) : ring.contents.view = ring.view := by
  simp [BoundedDeque.view, view, hasData, isEmpty_eq_isEmpty_toList]
  simp [contents]

/-- A push does to the contents what it does to a bounded deque, with the same answer. -/
theorem contents_push (ring : Ring) (b : UInt8) :
    (ring.push b).1 = (ring.contents.push b).1 ∧
      (ring.push b).2.contents = (ring.contents.push b).2 := by
  constructor
  · simp only [BoundedDeque.push, isFull_contents]
    unfold push
    by_cases hfull : ring.isFull = true
    · simp [hfull]
    · simp [hfull]
  · ext1
    · simp [contents, BoundedDeque.push, capacity_push]
    · simp [BoundedDeque.push]
      simp [contents, toList_push]
    · simp [BoundedDeque.push]
      simp [contents, overruns_push]

/-- A byte that is put back goes to the front of the contents, and may push the newest one
out. -/
theorem contents_putBack (ring : Ring) (b : UInt8) :
    (ring.putBack b).contents = ring.contents.putBack b := by
  ext1
  · simp [contents, BoundedDeque.putBack, capacity_putBack]
  · simp [BoundedDeque.putBack]
    simp [contents, toList_putBack]
  · simp [BoundedDeque.putBack]
    simp [contents, overruns_putBack]

/-- A cleared ring has no contents. -/
theorem contents_clear (ring : Ring) : ring.clear.contents = ring.contents.clear := by
  ext1
  · rfl
  · simp [contents, BoundedDeque.clear]
  · rfl

/-- The byte at the front is seen, and taken, from both. -/
theorem contents_pop? (ring : Ring) :
    ring.pop?.map Prod.fst = ring.contents.pop.1 ∧
      (ring.pop?.elim ring Prod.snd).contents = ring.contents.pop.2 := by
  rcases hpop : ring.pop? with _ | ⟨b, next⟩
  · have hnone := (pop?_eq_none_iff ring).1 hpop
    constructor
    · simp [BoundedDeque.pop, contents, hnone]
    · ext1
      · rfl
      · simp [BoundedDeque.pop, contents, hnone]
      · rfl
  · have hbytes := toList_of_pop? hpop
    constructor
    · simp [BoundedDeque.pop, contents, hbytes]
    · ext1
      · simp [BoundedDeque.pop, contents, capacity_of_pop? hpop]
      · simp [BoundedDeque.pop, contents, hbytes]
      · simp [BoundedDeque.pop, contents, overruns_of_pop? hpop]

/-- The next byte is the first of the contents. -/
theorem peek?_contents (ring : Ring) : ring.peek? = ring.contents.bytes.head? := by
  have hread := ring.readAt_lt
  unfold peek?
  by_cases hempty : ring.isEmpty = true
  · have hnone : ring.toList = [] := by
      rwa [isEmpty_eq_isEmpty_toList, List.isEmpty_iff] at hempty
    simp [hempty, contents, hnone]
  · have hlist := @toList_eq_cons_skip ring (by simpa using hempty)
    simp [hempty, contents, hlist, hread]

/-- Of the bytes that wait and those that are appended, the newest remain; the others
are counted. -/
theorem contents_extend (ring : Ring) (bytes : List UInt8) :
    (ring.extend bytes).1 = (ring.contents.append bytes).1 ∧
      (ring.extend bytes).2.contents = (ring.contents.append bytes).2 := by
  induction bytes generalizing ring with
  | nil =>
    have hle := ring.contents.length_le
    have hexcess : ring.contents.excess 0 = 0 := by
      simp only [BoundedDeque.excess]
      omega
    constructor
    · simp [extend, BoundedDeque.append, hexcess]
    · ext1
      · rfl
      · simp [extend, BoundedDeque.append, hexcess]
      · simp [extend, BoundedDeque.append, hexcess]
  | cons b rest ih =>
    have hpush := contents_push ring b
    have hrest := ih (ring.push b).2
    rw [BoundedDeque.append_cons, ← hpush.2, extend_cons_fst, extend_cons_snd,
      isFull_contents]
    constructor
    · rw [hrest.1]
    · exact hrest.2

/-! ## Any operations -/

/-- An operation answers the same to the ring and to the deque of its contents, and
leaves the same behind. -/
theorem contents_perform (ring : Ring) (operation : RingOperation) :
    (ring.perform operation).1 = (ring.contents.perform operation).1 ∧
      (ring.perform operation).2.contents = (ring.contents.perform operation).2 := by
  cases operation with
  | push b =>
    rcases contents_push ring b with ⟨hflag, hbytes⟩
    simp [perform, BoundedDeque.perform, hflag, hbytes]
  | extend bytes =>
    rcases contents_extend ring bytes with ⟨hcount, hbytes⟩
    simp [perform, BoundedDeque.perform, hcount, hbytes]
  | pop =>
    rcases contents_pop? ring with ⟨hbyte, hbytes⟩
    simp only [BoundedDeque.perform, Prod.map, id, ← hbyte, ← hbytes, perform]
    cases ring.pop? with
    | none => simp
    | some taken => simp
  | peek => simp [perform, BoundedDeque.perform, peek?_contents]
  | putBack b => simp [perform, BoundedDeque.perform, contents_putBack]
  | clear => simp [perform, BoundedDeque.perform, contents_clear]

/-- The contents give the answers that the ring gives, operation by operation. -/
theorem trace_contents (ring : Ring) (operations : List RingOperation) :
    ring.contents.trace operations = ring.trace operations := by
  induction operations generalizing ring with
  | nil => rfl
  | cons operation operations ih =>
    rcases contents_perform ring operation with ⟨hanswer, hbytes⟩
    simp only [trace, BoundedDeque.trace]
    rw [← hanswer, ← hbytes, view_contents, ih]

/-- After any operations the contents are those of a bounded deque. -/
theorem contents_performAll (ring : Ring) (operations : List RingOperation) :
    (ring.performAll operations).contents = ring.contents.performAll operations := by
  induction operations generalizing ring with
  | nil => rfl
  | cons operation operations ih =>
    have hstep := (contents_perform ring operation).2
    simp only [performAll, BoundedDeque.performAll, List.foldl_cons] at ih ⊢
    rw [ih, hstep]

/-- One cell of a new ring is never used, and there are at least two. -/
theorem contents_empty (capacity : Nat) :
    (empty capacity).contents = .empty (max capacity 2 - 1) (by omega) := by
  ext1
  · simp [contents, Ring.capacity, empty, BoundedDeque.empty]
  · simp [contents, BoundedDeque.empty]
  · rfl

/-- After any operations a new ring is the deque: both answered the same to each, the
same was seen after each, and the same bytes wait. -/
theorem trace_empty (capacity : Nat) (operations : List RingOperation) :
    let bounded := BoundedDeque.empty (max capacity 2 - 1) (by omega)
    (empty capacity).trace operations = bounded.trace operations ∧
      ((empty capacity).performAll operations).contents =
        bounded.performAll operations := by
  intro bounded
  have hstart : (empty capacity).contents = bounded := contents_empty capacity
  constructor
  · rw [← trace_contents, hstart]
  · rw [contents_performAll, hstart]

/-- In a ring for two bytes the oldest gives way to one that is pushed, and then the newest
to one that is put back. -/
example :
    let ring := (empty 3).performAll [.push 0x61, .push 0x62, .push 0x63, .putBack 0x64]
    ring.toList = [0x64, 0x62] ∧ ring.overruns = 2 := by
  decide

end Ring

end GraphicsTerminal
