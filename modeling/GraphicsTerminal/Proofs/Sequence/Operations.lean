import GraphicsTerminal.Proofs.Sequence.Numbers

/-!
# The reading position under all operations

Whatever is done with a payload, in any order, its reading position stays within its bytes:
also when bytes behind the position are removed, and when the position is asked to go to the end
or beyond it.  The bytes change only where one is appended or removed or a new sequence begins.
A reader of numbers moves the position forward when it finds a number, and leaves it where it is
when it finds none.  A packed number is found exactly where enough bytes that carry a group
follow.

Main definitions:

- {lit}`Payload.Operation`: what can be done with a payload.
- {lit}`Payload.operate`, {lit}`Payload.operateAll`: one operation, and several in a row.
- {lit}`Payload.Moves`: how a reader moves the position.
- {lit}`Payload.readInts`: numbers read one after another.

Main results:

- Theorem {lit}`Payload.index_operate_le`: every operation keeps the position within the bytes.
- Theorem {lit}`Payload.readNumbers_eq_readInts`: several numbers are single ones in a row.
- Theorem {lit}`Payload.readPacked_eq_some_iff`: where a packed number is found, and its value.
- Theorem {lit}`Payload.operateAll_safe`: what holds after any operations.
-/

namespace GraphicsTerminal

namespace Payload

variable {p p' p'' : Payload}

/-! ## Operations -/

/-- Read a signed decimal number, with another number in place of one that is missing. -/
def readIntOr (p : Payload) (default : Int) : Int × Payload :=
  (p.readInt.1.getD default, p.readInt.2)

/-- What can be done with a payload. -/
inductive Operation where
  | push (b : UInt8)
  | reset
  | dropLast
  | seek (position : Nat)
  | advance (count : Nat)
  | next
  | readInt
  | readIntOr (default : Int)
  | readPacked (count : Nat)
  | readNumbers (limit : Nat)
deriving DecidableEq, Repr

/-- The operations that change the bytes. -/
def Operation.changesBytes : Operation → Bool
  | push _ | reset | dropLast => true
  | _ => false

/-- What an operation makes of a payload. -/
def operate (p : Payload) : Operation → Payload
  | .push b => p.push b
  | .reset => empty
  | .dropLast => p.dropLast
  | .seek position => p.seek position
  | .advance count => p.advance count
  | .next => p.next.2
  | .readInt => p.readInt.2
  | .readIntOr default => (p.readIntOr default).2
  | .readPacked count => (p.readPacked count).2
  | .readNumbers limit => (p.readNumbers limit).2

/-- What operations in a row make of a payload. -/
def operateAll (p : Payload) (ops : List Operation) : Payload := ops.foldl operate p

/-! ## How readers move -/

/-- A reader keeps the bytes.  It moves forward within them when it finds something, and not at
all otherwise. -/
structure Moves (p p' : Payload) (found : Bool) : Prop where
  bytes : p'.bytes = p.bytes
  stays : found = false → p' = p
  forward : found = true → p.index < p'.index ∧ p'.index ≤ p.size

/-- A reader that finds nothing has not moved. -/
theorem Moves.refl (p : Payload) : p.Moves p false where
  bytes := rfl
  stays := fun _ => rfl
  forward := nofun

/-- What is found first is found, whatever follows. -/
theorem Moves.trans {found : Bool} (h : p.Moves p' true) (hnext : p'.Moves p'' found) :
    p.Moves p'' true where
  bytes := hnext.bytes.trans h.bytes
  stays := nofun
  forward := by
    intro _
    obtain ⟨hfirst, hlimit⟩ := h.forward rfl
    cases found with
    | false =>
      rw [hnext.stays rfl]
      exact ⟨hfirst, hlimit⟩
    | true =>
      obtain ⟨hlater, hwithin⟩ := hnext.forward rfl
      rw [size, h.bytes] at hwithin
      exact ⟨Nat.lt_trans hfirst hlater, hwithin⟩

/-- A reader stays within the bytes. -/
theorem Moves.index_le {found : Bool} (h : p.Moves p' found) (hindex : p.index ≤ p.size) :
    p'.index ≤ p'.size := by
  rw [size, h.bytes]
  cases found with
  | false =>
    rw [h.stays rfl]
    exact hindex
  | true => exact (h.forward rfl).2

/-- Taking bytes from the front of those that are left moves forward. -/
theorem moves_resume {front tail : List UInt8} (h : p.rest = front ++ tail) (hfront : front ≠ []) :
    p.Moves (p.resume tail) true where
  bytes := rfl
  stays := nofun
  forward := by
    intro _
    have hlength := congrArg List.length h
    rw [length_rest, List.length_append] at hlength
    have hpos := List.length_pos_iff.2 hfront
    rw [resume_of_rest h hfront]
    dsimp only
    omega

/-- Where a number is found the reader stands behind it, and otherwise where it was. -/
theorem readInt_moves (p : Payload) : p.Moves p.readInt.2 p.readInt.1.isSome := by
  rw [readInt]
  cases hread : Decimal.read? p.rest with
  | none => exact Moves.refl p
  | some r =>
    obtain ⟨w, hrest, -⟩ := Decimal.exists_written hread
    exact moves_resume hrest w.bytes_ne_nil

/-- Taking a byte moves by one, as long as there are more. -/
theorem next_moves (p : Payload) : p.Moves p.next.2 p.hasMore := by
  rw [next, hasMore]
  by_cases hmore : p.index < p.bytes.size
  · rw [Array.getElem?_eq_getElem hmore, decide_eq_true hmore]
    exact ⟨rfl, nofun, fun _ => ⟨Nat.lt_succ_self _, hmore⟩⟩
  · rw [Array.getElem?_eq_none (Nat.le_of_not_lt hmore), decide_eq_false hmore]
    exact Moves.refl p

/-! ## Several numbers -/

/-- Read numbers one after another, until none follows. -/
def readInts : Nat → Payload → List Int × Payload
  | 0, p => ([], p)
  | count + 1, p =>
    match p.readInt with
    | (none, _) => ([], p)
    | (some v, next) => (v :: (readInts count next).1, (readInts count next).2)

/-- A list of numbers moves behind the last one that was found. -/
theorem readInts_moves (count : Nat) (p : Payload) :
    p.Moves (readInts count p).2 (!(readInts count p).1.isEmpty) := by
  induction count generalizing p with
  | zero => exact Moves.refl p
  | succ count ih =>
    have hfirst := p.readInt_moves
    rw [readInts]
    generalize p.readInt = read at hfirst
    obtain ⟨v?, next⟩ := read
    cases v? with
    | none => exact Moves.refl p
    -- The first number moves forward, and the others do not go back.
    | some v => exact hfirst.trans (ih next)

/-- Reading resumes in front of what was left. -/
theorem rest_resume {tail : List UInt8} (h : tail <:+ p.rest) : (p.resume tail).rest = tail :=
  (List.suffix_iff_eq_drop.1 (h.trans (List.drop_suffix p.index p.bytes.toList))).symm

/-- Where no number was read, all bytes are left. -/
theorem readUpTo_of_isEmpty {count : Nat} {bytes : List UInt8}
    (h : (Decimal.readUpTo count bytes).1.isEmpty = true) :
    (Decimal.readUpTo count bytes).2 = bytes := by
  cases count with
  | zero => rfl
  | succ count =>
    rw [Decimal.readUpTo] at h ⊢
    cases hread : Decimal.read? bytes with
    | none => rfl
    | some r =>
      rw [hread] at h
      cases h

/-- Several numbers are single ones in a row. -/
theorem readNumbers_eq_readInts (p : Payload) (limit : Nat) :
    p.readNumbers limit = readInts (min limit mostNumbers) p := by
  rw [readNumbers]
  generalize min limit mostNumbers = count
  induction count generalizing p with
  | zero => rfl
  | succ count ih =>
    rw [Decimal.readUpTo, readInts, readInt]
    cases hread : Decimal.read? p.rest with
    | none => rfl
    | some r =>
      -- Behind the first number, the bytes that are left are those of the payload.
      have hrest := rest_resume (Decimal.read?_rest_suffix hread)
      have hmore := ih (p.resume r.rest)
      rw [hrest] at hmore
      dsimp only
      rw [← hmore]
      refine congrArg (Prod.mk _) ?_
      split
      · next hempty => rw [List.isEmpty_cons] at hempty; cases hempty
      · split
        · next hempty => rw [readUpTo_of_isEmpty hempty]
        · rfl

/-- Numbers up to a limit move behind the last one, if there is any. -/
theorem readNumbers_moves (p : Payload) (limit : Nat) :
    p.Moves (p.readNumbers limit).2 (!(p.readNumbers limit).1.isEmpty) := by
  rw [readNumbers_eq_readInts]
  exact readInts_moves _ p

/-! ## Packed numbers -/

/-- The next bytes, by their positions. -/
theorem take_rest {count : Nat} (h : p.index + count ≤ p.size) :
    p.rest.take count = (List.range count).map fun i => p.byteAt (p.index + i) := by
  have hlength : (p.rest.take count).length = count := by
    rw [List.length_take, length_rest]
    omega
  refine List.ext_getElem (by rw [hlength, List.length_map, List.length_range]) ?_
  intro i hi _
  have hinside : p.index + i < p.bytes.size := by
    rw [size] at h
    omega
  simp [rest, byteAt, hinside]

/-- A packed number is found exactly where enough bytes follow that carry a group, and its value
is that of their low five bits in base 32. -/
theorem readPacked_eq_some_iff {count n : Nat} (h : p.index ≤ p.size) :
    (p.readPacked count).1 = some n ↔
      p.index + count ≤ p.size ∧
        (∀ i < count, 0x20 ≤ p.byteAt (p.index + i) ∧ p.byteAt (p.index + i) ≤ 0x3F) ∧
        n = Nat.ofDigits 32
          ((List.range count).map fun i => (p.byteAt (p.index + i) &&& 0x1F).toNat).reverse := by
  have hread : (p.readPacked count).1 = some n ↔ (p.rest.take count).length = count ∧
      (p.rest.take count).all Packed.isGroup = true ∧ n = Packed.value (p.rest.take count) := by
    by_cases hfound : (p.rest.take count).length = count ∧
        (p.rest.take count).all Packed.isGroup = true
    · have hvalue : Packed.read? count p.rest =
          some (Packed.value (p.rest.take count), p.rest.drop count) := if_pos hfound
      rw [readPacked, hvalue]
      simp only [hfound, true_and, Option.some.injEq, eq_comm]
    · have hnone : Packed.read? count p.rest = none := if_neg hfound
      rw [readPacked, hnone]
      exact iff_of_false nofun fun hall => hfound ⟨hall.1, hall.2.1⟩
  have hlength : (p.rest.take count).length = count ↔ p.index + count ≤ p.size := by
    rw [List.length_take, length_rest]
    omega
  rw [hread, hlength]
  refine and_congr_right fun hfit => and_congr ?_ ?_
  · simp [take_rest hfit, Packed.isGroup]
  · rw [Packed.value_eq_ofDigits, take_rest hfit, List.map_map]
    rfl

/-- A packed number of at least one group moves behind its groups. -/
theorem readPacked_moves (p : Payload) {count : Nat} (h : 0 < count) :
    p.Moves (p.readPacked count).2 (p.readPacked count).1.isSome := by
  rw [readPacked]
  cases hread : Packed.read? count p.rest with
  | none => exact Moves.refl p
  | some r =>
    obtain ⟨n, tail⟩ := r
    have hlength := Packed.read?_rest_length hread
    simp only [Packed.read?, Option.ite_none_right_eq_some, Option.some.injEq,
      Prod.mk.injEq] at hread
    obtain ⟨-, -, rfl⟩ := hread
    refine moves_resume (List.take_append_drop count p.rest).symm ?_
    rw [Ne, List.take_eq_nil_iff, not_or]
    refine ⟨Nat.ne_of_gt h, ?_⟩
    rw [← List.length_eq_zero_iff]
    omega

/-! ## All operations -/

/-- Only some operations change the bytes. -/
theorem bytes_operate {op : Operation} (h : op.changesBytes = false) :
    (p.operate op).bytes = p.bytes := by
  cases op with
  | push | reset | dropLast => cases h
  | seek position =>
    rw [operate, seek]
    split <;> rfl
  | advance count =>
    rw [operate, advance]
    split <;> rfl
  | next => exact p.next_moves.bytes
  | readInt => exact p.readInt_moves.bytes
  | readIntOr default => exact p.readInt_moves.bytes
  | readPacked count =>
    rw [operate, readPacked]
    split <;> rfl
  | readNumbers limit => exact (p.readNumbers_moves limit).bytes

/-- Every operation keeps the position within the bytes. -/
theorem index_operate_le (op : Operation) (h : p.index ≤ p.size) :
    (p.operate op).index ≤ (p.operate op).size := by
  cases op with
  | push b =>
    rw [operate, push, size, Array.size_push]
    exact Nat.le_succ_of_le h
  | reset => exact Nat.le_refl 0
  | dropLast => exact Nat.min_le_right _ _
  | seek position =>
    rw [operate, seek]
    split
    · next hinside => exact Nat.le_of_lt hinside
    · exact h
  | advance count =>
    rw [operate, advance]
    split
    · next hinside => exact hinside
    · exact h
  | next => exact p.next_moves.index_le h
  | readInt => exact p.readInt_moves.index_le h
  | readIntOr default => exact p.readInt_moves.index_le h
  | readPacked count =>
    -- A packed number of no groups is found, but does not move forward.
    rw [operate, readPacked]
    split
    · exact Nat.sub_le _ _
    · exact h
  | readNumbers limit => exact (p.readNumbers_moves limit).index_le h

/-- Operations in a row keep the position within the bytes. -/
theorem index_operateAll_le (ops : List Operation) (h : p.index ≤ p.size) :
    (p.operateAll ops).index ≤ (p.operateAll ops).size := by
  induction ops generalizing p with
  | nil => exact h
  | cons op ops ih => exact ih (index_operate_le op h)

/-- After any operations on any bytes, in any order, the position is within the bytes, only
those operations that are said to do so change the bytes, and every reader of numbers moves
forward exactly when it finds something. -/
theorem operateAll_safe (bytes : List UInt8) (ops : List Operation) :
    let p := (ofList bytes).operateAll ops
    p.index ≤ p.size ∧
      (∀ op : Operation, op.changesBytes = false → (p.operate op).bytes = p.bytes) ∧
      p.Moves p.readInt.2 p.readInt.1.isSome ∧
      (∀ limit, p.Moves (p.readNumbers limit).2 (!(p.readNumbers limit).1.isEmpty)) ∧
      ∀ count, 0 < count →
        p.Moves (p.readPacked count).2 (p.readPacked count).1.isSome ∧
        ∀ n, (p.readPacked count).1 = some n ↔
          p.index + count ≤ p.size ∧
            (∀ i < count, 0x20 ≤ p.byteAt (p.index + i) ∧ p.byteAt (p.index + i) ≤ 0x3F) ∧
            n = Nat.ofDigits 32
              ((List.range count).map fun i => (p.byteAt (p.index + i) &&& 0x1F).toNat).reverse := by
  intro p
  have hindex : p.index ≤ p.size := index_operateAll_le ops (Nat.zero_le _)
  exact ⟨hindex, fun _ h => bytes_operate h, p.readInt_moves, p.readNumbers_moves,
    fun _ hcount => ⟨p.readPacked_moves hcount, fun _ => readPacked_eq_some_iff hindex⟩⟩

end Payload

end GraphicsTerminal
