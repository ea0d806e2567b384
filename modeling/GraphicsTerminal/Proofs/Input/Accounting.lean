import GraphicsTerminal.Input.Contents

/-!
# What the ring counts

The operations of the ring count the bytes they lose.  Bytes for which there is
room are appended as they are, and none is lost; it does not matter whether they
are appended before or after the oldest byte is taken.

Main results:

- Theorems {lit}`Ring.overruns_push`, {lit}`Ring.overruns_of_pop?` and
  {lit}`Ring.overruns_putBack`: a loss is counted exactly when the ring is full.
- Theorem {lit}`Ring.extend_of_le_free`: bytes for which there is room.
- Theorem {lit}`Ring.pop?_extend`: taking a byte and appending others commute.
-/

namespace GraphicsTerminal

namespace Ring

variable {ring next : Ring} {b : UInt8}

/-! ## Losses -/

/-- A byte is counted as lost if the ring was full. -/
theorem overruns_push (ring : Ring) (b : UInt8) :
    (ring.push b).2.overruns = ring.overruns + ring.isFull.toNat := by
  unfold push
  cases ring.isFull with
  | true => rfl
  | false => rfl

/-- Taking a byte loses none. -/
theorem overruns_of_pop? (h : ring.pop? = some (b, next)) : next.overruns = ring.overruns := by
  unfold pop? at h
  simp only [Option.ite_none_left_eq_some, Option.some.injEq, Prod.mk.injEq] at h
  obtain ⟨-, -, rfl⟩ := h
  rfl

/-- Putting a byte back loses the newest one of a full ring. -/
theorem overruns_putBack (ring : Ring) (b : UInt8) :
    (ring.putBack b).overruns = ring.overruns + ring.isFull.toNat := by
  unfold putBack
  cases ring.isFull with
  | true => rfl
  | false => rfl

/-! ## Appending -/

/-- The capacity does not change with a byte. -/
theorem capacity_push (ring : Ring) (b : UInt8) : (ring.push b).2.capacity = ring.capacity := by
  unfold push
  split
  · exact Array.size_setIfInBounds
  · exact Array.size_setIfInBounds

theorem capacity_of_pop? (h : ring.pop? = some (b, next)) : next.capacity = ring.capacity := by
  unfold pop? at h
  simp only [Option.ite_none_left_eq_some, Option.some.injEq, Prod.mk.injEq] at h
  obtain ⟨-, -, rfl⟩ := h
  rfl

theorem capacity_putBack (ring : Ring) (b : UInt8) :
    (ring.putBack b).capacity = ring.capacity := by
  unfold putBack
  split
  · exact Array.size_setIfInBounds
  · exact Array.size_setIfInBounds

/-- The count grows with each byte that pushes an older one out. -/
theorem extend_cons_fst (ring : Ring) (b : UInt8) (rest : List UInt8) :
    (ring.extend (b :: rest)).1 = ((ring.push b).2.extend rest).1 + ring.isFull.toNat := by
  simp only [extend, push]
  by_cases hfull : ring.isFull = true
  · simp [hfull]
  · simp [hfull]

theorem extend_cons_snd (ring : Ring) (b : UInt8) (rest : List UInt8) :
    (ring.extend (b :: rest)).2 = ((ring.push b).2.extend rest).2 := by
  rw [extend]
  split
  · rename_i hpush
    rw [hpush]
  · rename_i hpush
    rw [hpush]

/-- A ring with room for a byte is not full, and one byte less has room after
it. -/
theorem free_push (ring : Ring) (b : UInt8) (hfree : 1 ≤ ring.free) :
    ring.isFull = false ∧ (ring.push b).2.free + 1 = ring.free := by
  have hroom : ring.isFull = false := by
    simp only [isFull, beq_eq_false_iff_ne]
    simp only [free] at hfree
    omega
  have hlength : (ring.push b).2.length = ring.length + 1 := by
    rw [← length_toList, toList_push, hroom]
    simp
  refine ⟨hroom, ?_⟩
  simp only [free, capacity_push, hlength] at hfree ⊢
  omega

/-- A byte that is taken leaves its room. -/
theorem free_of_pop? (h : ring.pop? = some (b, next)) : next.free = ring.free + 1 := by
  have hlength := pop?_length h
  have hlt := ring.length_lt_capacity
  simp only [free, capacity_of_pop? h]
  omega

/-- An empty ring has room for a byte. -/
theorem one_le_free (hempty : ring.toList = []) : 1 ≤ ring.free := by
  have hlength : ring.length = 0 := by
    rw [← length_toList, hempty, List.length_nil]
  have hsize := ring.two_le_size
  simp only [free, capacity, hlength]
  omega

/-- Bytes for which there is room are appended, and none is lost. -/
theorem extend_of_le_free {bytes : List UInt8} (h : bytes.length ≤ ring.free) :
    (ring.extend bytes).2.toList = ring.toList ++ bytes ∧
      (ring.extend bytes).2.overruns = ring.overruns := by
  induction bytes generalizing ring with
  | nil => simp [extend]
  | cons b rest ih =>
    simp only [List.length_cons] at h
    obtain ⟨hroom, hfree⟩ := free_push ring b (by omega)
    have hrest : rest.length ≤ (ring.push b).2.free := by omega
    obtain ⟨hlist, hoverruns⟩ := ih hrest
    rw [extend_cons_snd, hlist, hoverruns, toList_push, overruns_push, hroom]
    simp

/-- Bytes that come in two parts fill the ring like those that come at once. -/
theorem extend_append_snd (ring : Ring) (front back : List UInt8) :
    (ring.extend (front ++ back)).2 = ((ring.extend front).2.extend back).2 := by
  induction front generalizing ring with
  | nil => rfl
  | cons b front ih => rw [List.cons_append, extend_cons_snd, extend_cons_snd, ih]

/-- The capacity does not change with any number of bytes. -/
theorem capacity_extend (ring : Ring) (bytes : List UInt8) :
    (ring.extend bytes).2.capacity = ring.capacity := by
  induction bytes generalizing ring with
  | nil => rfl
  | cons b rest ih => rw [extend_cons_snd, ih, capacity_push]

/-! ## Taking before or after appending -/

/-- A ring that is not full takes a byte without moving its front. -/
theorem pop?_push (hpop : ring.pop? = some (b, next)) (hroom : ring.isFull = false)
    (new : UInt8) : (ring.push new).2.pop? = some (b, (next.push new).2) := by
  have hfilled : (ring.store new).isEmpty = false := by
    rw [isEmpty_eq_isEmpty_toList, toList_store new hroom]
    simp
  have hnext : next.isFull = false := by
    have hlength := pop?_length hpop
    have hlt := ring.length_lt_capacity
    simp only [isFull, beq_eq_false_iff_ne, capacity_of_pop? hpop]
    omega
  have hread := ring.readAt_lt
  unfold pop? at hpop
  simp only [Option.ite_none_left_eq_some, Option.some.injEq, Prod.mk.injEq] at hpop
  rcases hpop with ⟨hne, rfl, rfl⟩
  have hcell : ring.writeAt ≠ ring.readAt := by
    intro heq
    simp [isEmpty, heq] at hne
  have hpushed : (ring.push new).2 = ring.store new := by simp [push, hroom]
  have hskipped : (ring.skip.push new).2 = ring.skip.store new := by simp [push, hnext]
  rw [hpushed, hskipped, pop?, hfilled]
  simp [store, skip]
  exact Array.getElem_setIfInBounds_ne hread hcell

/-- Bytes for which there is room do not move the front. -/
theorem pop?_extend {bytes : List UInt8} (hpop : ring.pop? = some (b, next))
    (hfits : bytes.length ≤ ring.free) :
    (ring.extend bytes).2.pop? = some (b, (next.extend bytes).2) := by
  induction bytes generalizing ring next with
  | nil => exact hpop
  | cons new rest ih =>
    simp only [List.length_cons] at hfits
    rcases free_push ring new (by omega) with ⟨hroom, hfree⟩
    rw [extend_cons_snd, extend_cons_snd]
    exact ih (pop?_push hpop hroom new) (by omega)

end Ring

end GraphicsTerminal
