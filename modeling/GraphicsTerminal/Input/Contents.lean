import GraphicsTerminal.Input.Ring

/-!
# The contents of the input ring

Seen from outside, the ring is the list {lit}`Ring.toList` of its unread bytes.
Each operation is described here by its effect on that list, so that nothing
else needs the positions inside the ring.

Main results:

- Theorem {lit}`Ring.toList_push`: a push appends; a full ring first loses its
  oldest byte.
- Theorem {lit}`Ring.toList_of_pop?`: a byte is taken from the front.
- Theorem {lit}`Ring.toList_putBack`: a byte is put back in front; a full ring
  first loses its newest byte.
-/

namespace GraphicsTerminal

namespace Ring

/-! ## Cells and list entries -/

/-- The list holds as many bytes as are unread. -/
@[simp]
theorem length_toList (ring : Ring) : ring.toList.length = ring.length := by
  simp [toList]

/-- An entry of the list is the cell at that distance from the oldest byte. -/
theorem getElem?_toList (ring : Ring) (i : Nat) :
    ring.toList[i]? =
      if i < ring.length then
        some (ring.cells[(ring.readAt + i) % ring.cells.size]?.getD 0)
      else none := by
  unfold toList
  split
  · rename_i h
    simp [h]
  · rename_i h
    simp only [List.getElem?_map, Option.map_eq_none_iff, List.getElem?_eq_none_iff,
      List.length_range]
    omega

/-- A distance shorter than the ring passes its end at most once. -/
theorem add_mod_of_lt {size position distance : Nat} (hposition : position < size)
    (hdistance : distance < size) :
    (position + distance) % size =
      if position + distance < size then position + distance
      else position + distance - size := by
  split
  · exact Nat.mod_eq_of_lt ‹_›
  · rw [Nat.mod_eq_sub_mod (by omega), Nat.mod_eq_of_lt (by omega)]

/-- The ring is empty when the list is. -/
theorem isEmpty_eq_isEmpty_toList (ring : Ring) : ring.isEmpty = ring.toList.isEmpty := by
  have hread := ring.readAt_lt
  have hwrite := ring.writeAt_lt
  rw [Bool.eq_iff_iff, List.isEmpty_iff, ← List.length_eq_zero_iff, length_toList,
    length_eq]
  simp only [isEmpty, beq_iff_eq]
  grind

/-- A full ring holds a byte. -/
theorem isEmpty_of_isFull {ring : Ring} (h : ring.isFull = true) :
    ring.isEmpty = false := by
  have hsize := ring.two_le_size
  rw [isEmpty_eq_isEmpty_toList, List.isEmpty_eq_false_iff, ← List.length_pos_iff,
    length_toList]
  simp only [isFull, capacity, beq_iff_eq] at h
  omega

/-! ## Storing at the end -/

/-- Storing adds one byte to a ring that is not full. -/
theorem length_store {ring : Ring} (b : UInt8) (h : ring.isFull = false) :
    (ring.store b).length = ring.length + 1 := by
  have hread := ring.readAt_lt
  have hwrite := ring.writeAt_lt
  simp only [isFull, capacity, beq_eq_false_iff_ne, length_eq] at h
  rw [length_eq, length_eq]
  simp only [store, after, Array.size_setIfInBounds]
  grind

/-- Storing appends to a ring that is not full. -/
theorem toList_store {ring : Ring} (b : UInt8) (h : ring.isFull = false) :
    (ring.store b).toList = ring.toList ++ [b] := by
  have hread := ring.readAt_lt
  have hwrite := ring.writeAt_lt
  have hlength := ring.length_lt_capacity
  simp only [capacity] at hlength
  have hend : (ring.readAt + ring.length) % ring.cells.size = ring.writeAt := by
    rw [add_mod_of_lt hread hlength, length_eq]
    grind
  apply List.ext_getElem?
  intro i
  rw [getElem?_toList, length_store b h, List.getElem?_append, length_toList,
    getElem?_toList]
  simp only [store, Array.size_setIfInBounds]
  by_cases hi : i < ring.length
  · have hne : ring.writeAt ≠ (ring.readAt + i) % ring.cells.size := by
      rw [← hend, add_mod_of_lt hread hlength, add_mod_of_lt hread (by omega)]
      grind
    simp [hi, Nat.lt_succ_of_lt hi, hne]
  · by_cases hlast : i = ring.length
    · subst hlast
      simp [hend, hwrite]
    · simp only [hi, if_false, show ¬ i < ring.length + 1 by omega]
      rw [List.getElem?_eq_none]
      simp only [List.length_singleton]
      omega

/-! ## Taking from the front -/

/-- Skipping removes one byte. -/
theorem length_skip {ring : Ring} (h : ring.isEmpty = false) :
    ring.skip.length + 1 = ring.length := by
  have hread := ring.readAt_lt
  have hwrite := ring.writeAt_lt
  have hne : ring.readAt ≠ ring.writeAt := by simpa [isEmpty] using h
  rw [length_eq, length_eq]
  simp only [skip, after]
  grind

/-- The oldest byte stands in front of those that remain after a skip. -/
theorem toList_eq_cons_skip {ring : Ring} (h : ring.isEmpty = false) :
    ring.toList = ring.cells[ring.readAt]?.getD 0 :: ring.skip.toList := by
  have hread := ring.readAt_lt
  have hlength := ring.length_lt_capacity
  have hskip := length_skip h
  simp only [capacity] at hlength
  apply List.ext_getElem?
  intro i
  cases i with
  | zero =>
    rw [getElem?_toList, if_pos (by omega)]
    simp [Nat.mod_eq_of_lt hread, hread]
  | succ i =>
    rw [getElem?_toList, List.getElem?_cons_succ, getElem?_toList]
    by_cases hi : i < ring.skip.length
    · rw [if_pos (by omega), if_pos hi]
      have hafter := after_lt hread
      simp only [skip]
      rw [add_mod_of_lt hread (by omega), add_mod_of_lt hafter (by omega)]
      grind [after]
    · rw [if_neg (by omega), if_neg hi]

/-- Skipping drops the oldest byte. -/
theorem toList_skip {ring : Ring} (h : ring.isEmpty = false) :
    ring.skip.toList = ring.toList.tail := by
  rw [toList_eq_cons_skip h, List.tail_cons]

/-! ## The front and the newest byte -/

/-- Storing in front adds one byte to a ring that is not full. -/
theorem length_storeFront {ring : Ring} (b : UInt8) (h : ring.isFull = false) :
    (ring.storeFront b).length = ring.length + 1 := by
  have hread := ring.readAt_lt
  have hwrite := ring.writeAt_lt
  simp only [isFull, capacity, beq_eq_false_iff_ne, length_eq] at h
  rw [length_eq, length_eq]
  simp only [storeFront, before, Array.size_setIfInBounds]
  grind

/-- Storing in front prepends to a ring that is not full. -/
theorem toList_storeFront {ring : Ring} (b : UInt8) (h : ring.isFull = false) :
    (ring.storeFront b).toList = b :: ring.toList := by
  have hread := ring.readAt_lt
  have hlength := ring.length_lt_capacity
  have hfront := length_storeFront b h
  have hbefore := before_lt hread
  simp only [isFull, capacity, beq_eq_false_iff_ne] at h hlength
  apply List.ext_getElem?
  intro i
  cases i with
  | zero =>
    rw [getElem?_toList, if_pos (by omega)]
    simp [storeFront, Nat.mod_eq_of_lt hbefore, hbefore]
  | succ i =>
    rw [getElem?_toList, List.getElem?_cons_succ, getElem?_toList]
    by_cases hi : i < ring.length
    · rw [if_pos (by omega), if_pos hi]
      simp only [storeFront, Array.size_setIfInBounds]
      have hcell : (before ring.cells.size ring.readAt + (i + 1)) % ring.cells.size =
          (ring.readAt + i) % ring.cells.size := by
        rw [add_mod_of_lt hbefore (by omega), add_mod_of_lt hread (by omega)]
        simp only [before]
        grind
      have hne : before ring.cells.size ring.readAt ≠
          (ring.readAt + i) % ring.cells.size := by
        rw [add_mod_of_lt hread (by omega)]
        simp only [before]
        grind
      rw [hcell, Array.getElem?_setIfInBounds_ne hne]
    · rw [if_neg (by omega), if_neg hi]

/-- Dropping the newest byte removes one byte. -/
theorem length_dropNewest {ring : Ring} (h : ring.isEmpty = false) :
    ring.dropNewest.length + 1 = ring.length := by
  have hread := ring.readAt_lt
  have hwrite := ring.writeAt_lt
  have hne : ring.readAt ≠ ring.writeAt := by simpa [isEmpty] using h
  rw [length_eq, length_eq]
  simp only [dropNewest, before]
  grind

/-- Dropping the newest byte drops the last of the list. -/
theorem toList_dropNewest {ring : Ring} (h : ring.isEmpty = false) :
    ring.dropNewest.toList = ring.toList.dropLast := by
  have hdrop := length_dropNewest h
  apply List.ext_getElem?
  intro i
  rw [getElem?_toList, List.getElem?_dropLast, getElem?_toList, length_toList]
  simp only [dropNewest] at hdrop ⊢
  grind

/-- Counting a loss keeps the bytes. -/
@[simp]
theorem toList_countLoss (ring : Ring) : ring.countLoss.toList = ring.toList := rfl

/-! ## The operations -/

/-- A new ring holds no byte. -/
@[simp]
theorem toList_empty (capacity : Nat) : (empty capacity).toList = [] := by
  rw [← List.isEmpty_iff, ← isEmpty_eq_isEmpty_toList]
  rfl

/-- A cleared ring holds no byte. -/
@[simp]
theorem toList_clear (ring : Ring) : ring.clear.toList = [] := by
  rw [← List.isEmpty_iff, ← isEmpty_eq_isEmpty_toList]
  simp [isEmpty, clear]

/-- A ring with one byte less than a full one is not full. -/
theorem isFull_of_length {full ring : Ring} (h : full.isFull = true)
    (hcapacity : ring.capacity = full.capacity) (hlength : ring.length + 1 = full.length) :
    ring.isFull = false := by
  simp only [isFull, beq_iff_eq] at h
  simp only [isFull, beq_eq_false_iff_ne]
  omega

/-- A push appends its byte; a full ring first loses its oldest one. -/
theorem toList_push (ring : Ring) (b : UInt8) :
    (ring.push b).2.toList =
      (if ring.isFull then ring.toList.tail else ring.toList) ++ [b] := by
  unfold push
  split
  · rename_i hfull
    have hempty := isEmpty_of_isFull hfull
    have hroom : ring.skip.countLoss.isFull = false :=
      isFull_of_length hfull rfl (length_skip hempty)
    rw [toList_store b hroom, toList_countLoss, toList_skip hempty]
  · rename_i hfull
    exact toList_store b (by simpa using hfull)

/-- A byte that is taken stood in front of those that remain. -/
theorem toList_of_pop? {ring next : Ring} {b : UInt8}
    (h : ring.pop? = some (b, next)) : ring.toList = b :: next.toList := by
  unfold pop? at h
  simp only [Option.ite_none_left_eq_some, Option.some.injEq, Prod.mk.injEq] at h
  obtain ⟨hne, rfl, rfl⟩ := h
  rw [toList_eq_cons_skip (by simpa using hne)]
  simp [ring.readAt_lt]

/-- Nothing is taken from an empty ring only. -/
theorem pop?_eq_none_iff (ring : Ring) : ring.pop? = none ↔ ring.toList = [] := by
  unfold pop?
  rw [← List.isEmpty_iff, ← isEmpty_eq_isEmpty_toList]
  split <;> simp_all

/-- A byte is put back in front; a full ring first loses its newest one. -/
theorem toList_putBack (ring : Ring) (b : UInt8) :
    (ring.putBack b).toList =
      b :: (if ring.isFull then ring.toList.dropLast else ring.toList) := by
  unfold putBack
  split
  · rename_i hfull
    have hempty := isEmpty_of_isFull hfull
    have hroom : ring.dropNewest.countLoss.isFull = false :=
      isFull_of_length hfull rfl (length_dropNewest hempty)
    rw [toList_storeFront b hroom, toList_countLoss, toList_dropNewest hempty]
  · rename_i hfull
    exact toList_storeFront b (by simpa using hfull)

end Ring

end GraphicsTerminal
