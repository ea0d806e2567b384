import GraphicsTerminal.Graphics.Plot
import GraphicsTerminal.Proofs.Number.Reading

/-!
# Reading a plot body

A body is read from the front.  Each step takes a letter, a line end at the end of the body, or
a number together with the pen letter directly behind it; and it leaves the end of the bytes.

Main definitions:

- {lit}`Plot.Takes`: what a step takes and what it does.
- {lit}`Plot.Outcome.after`: what a body did, with some calls made before.

Main results:

- Theorem {lit}`Plot.step_eq_next_iff`: the steps that go on are those that take something.
- Theorem {lit}`Plot.interpret_rest_suffix`: what is not interpreted is the end of the body.
-/

namespace GraphicsTerminal

/-- Reading a packed number leaves an end of the bytes. -/
theorem Packed.read?_rest_suffix {count n : Nat} {bytes rest : List UInt8}
    (h : read? count bytes = some (n, rest)) : rest <:+ bytes := by
  unfold read? at h
  simp only [Option.ite_none_right_eq_some, Option.some.injEq, Prod.mk.injEq] at h
  obtain ⟨-, -, rfl⟩ := h
  exact List.drop_suffix count bytes

namespace PlotState

variable {st : PlotState} {bytes rest : List UInt8} {v : Int} {glued : Bool}

/-- A number is a decimal or a packed one.  Other bytes that are read as the same number stand
for the same coordinate. -/
theorem readNumber?_cases (h : st.readNumber? bytes = some (v, glued, rest)) :
    (∃ r, Decimal.read? bytes = some r ∧ r.rest = rest ∧
      ∀ bytes' rest', Decimal.read? bytes' = some { r with rest := rest' } →
        st.readNumber? bytes' = some (v, glued, rest')) ∨
    (∃ count n, Packed.read? count bytes = some (n, rest) ∧
      ∀ bytes' rest', Packed.read? count bytes' = some (n, rest') →
        st.readNumber? bytes' = some (v, glued, rest')) := by
  simp only [readNumber?] at h ⊢
  split at h
  · obtain ⟨r, hread, heq⟩ := Option.map_eq_some_iff.1 h
    simp only [Prod.mk.injEq] at heq
    obtain ⟨rfl, rfl, hrest⟩ := heq
    exact .inl ⟨r, hread, hrest, fun bytes' rest' hread' => by rw [hread']; rfl⟩
  all_goals
    obtain ⟨⟨n, more⟩, hread, heq⟩ := Option.map_eq_some_iff.1 h
    simp only [Prod.mk.injEq] at heq
    obtain ⟨rfl, rfl, rfl⟩ := heq
    exact .inr ⟨_, n, hread, fun bytes' rest' hread' => by rw [hread']; rfl⟩

/-- Reading a number in any form leaves an end of the bytes. -/
theorem readNumber?_rest_suffix (h : st.readNumber? bytes = some (v, glued, rest)) :
    rest <:+ bytes := by
  rcases readNumber?_cases h with ⟨r, hread, rfl, -⟩ | ⟨count, n, hread, -⟩
  · exact Decimal.read?_rest_suffix hread
  · exact Packed.read?_rest_suffix hread

end PlotState

namespace Plot

/-! ## Steps -/

/-- What a step that goes on takes from the front of the bytes, and what it does: a letter, the
line end of a body, the first number of a pair, or the second one. -/
inductive Takes (st : PlotState) (first : Option Int) (b : UInt8) (tail : List UInt8) :
    PlotState → Option Int → List SurfaceCall → List UInt8 → Prop
  | letter {st' : PlotState} {calls : List SurfaceCall}
      (hselect : st.select? (Byte.lower b) = some (st', calls)) :
      Takes st first b tail st' first calls tail
  | lineEnd (hselect : st.select? (Byte.lower b) = none)
      (hend : Byte.lower b = Byte.cr ∨ Byte.lower b = Byte.lf) (htail : tail = []) :
      Takes st first b tail st first [] tail
  | waiting {v : Int} {glued : Bool} {rest : List UInt8}
      (hselect : st.select? (Byte.lower b) = none) (hvisible : ¬ Byte.lower b < 0x20)
      (hread : st.readNumber? (b :: tail) = some (v, glued, rest)) (hfirst : first = none) :
      Takes st first b tail st (some v) [] rest
  | pair {x y : Int} {glued : Bool} {rest : List UInt8}
      (hselect : st.select? (Byte.lower b) = none) (hvisible : ¬ Byte.lower b < 0x20)
      (hread : st.readNumber? (b :: tail) = some (y, glued, rest)) (hfirst : first = some x)
      (hapart : glued = true → ∀ letter ∈ rest.head?, PlotState.penLetter? letter = none) :
      Takes st first b tail (st.stroke ⟨x, y⟩ false).1 none [(st.stroke ⟨x, y⟩ false).2] rest
  | penPair {x y : Int} {pen : Pen} {letter : UInt8} {rest : List UInt8}
      (hselect : st.select? (Byte.lower b) = none) (hvisible : ¬ Byte.lower b < 0x20)
      (hread : st.readNumber? (b :: tail) = some (y, true, letter :: rest))
      (hfirst : first = some x) (hpen : PlotState.penLetter? letter = some pen) :
      Takes st first b tail ({ st with pen := pen }.stroke ⟨x, y⟩ true).1 none
        [({ st with pen := pen }.stroke ⟨x, y⟩ true).2] rest

variable {size : Nat} {st st' : PlotState} {first first' : Option Int} {b : UInt8}
  {tail rest : List UInt8} {calls : List SurfaceCall} {error : PlotError}

/-- A line end is a control byte. -/
theorem lt_of_lineEnd {letter : UInt8} (h : letter = Byte.cr ∨ letter = Byte.lf) :
    letter < 0x20 := by
  rcases h with rfl | rfl <;> decide

/-- A selector is one step, whatever follows. -/
theorem step_of_letter {calls : List SurfaceCall}
    (h : st.select? (Byte.lower b) = some (st', calls)) :
    step size st first b tail = .next st' first calls tail := by
  simp only [step, h]

/-- A byte that selects nothing begins a number. -/
theorem step_of_number {v : Int} {glued : Bool} (hselect : st.select? (Byte.lower b) = none)
    (hvisible : ¬ Byte.lower b < 0x20)
    (hread : st.readNumber? (b :: tail) = some (v, glued, rest)) :
    step size st first b tail = number st first v glued rest := by
  simp only [step, hselect, if_neg hvisible, hread]

/-- A step that takes something goes on. -/
theorem Takes.step_eq (h : Takes st first b tail st' first' calls rest) :
    step size st first b tail = .next st' first' calls rest := by
  cases h with
  | letter hselect => exact step_of_letter hselect
  | lineEnd hselect hend htail =>
    simp only [step, hselect, if_pos (lt_of_lineEnd hend), htail]
    exact if_pos ⟨hend, rfl⟩
  | waiting hselect hvisible hread hfirst =>
    rw [step_of_number hselect hvisible hread, hfirst]
    rfl
  | @pair x y glued rest hselect hvisible hread hfirst hapart =>
    rw [step_of_number hselect hvisible hread, hfirst]
    have hnone : (if glued then rest.head?.bind PlotState.penLetter? else none) = none := by
      cases glued with
      | false => rfl
      | true => simpa [Option.bind_eq_none_iff] using hapart rfl
    simp only [number, hnone]
  | penPair hselect hvisible hread hfirst hpen =>
    rw [step_of_number hselect hvisible hread, hfirst]
    simp only [number, if_pos, List.head?_cons, Option.bind_some, hpen, List.tail_cons]

/-- A number that goes on waits for the second of its pair or completes the pair. -/
theorem takes_of_number {v : Int} {glued : Bool} {more : List UInt8}
    (hselect : st.select? (Byte.lower b) = none) (hvisible : ¬ Byte.lower b < 0x20)
    (hread : st.readNumber? (b :: tail) = some (v, glued, more))
    (h : number st first v glued more = .next st' first' calls rest) :
    Takes st first b tail st' first' calls rest := by
  unfold number at h
  split at h
  · cases h
    exact .waiting hselect hvisible hread rfl
  · next x =>
    split at h
    · next pen hpen =>
      cases h
      split_ifs at hpen with hglued
      obtain ⟨letter, hhead, hletter⟩ := Option.bind_eq_some_iff.1 hpen
      obtain ⟨after, rfl⟩ := List.head?_eq_some_iff.1 hhead
      subst hglued
      exact .penPair hselect hvisible hread rfl hletter
    · next hnone =>
      cases h
      refine .pair hselect hvisible hread rfl fun hglued letter hletter => ?_
      rw [if_pos hglued, Option.mem_def.1 hletter] at hnone
      exact hnone

/-- The steps that go on are those that take something. -/
theorem step_eq_next_iff :
    step size st first b tail = .next st' first' calls rest ↔
      Takes st first b tail st' first' calls rest := by
  refine ⟨fun h => ?_, Takes.step_eq⟩
  unfold step at h
  simp only at h
  split at h
  · next hselect =>
    cases h
    exact .letter hselect
  · next hselect =>
    split_ifs at h with hcontrol hend
    · cases h
      exact .lineEnd hselect hend.1 (List.isEmpty_iff.1 hend.2)
    · split at h
      · cases h
      · next hread => exact takes_of_number hselect hcontrol hread h

/-- What a step leaves is the end of the bytes behind the first one. -/
theorem Takes.rest_suffix (h : Takes st first b tail st' first' calls rest) : rest <:+ tail := by
  have hstep : step 0 st first b tail = .next st' first' calls rest := h.step_eq
  have hlength := step_rest_lt hstep
  have hsuffix : rest <:+ b :: tail := by
    cases h with
    | letter hselect => exact List.suffix_cons b tail
    | lineEnd hselect hend htail => exact List.suffix_cons b tail
    | waiting hselect hvisible hread hfirst => exact PlotState.readNumber?_rest_suffix hread
    | pair hselect hvisible hread hfirst hapart => exact PlotState.readNumber?_rest_suffix hread
    | penPair hselect hvisible hread hfirst hpen =>
      exact (List.suffix_cons _ rest).trans (PlotState.readNumber?_rest_suffix hread)
  rcases List.suffix_cons_iff.1 hsuffix with rfl | htail
  · exact absurd hlength (Nat.lt_irrefl _)
  · exact htail

/-! ## Bodies -/

/-- What follows after some calls were made. -/
def Outcome.after (calls : List SurfaceCall) (later : Outcome) : Outcome :=
  { later with calls := calls ++ later.calls }

/-- After a step the rest of the body is read, and its calls follow. -/
theorem interpret_of_next (h : step size st first b tail = .next st' first' calls rest) :
    interpret size st first (b :: tail) = (interpret size st' first' rest).after calls := by
  rw [interpret]
  split
  · rename_i hhalt
    rw [h] at hhalt
    cases hhalt
  · rename_i hnext
    rw [h] at hnext
    cases hnext
    rfl

/-- An error ends the body where it stands. -/
theorem interpret_of_halt (h : step size st first b tail = .halt error) :
    interpret size st first (b :: tail) = ⟨[], st, some error, b :: tail⟩ := by
  rw [interpret]
  split
  · rename_i hhalt
    rw [h] at hhalt
    cases hhalt
    rfl
  · rename_i hnext
    rw [h] at hnext
    cases hnext

/-- What is not interpreted is the end of the body. -/
theorem interpret_rest_suffix (size : Nat) (st : PlotState) (first : Option Int)
    (bytes : List UInt8) : (interpret size st first bytes).rest <:+ bytes := by
  fun_induction interpret size st first bytes with
  | case1 st first => exact List.suffix_refl []
  | case2 st first b tail error hstep => exact List.suffix_refl _
  | case3 st first b tail st' first' calls rest hstep later ih =>
    exact (ih.trans (step_eq_next_iff.1 hstep).rest_suffix).trans (List.suffix_cons b tail)

end Plot

end GraphicsTerminal
