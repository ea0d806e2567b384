import GraphicsTerminal.Proofs.Graphics.PlotReading
import GraphicsTerminal.Proofs.Number.Grammar

/-!
# Abandoned plot bodies

A body that is abandoned did exactly what the bytes in front of the offending one do by
themselves.  Reading looks ahead, at the digits of a number and at a pen letter behind it, but
never past the place where a step ends: what a step took, it takes also where the bytes end.

Main definitions:

- {lit}`PlotError.position`: where a body was abandoned.
- {lit}`Payload.before`: the payload without the bytes from a position on.

Main results:

- Theorem {lit}`Plot.Takes.of_append`: a step is the same without the bytes that it leaves.
- Theorem {lit}`Plot.interpret_of_error`: an abandoned body is its good front.
- Theorem {lit}`Plot.run_before_error`: so is a run, and nothing behind its front has an effect.
-/

namespace GraphicsTerminal

/-- The position of the byte at which a body was abandoned. -/
def PlotError.position : PlotError → Nat
  | malformedNumber offset => offset
  | notANumber _ offset => offset

namespace Payload

/-- The payload without the bytes from a position on. -/
def before (p : Payload) (position : Nat) : Payload :=
  { p with bytes := p.bytes.take position }

theorem rest_before (p : Payload) (position : Nat) :
    (p.before position).rest = p.rest.take (position - p.index) := by
  simp [rest, before, List.drop_take]

end Payload

/-! ## Numbers in front of other bytes -/

variable {front mid stop : List UInt8}

/-- A number does not go on where other bytes begin that are left, so it ends there without
them. -/
theorem Decimal.Written.EndsBefore.of_append {w : Written} (h : w.EndsBefore (mid ++ stop)) :
    w.EndsBefore mid := by
  intro hnone b hb
  refine h hnone b ?_
  cases mid with
  | nil => cases hb
  | cons c mid => exact hb

/-- A number is read in the same way without the bytes that it leaves. -/
theorem Decimal.read?_of_append {r : Reading} (h : read? (front ++ stop) = some r)
    (hrest : r.rest = mid ++ stop) : read? front = some { r with rest := mid } := by
  obtain ⟨w, hbytes, hends, hr⟩ := exists_written h
  rw [hrest] at hbytes hends
  have hfront : front = w.bytes ++ mid :=
    List.append_cancel_right (hbytes.trans (List.append_assoc _ _ _).symm)
  rw [hfront, read?_written hends.of_append, hr]

theorem Packed.read?_of_append {count n : Nat}
    (h : read? count (front ++ stop) = some (n, mid ++ stop)) :
    read? count front = some (n, mid) := by
  have hlength := read?_rest_length h
  simp only [List.length_append] at hlength
  have hle : count ≤ front.length := by omega
  unfold read? at h ⊢
  rw [List.take_append_of_le_length hle, List.drop_append_of_le_length hle] at h
  simp only [Option.ite_none_right_eq_some, Option.some.injEq, Prod.mk.injEq,
    List.append_cancel_right_eq] at h ⊢
  exact h

theorem PlotState.readNumber?_of_append {st : PlotState} {bytes rest : List UInt8} {v : Int}
    {glued : Bool} (h : st.readNumber? bytes = some (v, glued, rest))
    (hbytes : bytes = front ++ stop) (hrest : rest = mid ++ stop) :
    st.readNumber? front = some (v, glued, mid) := by
  subst hbytes hrest
  rcases readNumber?_cases h with ⟨r, hread, hrest, hsame⟩ | ⟨count, n, hread, hsame⟩
  · exact hsame front mid (Decimal.read?_of_append hread hrest)
  · exact hsame front mid (Packed.read?_of_append hread)

namespace Plot

/-! ## The good front of a body -/

variable {size : Nat} {st st' : PlotState} {first first' : Option Int} {b : UInt8}
  {tail rest : List UInt8} {calls : List SurfaceCall} {error : PlotError}

/-- A step is the same without the bytes that it leaves.  Only a line end is taken for the
reason that nothing follows it, and then nothing is left. -/
theorem Takes.of_append (hstop : stop ≠ [])
    (h : Takes st first b (front ++ stop) st' first' calls rest) (hrest : rest = mid ++ stop) :
    Takes st first b front st' first' calls mid := by
  cases h with
  | letter hselect =>
    obtain rfl : front = mid := List.append_cancel_right hrest
    exact .letter hselect
  | lineEnd hselect hend htail => exact absurd (List.append_eq_nil_iff.1 htail).2 hstop
  | waiting hselect hvisible hread hfirst =>
    exact .waiting hselect hvisible (PlotState.readNumber?_of_append hread rfl hrest) hfirst
  | pair hselect hvisible hread hfirst hapart =>
    subst hrest
    refine .pair hselect hvisible (PlotState.readNumber?_of_append hread rfl rfl) hfirst
      fun hglued letter hletter => hapart hglued letter ?_
    cases mid with
    | nil => cases hletter
    | cons c mid => exact hletter
  | @penPair x y pen letter more hselect hvisible hread hfirst hpen =>
    subst hrest
    exact .penPair hselect hvisible (PlotState.readNumber?_of_append hread rfl rfl) hfirst hpen

theorem number_ne_halt {v : Int} {glued : Bool} :
    number st first v glued rest ≠ .halt error := by
  unfold number
  split
  · exact Step.noConfusion
  · split <;> exact Step.noConfusion

/-- A body is abandoned at the byte at which the step stands. -/
theorem position_of_step (h : step size st first b tail = .halt error) :
    error.position = offset size tail := by
  unfold step at h
  simp only at h
  split at h
  · cases h
  · split_ifs at h with hcontrol hend
    · cases h
      rfl
    · split at h
      · cases h
        rfl
      · exact absurd h number_ne_halt

/-- An abandoned body is a good front and the bytes from the offending one on.  The front by
itself does the same without an error. -/
theorem interpret_of_error {bytes : List UInt8}
    (h : (interpret size st first bytes).error = some error) :
    ∃ front b tail, bytes = front ++ b :: tail ∧
      (interpret size st first bytes).rest = b :: tail ∧ error.position = offset size tail ∧
      ∀ size', interpret size' st first front =
        { interpret size st first bytes with error := none, rest := [] } := by
  fun_induction interpret size st first bytes with
  | case1 st first => cases h
  | case2 st first b tail error' hstep =>
    obtain rfl : error' = error := Option.some.inj h
    exact ⟨[], b, tail, rfl, rfl, position_of_step hstep, fun size' => by rw [interpret]⟩
  | case3 st first b tail st' first' calls rest hstep later ih =>
    obtain ⟨mid, stop, after, rfl, hleft, hposition, hmid⟩ := ih h
    have htakes := step_eq_next_iff.1 hstep
    obtain ⟨used, rfl⟩ := htakes.rest_suffix
    -- The step ends in front of the offending byte, so it takes the same without it.
    rw [← List.append_assoc] at htakes
    have hfront := htakes.of_append (List.cons_ne_nil stop after) rfl
    refine ⟨b :: (used ++ mid), stop, after, by simp, hleft, hposition, fun size' => ?_⟩
    rw [interpret_of_next hfront.step_eq, hmid]
    rfl

/-! ## Runs -/

/-- The front of an abandoned body is what the run takes of it. -/
theorem exists_front_of_error {body : Payload}
    (h : (run body).1.error = some error) :
    ∃ front, (body.before error.position).rest = front ∧
      error.position = body.index + front.length ∧ error.position < body.size ∧
      (run body).2 = { body with index := error.position } ∧
      ∀ size', interpret size' .initial none front =
        { interpret body.size .initial none body.rest with error := none, rest := [] } := by
  obtain ⟨front, b, tail, hbytes, hrest, hposition, hfront⟩ := interpret_of_error h
  have hlength := congrArg List.length hbytes
  simp only [Payload.rest, List.length_drop, Array.length_toList, List.length_append,
    List.length_cons] at hlength
  simp only [offset, Payload.size] at hposition
  refine ⟨front, ?_, by omega, by simp only [Payload.size]; omega, ?_, hfront⟩
  · rw [Payload.rest_before, hbytes, show error.position - body.index = front.length by omega,
      List.take_left]
  · rw [run, hrest, Payload.resume, List.length_cons, hposition]

/-- The bytes in front of the offending one do by themselves what an abandoned body did. -/
theorem run_before {body : Payload} (h : (run body).1.error = some error) :
    (run (body.before error.position)).1.calls = (run body).1.calls ∧
      (run (body.before error.position)).1.state = (run body).1.state ∧
      (run (body.before error.position)).1.error = none := by
  obtain ⟨front, hfront, -, -, -, hrun⟩ := exists_front_of_error h
  simp only [run, hfront, hrun, and_self]

/-- A body that is abandoned did what the bytes in front of the offending one do by themselves,
without an error, and it is read up to that byte.  Whatever bytes stand from there on, a body
that is abandoned there did the same. -/
theorem run_before_error {body : Payload} {error : PlotError}
    (h : (run body).1.error = some error) :
    let front := body.before error.position
    body.index ≤ error.position ∧ error.position < body.size ∧
      (run front).1.calls = (run body).1.calls ∧ (run front).1.state = (run body).1.state ∧
      (run front).1.error = none ∧
      (error.position = body.index →
        (run body).1.calls = [] ∧ (run body).1.state = PlotState.initial) ∧
      (run body).2 = { body with index := error.position } ∧
      ∀ other error', (run other).1.error = some error' → error'.position = error.position →
        other.before error.position = front →
        (run other).1.calls = (run body).1.calls ∧ (run other).1.state = (run body).1.state := by
  obtain ⟨front, hfront, hposition, hless, hread, hrun⟩ := exists_front_of_error h
  obtain ⟨hcalls, hstate, herror⟩ := run_before h
  refine ⟨by omega, hless, hcalls, hstate, herror, fun hstart => ?_, hread, ?_⟩
  · obtain rfl : front = [] := List.length_eq_zero_iff.1 (by omega)
    rw [← hcalls, ← hstate, run, hfront, interpret]
    exact ⟨rfl, rfl⟩
  · intro other error' hother heq hsame
    obtain ⟨hcalls', hstate', -⟩ := run_before hother
    rw [heq, hsame] at hcalls' hstate'
    exact ⟨hcalls'.symm.trans hcalls, hstate'.symm.trans hstate⟩

/-- A region is handed over although the body is abandoned in the second pair behind it. -/
theorem run_before_error_region :
    let body : Payload := ⟨#[0x2A, 0x70, 0x73, 0x31, 0x2C, 0x32, 0x20, 0x33, 0x2D, 0x5A], 2⟩
    (run body).1.error = some (.malformedNumber 8) ∧
      (run (body.before 8)).1.calls = [.moveTo ⟨1, 2⟩, .fillPolygon [⟨1, 2⟩]] ∧
      (run body).1.calls = [.moveTo ⟨1, 2⟩, .fillPolygon [⟨1, 2⟩]] ∧ (run body).2.index = 8 := by
  intro body
  have herror : (run body).1.error = some (.malformedNumber 8) := by decide +kernel
  have hcalls : (run (body.before 8)).1.calls = [.moveTo ⟨1, 2⟩, .fillPolygon [⟨1, 2⟩]] := by
    decide +kernel
  obtain ⟨-, -, hfront, -, -, -, hread, -⟩ := run_before_error herror
  exact ⟨herror, hcalls, hfront.symm.trans hcalls, congrArg Payload.index hread⟩

end Plot

end GraphicsTerminal
