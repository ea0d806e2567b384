import GraphicsTerminal.Proofs.Terminal.HardReset
import GraphicsTerminal.Proofs.Terminal.Refusal

/-!
# How many steps the loop takes

The loop over the bytes that wait ends, whatever the surface reports: a click puts a handshake
in front of the ring, but the step that takes the click takes the handshake as well and ends
the wait.  So two steps for each byte and two more are enough, though a byte may begin a wait.
At the end no byte and no acknowledgement waits.  The one thing that can stop the loop before
its end is an insertion that is refused.

Main definitions:

- {lit}`Terminal.runWithin`: the loop with a limit on its steps.

Main results:

- Theorem {lit}`Terminal.runWithin_of_work_lt`: more steps than there is work are enough.
- Theorem {lit}`Terminal.runUntilIdle_within`: the limit for a number of bytes, and the terminal
  at the end.
-/

namespace GraphicsTerminal

namespace Terminal

variable {L S : Type} [HostLink L] [Surface S] {t t' : Terminal L S}

/-- What comes of a number of steps, if the loop ends within them: with a step that finds no
byte, or with one that is refused. -/
def runWithin : Nat → Terminal L S → Option (Except Fault (Terminal L S))
  | 0, _ => none
  | limit + 1, t =>
    match t.step with
    | .error fault => some (.error fault)
    | .ok (false, t') => some (.ok t')
    | .ok (true, t') => runWithin limit t'

/-- More steps than there is work are enough for the loop. -/
theorem runWithin_of_work_lt {limit : Nat} (h : t.work < limit) :
    runWithin limit t = some t.runUntilIdle := by
  induction limit generalizing t with
  | zero => exact absurd h (Nat.not_lt_zero _)
  | succ limit ih =>
    rw [runWithin]
    cases hstep : t.step with
    | error fault => rw [runUntilIdle_of_error hstep]
    | ok stepped =>
      obtain ⟨more, next⟩ := stepped
      cases more with
      | false => rw [runUntilIdle_of_idle hstep]
      | true =>
        have hless := work_step_lt hstep
        rw [runUntilIdle_of_more hstep]
        exact ih (by omega)

omit [HostLink L] [Surface S] in
theorem work_le (t : Terminal L S) : t.work ≤ 2 * t.ring.length + 1 :=
  Nat.add_le_add_left t.engine.isAwaitingClick.toNat_le _

/-- The loop succeeds exactly when it comes to no insertion at the first cell. -/
theorem exists_runUntilIdle_iff :
    (∃ t', t.runUntilIdle = .ok t') ↔ ∀ s ∈ t.turns, ¬ s.InsertsAtFirstCell := by
  have hfails (fault : Fault) : t.runUntilIdle = .error fault ↔
      ∃ s ∈ t.turns, s.InsertsAtFirstCell := by
    simp only [runUntilIdle_eq_error_iff, step_eq_error_iff]
  cases hrun : t.runUntilIdle with
  | ok last =>
    refine iff_of_true ⟨last, rfl⟩ fun s hs hinserts => ?_
    have hfailed := (hfails .shiftBeforeMemory).2 ⟨s, hs, hinserts⟩
    rw [hrun] at hfailed
    cases hfailed
  | error fault =>
    refine iff_of_false ?_ fun hnone => ?_
    · rintro ⟨last, hlast⟩
      cases hlast
    · obtain ⟨s, hs, hinserts⟩ := (hfails fault).1 hrun
      exact hnone s hs hinserts

/-- The loop over some bytes ends within two steps for each of them and two more, whatever
clicks the surface reports.  It leaves no byte and no acknowledgement behind, exactly when it
comes to no insertion at the first cell. -/
theorem runUntilIdle_within (t : Terminal L S) :
    runWithin (2 * t.ring.length + 2) t = some t.runUntilIdle ∧
      ((∃ t', t.runUntilIdle = .ok t' ∧ t'.ring.isEmpty = true ∧
          t'.engine.channel.ackPending = false) ↔
        ∀ s ∈ t.turns, ¬ s.InsertsAtFirstCell) := by
  refine ⟨runWithin_of_work_lt (Nat.lt_succ_of_le t.work_le), ?_⟩
  rw [← exists_runUntilIdle_iff]
  refine exists_congr fun last => and_iff_left_of_imp fun hrun => ⟨?_, ?_⟩
  · rw [Ring.isEmpty_eq_isEmpty_toList, (accounts_of_runUntilIdle hrun).empty]
    rfl
  · exact ackPending_of_runUntilIdle hrun

/-- Eighty blanks at the home position stop the loop, in front of an enquiry that waits. -/
theorem runUntilIdle_stops_of_insert_at_home :
    ((recorded 8).push [Byte.esc, 0x5B, 0x38, 0x30, 0x40, Byte.enq]).2.runUntilIdle =
      .error .shiftBeforeMemory := by
  cbv

end Terminal

end GraphicsTerminal
