import Mathlib
import GraphicsTerminal.Proofs.Graphics.PlotReading
import GraphicsTerminal.Proofs.Screen.Addressable
import GraphicsTerminal.Proofs.Terminal.WellFormed

/-!
# When a session fails

A session fails in one situation only: a control sequence asks for as many
blanks as a row is wide, or more, while the cursor stands on the first cell of
memory.  In every other turn all accesses to the cells, the ring and the
numbers of a sequence stay in range.

Main definitions:

- {lit}`Terminal.InsertsAtFirstCell`: the next step is such an insertion.
- {lit}`Terminal.Addressable`: all accesses to the screen and the ring are in
  range.
- {lit}`Payload.Addressable`: so are those to the numbers of a sequence, and a
  plot body is read up to its end at most.

Main results:

- Theorem {lit}`Terminal.step_eq_error_iff`: a step fails exactly in that
  situation.
- Theorem {lit}`Terminal.step_of_requested`: a step whose byte completes an action has its
  effect.
- Theorem {lit}`Terminal.fails_iff_insertsAtFirstCell`: a session fails exactly
  when it comes to that situation, and all else stays in range.
- Theorem {lit}`Terminal.fails_of_insert_at_home`: a short input leads to it.
-/

namespace GraphicsTerminal

/-! ## Refused actions -/

/-- An insertion is refused exactly for a full row of blanks at the first cell
of memory. -/
theorem Screen.insertChars_eq_error_iff (s : Screen) (count : Nat) (fault : Fault) :
    s.insertChars count = .error fault ↔ columns ≤ count ∧ s.cursorCell = 0 := by
  have hcell : s.cursorCell = 0 ↔ s.cursorRow = 0 ∧ s.cursor.column = 0 := by
    simp only [cursorCell, Memory.cellNumber, columns]
    omega
  have hroom : s.lineEnd + 1 ≤ min count s.lineRoom ↔ columns ≤ count ∧ s.cursorCell = 0 := by
    rw [hcell]
    simp only [lineEnd, lineRoom, Memory.cellNumber, columns]
    omega
  rw [← hroom, insertChars]
  cases fault
  split
  · rename_i hrefused
    exact ⟨fun _ => hrefused, fun _ => rfl⟩
  · rename_i haccepted
    constructor
    · intro h
      cases h
    · intro h
      exact absurd h haccepted

namespace Engine

variable {L S : Type} [HostLink L] [Surface S]

/-- An action is refused exactly when it is such an insertion. -/
theorem apply_eq_error_iff (e : Engine L S) (action : Action) (fault : Fault) :
    e.apply action = .error fault ↔
      ∃ count : Int, action = .control (.insertChars count) ∧ columns ≤ count ∧
        e.screen.cursorCell = 0 := by
  constructor
  · intro h
    cases action with
    | control command =>
      cases command with
      | insertChars count =>
        cases hinsert : e.screen.insertChars count.toNat with
        | ok screen => simp [apply, applyControl, hinsert, Except.map] at h
        | error refusal =>
          obtain ⟨hcount, hcell⟩ :=
            (Screen.insertChars_eq_error_iff _ _ refusal).1 hinsert
          refine ⟨count, rfl, ?_, hcell⟩
          simp only [columns] at hcount ⊢
          omega
      | _ => cases h
    | _ => cases h
  · rintro ⟨count, rfl, hcount, hcell⟩
    have hrefused : e.screen.insertChars count.toNat = .error fault :=
      (Screen.insertChars_eq_error_iff _ _ fault).2 ⟨by omega, hcell⟩
    simp [apply, applyControl, hrefused, Except.map]

/-- The action that a byte from the host asks for. -/
def requested? (e : Engine L S) (b : UInt8) : Option Action :=
  if b = Byte.enq then none else (e.parser.advance b).1

/-- A byte is refused exactly when the action that it asks for is. -/
theorem receive_eq_error_iff (e : Engine L S) (b : UInt8) (fault : Fault) :
    e.receive b = .error fault ↔
      ∃ count : Int, e.requested? b = some (.control (.insertChars count)) ∧
        columns ≤ count ∧ e.screen.cursorCell = 0 := by
  have hmap (r : Except Fault (Engine L S)) :
      r.map reportLoss = .error fault ↔ r = .error fault := by
    cases r with
    | error refusal => simp [Except.map]
    | ok next => simp [Except.map]
  rw [receive, hmap, requested?]
  by_cases henq : b = Byte.enq
  · simp [henq]
  · rw [if_neg henq, if_neg henq, interpret]
    cases haction : (e.parser.advance b).1 with
    | none => simp
    | some action => simp [apply_eq_error_iff]

/-- A byte that completes an action has its effect. -/
theorem receive_of_requested {e : Engine L S} {b : UInt8} {action : Action}
    {effect : Engine L S → Engine L S} (h : e.requested? b = some action)
    (happly : ∀ e : Engine L S, e.apply action = .ok (effect e)) :
    e.receive b = .ok (effect { e with parser := (e.parser.advance b).2 }).reportLoss := by
  unfold requested? at h
  split at h
  · cases h
  · next hne =>
    rw [receive, if_neg hne, interpret, h]
    exact congrArg (Except.map reportLoss) (happly _)

end Engine

/-! ## Accesses in range -/

/-- The positions in the ring are cells, and the differences that are taken are
not negative. -/
structure Ring.Addressable (ring : Ring) : Prop where
  readAt_lt : ring.readAt < ring.cells.size
  writeAt_lt : ring.writeAt < ring.cells.size
  readAt_le : ring.readAt ≤ ring.writeAt + ring.cells.size
  one_le_size : 1 ≤ ring.cells.size
  length_le : ring.length ≤ ring.capacity - 1

theorem Ring.addressable (ring : Ring) : ring.Addressable where
  readAt_lt := ring.readAt_lt
  writeAt_lt := ring.writeAt_lt
  readAt_le := Nat.le_trans (Nat.le_of_lt ring.readAt_lt) (Nat.le_add_left _ _)
  one_le_size := Nat.le_of_lt ring.two_le_size
  length_le := Nat.le_sub_one_of_lt ring.length_lt_capacity

/-- No more numbers are read than there is room for. -/
theorem Decimal.length_readUpTo_le (limit : Nat) (bytes : List UInt8) :
    (readUpTo limit bytes).1.length ≤ limit := by
  induction limit generalizing bytes with
  | zero => exact Nat.le_refl 0
  | succ limit ih =>
    unfold readUpTo
    split
    · exact Nat.zero_le _
    · exact Nat.succ_le_succ (ih _)

/-- Every term has at most four numbers. -/
theorem Term.length_numbers_le (bytes : List UInt8) :
    ∀ term ∈ (split bytes).1, term.numbers.length ≤ Payload.mostNumbers := by
  fun_induction split bytes with
  | case1 => simp
  | case2 b tail numbers hread => simp
  | case3 b tail numbers letter rest hread hzero => simp
  | case4 b tail numbers letter rest hread hletter more ih =>
    intro term hterm
    rcases List.mem_cons.1 hterm with rfl | hlater
    · have hlength := Decimal.length_readUpTo_le 4 (b :: tail)
      rw [hread] at hlength
      exact hlength
    · exact ih term hlater

/-- There is room for all numbers that are read, and a plot body is read up to
its end at most. -/
structure Payload.Addressable (p : Payload) : Prop where
  numbers : ∀ limit, (p.readNumbers limit).1.length ≤ mostNumbers
  terms : ∀ term ∈ (Term.split p.rest).1, term.numbers.length ≤ mostNumbers
  plot : (Plot.run p).1.rest <:+ p.rest

theorem Payload.addressable (p : Payload) : p.Addressable where
  numbers := fun limit =>
    Nat.le_trans (Decimal.length_readUpTo_le _ _) (Nat.min_le_right limit mostNumbers)
  terms := Term.length_numbers_le p.rest
  plot := Plot.interpret_rest_suffix p.size PlotState.initial none p.rest

/-! ## Sessions -/

namespace Terminal

variable {L S : Type}

/-- All accesses to the screen and the ring are in range. -/
structure Addressable (t : Terminal L S) : Prop where
  screen : t.engine.screen.Addressable
  ring : t.ring.Addressable

/-- The action that the next step applies. -/
def requested? [Surface S] (t : Terminal L S) : Option Action :=
  match t.pollClick.ring.pop? with
  | none => none
  | some (b, _) => t.pollClick.engine.requested? b

/-- The next step inserts as many blanks as a row is wide, or more, and the
cursor stands on the first cell of memory. -/
def InsertsAtFirstCell [Surface S] (t : Terminal L S) : Prop :=
  ∃ count : Int, t.requested? = some (.control (.insertChars count)) ∧ columns ≤ count ∧
    t.engine.screen.cursorCell = 0

/-- A poll for a click keeps the screen. -/
theorem screen_pollClick [Surface S] (t : Terminal L S) :
    t.pollClick.engine.screen = t.engine.screen := by
  rw [engine_pollClick]
  unfold Engine.pollClick
  split
  · split
    · rfl
    · rfl
  · rfl

variable [HostLink L] [Surface S]

/-- A step fails exactly when it is such an insertion. -/
theorem step_eq_error_iff (t : Terminal L S) (fault : Fault) :
    t.step = .error fault ↔ t.InsertsAtFirstCell := by
  unfold InsertsAtFirstCell requested?
  rw [← screen_pollClick t]
  simp only [step]
  cases hpop : t.pollClick.ring.pop? with
  | none => simp
  | some taken =>
    obtain ⟨b, ring⟩ := taken
    simp only [← Engine.receive_eq_error_iff _ b fault]
    cases hreceive : t.pollClick.engine.receive b with
    | error refusal => simp [Except.map]
    | ok engine => simp [Except.map]

/-- A step whose byte completes an action has its effect. -/
theorem step_of_requested {t : Terminal L S} {action : Action}
    {effect : Engine L S → Engine L S} (h : t.requested? = some action)
    (happly : ∀ e : Engine L S, e.apply action = .ok (effect e)) :
    ∃ ring parser, t.step = .ok (true,
      ⟨ring, (effect { t.pollClick.engine with parser := parser }).reportLoss⟩) := by
  unfold requested? at h
  split at h
  · cases h
  · next b ring hpop =>
    refine ⟨ring, (t.pollClick.engine.parser.advance b).2, ?_⟩
    simp only [step, hpop, Engine.receive_of_requested h happly]
    rfl

/-- A session fails exactly when it comes to such an insertion.  Whether it
fails or not, all accesses to the screen and the ring are in range in every
turn and at the end, and so are those to the numbers and plot bodies of
sequences. -/
theorem fails_iff_insertsAtFirstCell (settings : Settings) (link : L) (surface : S)
    (tape : S → TapeSource) (events : List (Event L S)) :
    (((∃ fault, (start settings link surface tape).run events = .error fault) ↔
        ∃ t ∈ (start settings link surface tape).runTurns events, t.InsertsAtFirstCell) ∧
      (∀ t ∈ (start settings link surface tape).runTurns events, t.Addressable) ∧
      (∀ t, (start settings link surface tape).run events = .ok t → t.Addressable) ∧
      ∀ payload : Payload, payload.Addressable) := by
  have hstart := Engine.WellFormed.start settings link surface tape
  refine ⟨?_, ?_, ?_, Payload.addressable⟩
  · simp only [run_eq_error_iff, step_eq_error_iff]
    constructor
    · rintro ⟨-, hturn⟩
      exact hturn
    · intro hturn
      exact ⟨.shiftBeforeMemory, hturn⟩
  · intro t ht
    have hengine := wellFormed_invariant.runTurns events hstart t ht
    exact ⟨hengine.screen.addressable, t.ring.addressable⟩
  · intro t ht
    have hengine := wellFormed_invariant.run hstart ht
    exact ⟨hengine.screen.addressable, t.ring.addressable⟩

/-- Eighty blanks at the home position of a new session make it fail. -/
theorem fails_of_insert_at_home :
    (recorded 8).run [.feed [Byte.esc, 0x5B, 0x38, 0x30, 0x40]] =
      .error .shiftBeforeMemory := by
  cbv

end Terminal

end GraphicsTerminal
