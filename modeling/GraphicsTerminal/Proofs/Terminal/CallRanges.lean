import GraphicsTerminal.Proofs.Engine.CallRanges
import GraphicsTerminal.Proofs.Terminal.Histories
import GraphicsTerminal.Proofs.Terminal.Refusal
import GraphicsTerminal.Proofs.Terminal.Stream

/-!
# Ranges of calls in a run

Whatever the host sends, the surface of a terminal is told numbers between their bounds, pens
excepted.  A pen can be out of range, and is in the very runs in which a sequence chooses one by
a negative number.

Main definitions:

- {lit}`LoggedSurface.KeepsLog`: a change of the surface that is no call.
- {lit}`Terminal.ChoosesLowPen`: a turn in which a low pen is chosen.

Main results:

- Theorem {lit}`Terminal.exists_calls_of_step`: the calls of a turn.
- Theorem {lit}`Terminal.callRanges_of_run_start`: the calls of a run.
-/

namespace GraphicsTerminal

/-- A change that leaves the log of a surface as it is. -/
def LoggedSurface.KeepsLog {S : Type} (change : LoggedSurface S → LoggedSurface S) : Prop :=
  ∀ surface, (change surface).calls = surface.calls

/-! ## The calls of bytes and keys -/

namespace Engine

variable {L S : Type}

/-- The calls of a byte are in range, unless it completes an action that chooses a low pen. -/
theorem callRanges_byteCalls (e : Engine L S) (b : UInt8) :
    CallRanges (e.byteCalls b) (∃ action, e.requested? b = some action ∧ action.ChoosesLowPen) := by
  unfold byteCalls requested?
  split
  · exact .nil (by simp)
  · cases haction : (e.parser.advance b).1 with
    | none => exact .nil (by simp)
    | some action =>
      have hcalls := Action.callRanges (Parser.origin_of_advance haction) e.graphics
      exact hcalls.congr (by simp)

theorem inRange_of_mem_keyCalls {e : Engine L S} {key : Key} {call : SurfaceCall}
    (h : call ∈ e.keyCalls key) : call.InRange := by
  unfold keyCalls at h
  split at h
  · cases h
  · unfold unlockedCalls at h
    split at h
    · split at h
      · rw [List.mem_singleton.1 h]
        trivial
      · cases h
    · cases h

variable [Surface S]

/-- A poll makes no call. -/
theorem logged_calls_pollClick (e : Engine L (LoggedSurface S)) :
    e.pollClick.2.surface.calls = e.surface.calls := by
  unfold pollClick
  split
  · generalize htaken : Surface.takeClick e.surface = taken
    have hcalls : taken.2.calls = e.surface.calls := by
      rw [← htaken]
      rfl
    obtain ⟨click, surface⟩ := taken
    cases click with
    | none => exact hcalls
    | some click => exact hcalls
  · rfl

theorem Draws.calls_eq {e e' : Engine L (LoggedSurface S)} {calls : List SurfaceCall}
    (h : e.Draws e' calls) : e'.surface.calls = e.surface.calls ++ calls := by
  rw [h.surface_eq, LoggedSurface.calls_callAll]

end Engine

/-! ## The calls of a run -/

namespace Terminal

variable {L S : Type} [Surface S]

/-- The next byte completes an action that chooses a low pen. -/
def ChoosesLowPen (t : Terminal L S) : Prop :=
  ∃ action, t.requested? = some action ∧ action.ChoosesLowPen

variable [HostLink L]

/-- The calls of a turn are in range, unless it chooses a low pen. -/
theorem exists_calls_of_step {t t' : Terminal L (LoggedSurface S)} {more : Bool}
    (h : t.step = .ok (more, t')) :
    ∃ calls, t'.engine.surface.calls = t.engine.surface.calls ++ calls ∧
      CallRanges calls t.ChoosesLowPen := by
  have hpolled : t.pollClick.engine.surface.calls = t.engine.surface.calls := by
    rw [engine_pollClick, Engine.logged_calls_pollClick]
  simp only [step] at h
  split at h
  · next hpop =>
    cases h
    have hasked : t.requested? = none := by rw [requested?, hpop]
    refine ⟨[], ?_, .nil (by simp [ChoosesLowPen, hasked])⟩
    rw [List.append_nil, ← hpolled]
    exact congrArg LoggedSurface.calls t.pollClick.engine.surface_idle
  · next b ring hpop =>
    rcases Fault.exists_of_map h with ⟨engine, hreceive, hstepped⟩
    cases hstepped
    have hasked : t.requested? = t.pollClick.engine.requested? b := by rw [requested?, hpop]
    refine ⟨t.pollClick.engine.byteCalls b, ?_, ?_⟩
    · rw [← hpolled]
      exact (Engine.draws_of_receive hreceive).calls_eq
    · rw [ChoosesLowPen, hasked]
      exact t.pollClick.engine.callRanges_byteCalls b

/-- The calls so far are in range, unless a turn chose a low pen. -/
theorem callRanges_history :
    HistoryUnder LoggedSurface.KeepsLog fun past (t : Terminal L (LoggedSurface S)) =>
      CallRanges t.engine.surface.calls (∃ s ∈ past, s.ChoosesLowPen) where
  push := fun _ _ _ h => h
  step := by
    intro t t' more past hstep h
    obtain ⟨calls, hcalls, hranges⟩ := exists_calls_of_step hstep
    rw [hcalls]
    exact (h.append hranges).congr (by simp [or_and_right, exists_or])
  press := by
    intro t key past h
    have hcalls : (t.press key).2.engine.surface.calls =
        t.engine.surface.calls ++ t.engine.keyCalls key := (t.engine.draws_press key).calls_eq
    rw [hcalls]
    have hkey : CallRanges (t.engine.keyCalls key) False :=
      .of_inRange (fun _ hcall => Engine.inRange_of_mem_keyCalls hcall) id
    exact (h.append hkey).congr (by simp)
  surface := by
    intro t change past hchange h
    have hcalls : (t.changeSurface change).engine.surface.calls = t.engine.surface.calls :=
      hchange t.engine.surface
    rw [hcalls]
    exact h
  link := fun _ _ _ h => h
  collect := fun _ _ h => h

/-- In every run over a surface to which nobody else makes calls, in each turn and at the end, all
calls so far but those that choose a pen are in range; and all are, unless a turn so far chose a
low pen.  A sequence does so when a term of the mode group has a negative number for the pen, or
when the number of a text pen is less than minus one. -/
theorem callRanges_of_run_start (settings : Settings) (link : L) (surface : S)
    (tape : LoggedSurface S → TapeSource) {events : List (Event L (LoggedSurface S))}
    (hevents : ∀ event ∈ events, event.Allowed LoggedSurface.KeepsLog) :
    (∀ before t after,
        (start settings link (⟨surface, []⟩ : LoggedSurface S) tape).runTurns events =
          before ++ t :: after →
        CallRanges t.engine.surface.calls (∃ s ∈ before, s.ChoosesLowPen)) ∧
      (∀ t, (start settings link (⟨surface, []⟩ : LoggedSurface S) tape).run events = .ok t →
        CallRanges t.engine.surface.calls
          (∃ s ∈ (start settings link (⟨surface, []⟩ : LoggedSurface S) tape).runTurns events,
            s.ChoosesLowPen)) ∧
      ∀ p : Parser, p.Reached → p.phase = .inEscape →
        ∀ selector body, selector ≠ 0x6C → Byte.esc ∉ selector :: body →
          (Parser.IsClosed (selector :: body) →
            ∃ action, (p.feed (0x2A :: selector :: body)).1 = [action] ∧
              (action.ChoosesLowPen ↔ (GraphicsGroup.ofByte selector).ChoosesLowPen body)) ∧
          ((∀ b ∈ selector :: body, Parser.isTerminator b = false) →
            ∃ action, (p.feed (0x2A :: selector :: (body ++ [Byte.esc]))).1 = [action] ∧
              (action.ChoosesLowPen ↔
                (GraphicsGroup.ofByte selector).ChoosesLowPen (Byte.capitalizeLast body))) := by
  have hstart : CallRanges
      (start settings link (⟨surface, []⟩ : LoggedSurface S) tape).engine.surface.calls
      (∃ s ∈ ([] : List (Terminal L (LoggedSurface S))), s.ChoosesLowPen) :=
    .singleton (GraphicsState.inRange_setSize _ _ _) (by simp)
  obtain ⟨hturns, hend⟩ := callRanges_history.history_of_run hevents hstart
  exact ⟨hturns, hend, fun p hp hphase selector body hlabel hesc =>
    Parser.feed_choosesLowPen hp hphase hlabel hesc⟩

/-- A term for the pen and a text pen, both with the number minus five. -/
def lowPens {S : Type} : List (Event RecordingLink S) :=
  [.feed [Byte.esc, 0x2A, 0x6D, 0x2D, 0x35, 0x58], .feed [Byte.esc, 0x2A, 0x6E, 0x2D, 0x35, 0x58]]

/-- A new terminal over a logged surface. -/
def startLogged (capacity : Nat) : Terminal RecordingLink (LoggedSurface RecordingSurface) :=
  start { Settings.standard with ringCapacity := capacity } RecordingLink.unlimited
    ⟨RecordingSurface.empty, []⟩ fun _ => .missing

/-- As a call is out of range, there was a turn that chose a low pen. -/
theorem callRanges_of_run_start_lowPens :
    ∃ t, (startLogged 16).run lowPens = .ok t ∧
      t.engine.surface.calls = [.screenSize 512 390, .pen (-4), .textPen (-4)] ∧
      ∃ s ∈ (startLogged 16).runTurns lowPens, s.ChoosesLowPen := by
  have hcalled : ((startLogged 16).run lowPens).map (·.engine.surface.calls) =
      .ok [.screenSize 512 390, .pen (-4), .textPen (-4)] := by
    cbv
  obtain ⟨t, hrun, hcalls⟩ := Fault.exists_of_map hcalled
  have hevents (event : Event RecordingLink (LoggedSurface RecordingSurface))
      (hevent : event ∈ lowPens) : event.Allowed LoggedSurface.KeepsLog := by
    rcases List.mem_pair.1 hevent with rfl | rfl
    · trivial
    · trivial
  obtain ⟨-, hend, -⟩ := callRanges_of_run_start _ _ _ _ hevents
  have hranges := hend t hrun
  refine ⟨t, hrun, hcalls, ?_⟩
  by_contra hnone
  have hpen := hranges.pens.2 hnone (.pen (-4)) (by simp [hcalls])
  exact absurd hpen (by unfold SurfaceCall.InRange; decide)

/-- A negative number chooses a pen that there is not. -/
theorem low_pens_called :
    ∃ t, (recorded 16).run lowPens = .ok t ∧
      t.engine.surface.calls.toList = [.screenSize 512 390, .pen (-4), .textPen (-4)] ∧
      ¬ (SurfaceCall.pen (-4)).InRange ∧ ¬ (SurfaceCall.textPen (-4)).InRange := by
  have hcalled : ((recorded 16).run lowPens).map (·.engine.surface.calls.toList) =
      .ok [.screenSize 512 390, .pen (-4), .textPen (-4)] := by
    cbv
  obtain ⟨t, hrun, hcalls⟩ := Fault.exists_of_map hcalled
  refine ⟨t, hrun, hcalls, ?_, ?_⟩
  · unfold SurfaceCall.InRange
    decide
  · unfold SurfaceCall.InRange
    decide

end Terminal

end GraphicsTerminal
