import GraphicsTerminal.Proofs.Engine.Traffic
import GraphicsTerminal.Proofs.Screen.Erasures
import GraphicsTerminal.Proofs.Screen.RepeatedLines
import GraphicsTerminal.Proofs.Terminal.Refusal

/-!
# Commands for the screen

A byte that completes a command for the screen has the effect of that command, and the screen is
all that it depends on.  So what erasures and repeated line edits do to a screen is what they do
in every run.

Main results:

- Theorem {lit}`Terminal.step_of_screenCommand`: a step that completes a command for the screen.
- Theorem {lit}`Terminal.erasures_of_run_start`: erasures empty exactly their cells.
- Theorem {lit}`Terminal.lineEdits_of_run_start`: line edits are repeated as often as asked for.
-/

namespace GraphicsTerminal

variable {L S : Type} [HostLink L] [Surface S]

/-- Where the next byte completes a command for the screen, the step does what it says. -/
theorem Terminal.step_of_screenCommand {t : Terminal L S} {action : Action} {f : Screen → Screen}
    (h : t.requested? = some action)
    (happly : ∀ e : Engine L S, e.apply action = .ok (e.modifyScreen f)) :
    ∃ t', t.step = .ok (true, t') ∧ t'.engine.screen = f t.engine.screen := by
  obtain ⟨ring, parser, hstep⟩ := step_of_requested h happly
  refine ⟨_, hstep, (Engine.screen_reportLoss _).trans ?_⟩
  exact congrArg f t.screen_pollClick

namespace Terminal

variable {settings : Settings} {link : L} {surface : S} {tape : S → TapeSource}
  {events : List (Event L S)} {t : Terminal L S}

/-! ## Erasures -/

/-- In every run an erasure empties exactly the cells that it covers, and changes nothing else of
the screen, neither over rows nor over one array, where no check fails.  Every way to write its
sequence asks for it, and the step of the last byte does it.  Up to the cursor and from the
cursor on together are the whole view, or the whole line. -/
theorem erasures_of_run_start (hrun : (start settings link surface tape).run events = .ok t)
    (erasure : Erasure) :
    t.engine.screen.Emptied (erasure.erase t.engine.screen) (erasure.Covers t.engine.screen) ∧
      erasure.eraseFlat t.engine.screen.flat = .ok (erasure.erase t.engine.screen).flat ∧
      (∀ p : Parser, p.AtBoundary → ∀ bytes, erasure.Spells bytes →
        ((p.advance Byte.esc).2.feed bytes).1 = [erasure.action]) ∧
      (t.requested? = some erasure.action →
        ∃ t', t.step = .ok (true, t') ∧ t'.engine.screen = erasure.erase t.engine.screen) ∧
      ∀ region ∈ [Erasure.view, Erasure.line],
        (region .fromCursor).erase ((region .upToCursor).erase t.engine.screen) =
            (region .whole).erase t.engine.screen ∧
          (region .upToCursor).erase ((region .fromCursor).erase t.engine.screen) =
            (region .whole).erase t.engine.screen := by
  have hformed := wellFormed_invariant.run (Engine.WellFormed.start settings link surface tape)
    hrun
  have hbounded := hformed.screen.toBounded
  refine ⟨Erasure.emptied hbounded erasure, erasure.flat_erase _, ?_, ?_, ?_⟩
  · intro p hboundary bytes hspells
    obtain ⟨text, hopened, -⟩ := hboundary.advance_esc
    rw [hopened, Erasure.feed_of_spells hspells]
  · intro hasks
    exact step_of_screenCommand hasks erasure.apply_action
  · intro region hregion
    rcases List.mem_pair.1 hregion with rfl | rfl
    · exact Erasure.erase_parts hbounded .view t.engine.screen.Shows fun _ _ _ => Iff.rfl
    · exact Erasure.erase_parts hbounded .line (· = t.engine.screen.cursorRow)
        fun _ _ _ => Iff.rfl

/-- A count far beyond the line, two columns before its end. -/
theorem erasures_of_run_start_recorded :
    ∃ t t', (recorded 16).run
        [.feed [0x41, 0x42, 0x43, Byte.esc, 0x26, 0x61, 0x37, 0x38, 0x43, 0x44, Byte.esc, 0x44],
          .push [Byte.esc, 0x5B, 0x39, 0x39, 0x58], .step, .step, .step, .step] = .ok t ∧
      t.step = .ok (true, t') ∧
      t.engine.screen.memory.cell? 0 78 = some (.written 0x44 .plain) ∧
      t'.engine.screen.memory.cell? 0 78 = some .empty ∧
      t'.engine.screen.memory.cell? 0 2 = some (.written 0x43 .plain) := by
  have hrun : ((recorded 16).run
      [.feed [0x41, 0x42, 0x43, Byte.esc, 0x26, 0x61, 0x37, 0x38, 0x43, 0x44, Byte.esc, 0x44],
        .push [Byte.esc, 0x5B, 0x39, 0x39, 0x58], .step, .step, .step, .step]).map
      (fun t => (t.requested?, t.engine.screen.cursorRow, t.engine.screen.cursor.column,
        t.engine.screen.memory.cell? 0 78, t.engine.screen.memory.cell? 0 2)) =
      .ok (some (.control (.eraseChars 99)), 0, 78, some (.written 0x44 .plain),
        some (.written 0x43 .plain)) := by
    cbv
  obtain ⟨t, hruns, hstate⟩ := Fault.exists_of_map hrun
  simp only [Prod.mk.injEq] at hstate
  obtain ⟨hasks, hrow, hcolumn, hlast, hfirst⟩ := hstate
  obtain ⟨hemptied, -, -, hsteps, -⟩ := erasures_of_run_start hruns (.chars 99)
  obtain ⟨t', hstep, hscreen⟩ := hsteps hasks
  rw [← hscreen] at hemptied
  refine ⟨t, t', hruns, hstep, hlast, ?_, ?_⟩
  · refine hemptied.empty 0 78 (by decide) (by decide) ?_
    simp only [Erasure.Covers, hrow, hcolumn]
    decide
  · rw [hemptied.kept 0 2, hfirst]
    simp only [Erasure.Covers, hcolumn]
    omega

/-! ## Repeated line edits -/

/-- In every run a sequence that opens or removes lines does as many rounds as its count says,
whatever the count is; a negative one means none.  Over one array no check fails in any round.
Every way to write the sequence asks for it, and the step of the last byte does it. -/
theorem lineEdits_of_run_start (hrun : (start settings link surface tape).run events = .ok t)
    (edit : LineEdit) (count : Int) :
    edit.applyCount count.toNat t.engine.screen =
        count.toNat.repeat edit.apply t.engine.screen ∧
      FlatScreen.times edit.applyFlat count.toNat t.engine.screen.flat =
        edit.applyCountFlat count.toNat t.engine.screen.flat ∧
      edit.applyCountFlat count.toNat t.engine.screen.flat =
        .ok (count.toNat.repeat edit.apply t.engine.screen).flat ∧
      (∀ p : Parser, p.AtBoundary → ∀ number, ControlSequence.parameter 1 number = count →
        ((p.advance Byte.esc).2.feed (ControlSequence.spelled number edit.final)).1 =
          [.control (edit.command count)]) ∧
      (t.requested? = some (.control (edit.command count)) →
        ∃ t', t.step = .ok (true, t') ∧
          t'.engine.screen = count.toNat.repeat edit.apply t.engine.screen) := by
  have hformed := wellFormed_invariant.run (Engine.WellFormed.start settings link surface tape)
    hrun
  obtain ⟨htimes, hcount⟩ := LineEdit.times_flat hformed.screen edit count.toNat
  refine ⟨edit.repeat_clipped _ _, htimes.trans hcount.symm, hcount, ?_, ?_⟩
  · intro p hboundary number hnumber
    obtain ⟨text, hopened, -⟩ := hboundary.advance_esc
    rw [hopened, edit.feed_spelled, hnumber]
  · intro hasks
    obtain ⟨t', hstep, hscreen⟩ := step_of_screenCommand hasks (edit.apply_command count)
    exact ⟨t', hstep, hscreen.trans (edit.repeat_clipped _ _)⟩

/-- A hundred lines are removed, more than memory has. -/
theorem lineEdits_of_run_start_recorded :
    ∃ t t', (recorded 16).run
        [.push [0x41, Byte.esc, 0x5B, 0x31, 0x30, 0x30, 0x4D], .step, .step, .step, .step, .step,
          .step] = .ok t ∧
      t.step = .ok (true, t') ∧ t'.engine.screen = (100).repeat Screen.deleteLine t.engine.screen := by
  have hrun : ((recorded 16).run
      [.push [0x41, Byte.esc, 0x5B, 0x31, 0x30, 0x30, 0x4D], .step, .step, .step, .step, .step,
        .step]).map (·.requested?) = .ok (some (.control (.deleteLines 100))) := by
    cbv
  obtain ⟨t, hruns, hasks⟩ := Fault.exists_of_map hrun
  obtain ⟨-, -, -, -, hsteps⟩ := lineEdits_of_run_start hruns .delete 100
  obtain ⟨t', hstep, hscreen⟩ := hsteps hasks
  exact ⟨t, t', hruns, hstep, hscreen⟩

end Terminal

end GraphicsTerminal
