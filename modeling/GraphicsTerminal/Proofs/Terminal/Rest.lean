import GraphicsTerminal.Proofs.Terminal.Agreement

/-!
# What waits between steps

A loss of the link is reported in the step in which it happens, so none waits for its
report between steps.  An acknowledgement waits only in a terminal that acknowledges
enquiries.

Main results:

- Theorem {lit}`Terminal.lost_of_run_start`: after a run no loss waits for its report.
- Theorem {lit}`Terminal.ackPending_of_run_start`: after a run no acknowledgement waits,
  unless enquiries are acknowledged.
-/

namespace GraphicsTerminal

/-! ## Losses -/

namespace Engine

variable {L S : Type}

/-- After its report no loss waits. -/
@[simp]
theorem lost_reportLoss (e : Engine L S) : e.reportLoss.channel.lost = none := by
  rw [channel_reportLoss]

/-- Without a loss there is nothing to report. -/
theorem reportLoss_of_none {e : Engine L S} (h : e.channel.lost = none) : e.reportLoss = e := by
  obtain ⟨settings, parser, screen, channel, surface, graphics, tape, alphaActive, events⟩ := e
  obtain ⟨link, remote, pending, ackPending, lost⟩ := channel
  obtain rfl : lost = none := h
  rfl

variable [HostLink L] [Surface S]

theorem lost_of_receive {e e' : Engine L S} {b : UInt8} (h : e.receive b = .ok e') :
    e'.channel.lost = none := by
  unfold receive at h
  rcases Fault.exists_of_map h with ⟨engine, -, rfl⟩
  exact engine.lost_reportLoss

theorem lost_press {e : Engine L S} (h : e.channel.lost = none) (key : Key) :
    (e.press key).2.channel.lost = none := by
  unfold press
  split
  · split
    · exact h
    · exact h
  · exact (e.pressUnlocked key).2.lost_reportLoss

omit [Surface S] in
/-- An engine without a loss and without an acknowledgement does nothing in an idle
moment. -/
theorem idle_of_none {e : Engine L S} (hlost : e.channel.lost = none)
    (hack : e.channel.ackPending = false) : e.idle = e := by
  have hsame : e.useChannel Channel.flushAck = e := by
    unfold useChannel Channel.flushAck
    rw [hack]
    rfl
  rw [idle, hsame, reportLoss_of_none hlost]

end Engine

namespace Terminal

variable {L S : Type} [HostLink L] [Surface S]

/-- Between steps no loss waits for its report. -/
theorem lost_invariant : Invariant fun t : Terminal L S => t.engine.channel.lost = none where
  push := fun _ _ h => h
  step := by
    intro t t' more _ hstep
    rcases engine_of_step hstep with hidled | ⟨b, hreceived⟩
    · rw [hidled]
      exact Engine.lost_reportLoss _
    · exact Engine.lost_of_receive hreceived
  press := fun _ key h => Engine.lost_press h key
  surface := fun _ _ h => h
  link := fun _ _ h => h
  collect := fun _ h => h

/-- After a run no loss waits for its report. -/
theorem lost_of_run_start {settings : Settings} {link : L} {surface : S}
    {tape : S → TapeSource} {events : List (Event L S)} {t : Terminal L S}
    (h : (start settings link surface tape).run events = .ok t) :
    t.engine.channel.lost = none :=
  lost_invariant.run rfl h

/-! ## Acknowledgements -/

/-- An acknowledgement waits only if enquiries are acknowledged. -/
theorem ackPending_kept (settings : Settings) (tape : S → TapeSource) :
    (Frame.alone (L := L) settings tape
      (fun c => settings.enqAck = false → c.ackPending = false) fun _ => True).KeptByAll := by
  refine Frame.alone_keptByAll ?_ ?_ (fun _ _ _ => rfl) fun _ h => h
  · refine Channel.Kept.alone (fun _ _ h => h) (fun _ h => h) fun c screen bytes h => ?_
    rw [Channel.ackPending_sendBytes]
    exact h
  · intro hack c _ hnone
    rw [hnone] at hack
    cases hack

/-- After a run no acknowledgement waits, unless enquiries are acknowledged. -/
theorem ackPending_of_run_start {settings : Settings} {link : L} {surface : S}
    {tape : S → TapeSource} {events : List (Event L S)} {t : Terminal L S}
    (h : (start settings link surface tape).run events = .ok t)
    (hack : t.engine.settings.enqAck = false) : t.engine.channel.ackPending = false := by
  have hpaired := paired_of_run (ackPending_kept settings tape) (fun _ _ _ h => h)
    (fun _ => rfl) trivial h
  refine hpaired.engine.channel.2 ?_
  rw [← hack, hpaired.engine.settings]
  rfl

end Terminal

end GraphicsTerminal
