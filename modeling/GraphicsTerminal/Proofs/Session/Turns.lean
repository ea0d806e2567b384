import GraphicsTerminal.Proofs.Terminal.Run
import GraphicsTerminal.Session.Loop

/-!
# Turns and their parts

A turn of a session is what its loop does in a number of parts while nobody interferes.
Once the command to stop was given, the loop comes to its end.

Main definitions:

- {lit}`SessionLoop.ComesTo`: what a loop comes to while nobody interferes.

Main results:

- Theorem {lit}`SessionLoop.isSome_waiting_of_run`: the way of the events stays open until
  the owner hangs up.
- Theorem {lit}`SessionLoop.comesTo_turn`: a turn is a number of parts.
- Theorem {lit}`SessionLoop.IsEnding.ends`: a loop with a command to stop ends.
-/

namespace GraphicsTerminal

namespace EventChannel

/-- Sending events does not close their channel. -/
theorem isSome_waiting_send (c : EventChannel) (events : List TerminalEvent) :
    (c.send events).waiting?.isSome = c.waiting?.isSome := Option.isSome_map

/-- Taking an event does not close its channel. -/
theorem isSome_waiting_take (c : EventChannel) :
    c.take.2.waiting?.isSome = c.waiting?.isSome := by
  rcases c with ⟨received, _ | _ | ⟨event, waiting⟩⟩
  · rfl
  · rfl
  · rfl

end EventChannel

variable {L S : Type} [HostLink L] [Surface S]

namespace SessionLoop

/-- A run can be cut between any two moves. -/
theorem run_append (l : SessionLoop L S) (front back : List SessionMove) :
    l.run (front ++ back) = l.run front >>= fun next => next.run back :=
  List.foldlM_append

/-- A part of a turn does not touch the ring, or takes a step of the terminal. -/
theorem ring_of_part {l next : SessionLoop L S} (h : l.part = .ok next) :
    next.session.terminal.ring = l.session.terminal.ring ∨
      ∃ more, l.session.terminal.step = .ok (more, next.session.terminal) := by
  have hstepped {f : Bool × Terminal L S → SessionLoop L S}
      (hf : ∀ stepped, (f stepped).session.terminal = stepped.2)
      (hmap : l.session.terminal.step.map f = .ok next) :
      ∃ more, l.session.terminal.step = .ok (more, next.session.terminal) := by
    rcases Fault.exists_of_map hmap with ⟨stepped, hstep, rfl⟩
    exact ⟨stepped.1, by rw [hstep, hf]⟩
  rcases l with ⟨⟨terminal, commands, events, stopped⟩, phase⟩
  cases stopped with
  | true =>
    cases h
    exact Or.inl rfl
  | false =>
    cases phase with
    | obeying =>
      left
      rcases commands with _ | ⟨pressed | _, rest⟩
      all_goals
        cases h
        rfl
    | stepping last => exact Or.inr (hstepped (fun _ => rfl) h)
    | delivering last =>
      cases h
      exact Or.inl rfl
    | draining => exact Or.inr (hstepped (fun _ => rfl) h)

/-- A part of a turn does not hang up. -/
theorem isSome_waiting_of_part {l next : SessionLoop L S} (h : l.part = .ok next) :
    next.session.events.waiting?.isSome = l.session.events.waiting?.isSome := by
  rcases l with ⟨⟨terminal, commands, events, stopped⟩, phase⟩
  cases stopped with
  | true =>
    cases h
    rfl
  | false =>
    cases phase with
    | obeying =>
      rcases commands with _ | ⟨pressed | _, rest⟩
      all_goals
        cases h
        rfl
    | stepping last =>
      rcases Fault.exists_of_map h with ⟨stepped, -, rfl⟩
      rfl
    | delivering last =>
      cases h
      exact events.isSome_waiting_send _
    | draining =>
      rcases Fault.exists_of_map h with ⟨stepped, -, rfl⟩
      rfl

/-- The channel stays open until its owner hangs up. -/
theorem isSome_waiting_of_run {l last : SessionLoop L S} {moves : List SessionMove}
    (hopen : .hangUp ∉ moves) (hrun : l.run moves = .ok last) :
    last.session.events.waiting?.isSome = l.session.events.waiting?.isSome := by
  induction moves generalizing l with
  | nil =>
    cases hrun
    rfl
  | cons move moves ih =>
    have hcons : l.run (move :: moves) = l.move move >>= fun next => next.run moves := rfl
    rw [hcons] at hrun
    rcases Fault.exists_of_bind hrun with ⟨next, hmove, hrest⟩
    obtain ⟨hfirst, hlater⟩ := List.ne_and_not_mem_of_not_mem_cons hopen
    rw [ih hlater hrest]
    cases move with
    | push | command =>
      cases hmove
      rfl
    | part => exact isSome_waiting_of_part hmove
    | take =>
      cases hmove
      exact l.session.events.isSome_waiting_take
    | hangUp => exact absurd rfl hfirst

/-! ## While nobody interferes -/

/-- After a number of parts the loop is somewhere, or is refused. -/
def ComesTo (l : SessionLoop L S) (result : Except Fault (SessionLoop L S)) : Prop :=
  ∃ parts, l.run (List.replicate parts .part) = result

namespace ComesTo

variable {l next : SessionLoop L S} {result : Except Fault (SessionLoop L S)}

/-- Without a part the loop stays where it is. -/
theorem refl (l : SessionLoop L S) : l.ComesTo (.ok l) := ⟨0, rfl⟩

/-- After one part the loop is where that part leads. -/
theorem part (l : SessionLoop L S) : l.ComesTo l.part := by
  refine ⟨1, ?_⟩
  have hone : l.run [.part] = l.part >>= Except.ok := rfl
  rw [List.replicate_one, hone]
  cases l.part with
  | error fault => rfl
  | ok next => rfl

/-- What a loop comes to later, it comes to. -/
theorem trans (hfirst : l.ComesTo (.ok next)) (hsecond : next.ComesTo result) :
    l.ComesTo result := by
  rcases hfirst with ⟨first, hfirst⟩
  rcases hsecond with ⟨second, hsecond⟩
  refine ⟨first + second, ?_⟩
  rw [← List.replicate_append_replicate, run_append, hfirst]
  exact hsecond

/-- One part, and what comes after it. -/
theorem cons (hpart : l.part = .ok next) (hnext : next.ComesTo result) :
    l.ComesTo result := by
  apply trans _ hnext
  rw [← hpart]
  exact part l

end ComesTo

/-! ## A turn -/

/-- The commands that wait are obeyed one after another. -/
theorem comesTo_obeyed (s : Session L S) (hgoes : s.stopped = false) :
    (SessionLoop.mk s .obeying).ComesTo
      (.ok ⟨{ s with terminal := (Session.obey s.terminal s.commands).2, commands := [] },
        .stepping (Session.obey s.terminal s.commands).1⟩) := by
  rcases s with ⟨terminal, commands, events, stopped⟩
  obtain rfl : stopped = false := hgoes
  induction commands generalizing terminal with
  | nil => exact ComesTo.part _
  | cons c commands ih =>
    cases c with
    | key key => exact ComesTo.cons rfl (ih (terminal.press key).2)
    | stop => exact ComesTo.part _

/-- The bytes that wait are used one after another. -/
theorem comesTo_drained (s : Session L S) (hgoes : s.stopped = false) :
    (SessionLoop.mk s .draining).ComesTo
      (s.terminal.runUntilIdle.map fun t =>
        ⟨{ s with terminal := t, stopped := true }, .obeying⟩) := by
  rcases s with ⟨terminal, commands, events, stopped⟩
  obtain rfl : stopped = false := hgoes
  have hpart (t : Terminal L S) : (SessionLoop.mk ⟨t, commands, events, false⟩ .draining).part =
      t.step.map fun stepped =>
        ⟨⟨stepped.2, commands, events, !stepped.1⟩,
          if stepped.1 then .draining else .obeying⟩ := rfl
  fun_induction Terminal.runUntilIdle terminal with
  | case1 t fault hstep =>
    have hrefused := ComesTo.part (SessionLoop.mk ⟨t, commands, events, false⟩ .draining)
    rwa [hpart, hstep] at hrefused
  | case2 t idle hstep =>
    have hended := ComesTo.part (SessionLoop.mk ⟨t, commands, events, false⟩ .draining)
    rwa [hpart, hstep] at hended
  | case3 t next hstep ih =>
    apply ComesTo.cons _ ih
    rw [hpart, hstep]
    rfl

/-- A turn after its commands: a step, the events, and in the last turn the bytes that
wait. -/
theorem turn_eq (s : Session L S) (hgoes : s.stopped = false) :
    s.turn =
      (Session.obey s.terminal s.commands).2.step >>= fun stepped =>
        let delivered := { s with terminal := stepped.2, commands := [] }.deliver
        if (Session.obey s.terminal s.commands).1 then
          delivered.terminal.runUntilIdle.map fun t =>
            { delivered with terminal := t, stopped := true }
        else .ok delivered := by
  simp only [Session.turn, hgoes]
  rfl

/-- A turn is a number of parts. -/
theorem comesTo_turn (s : Session L S) :
    (SessionLoop.mk s .obeying).ComesTo (s.turn.map fun s => ⟨s, .obeying⟩) := by
  cases hgoes : s.stopped with
  | true =>
    simp only [Session.turn, hgoes]
    exact ComesTo.refl _
  | false =>
    apply (comesTo_obeyed s hgoes).trans
    rw [turn_eq s hgoes]
    generalize Session.obey s.terminal s.commands = obeyed
    rcases s with ⟨terminal, commands, events, stopped⟩
    obtain rfl : stopped = false := hgoes
    rcases obeyed with ⟨stop, t⟩
    have hstepping : (SessionLoop.mk ⟨t, [], events, false⟩ (.stepping stop)).part =
        t.step.map fun stepped => ⟨⟨stepped.2, [], events, false⟩, .delivering stop⟩ := rfl
    cases hstep : t.step with
    | error fault =>
      have hrefused := ComesTo.part (SessionLoop.mk ⟨t, [], events, false⟩ (.stepping stop))
      rwa [hstepping, hstep] at hrefused
    | ok stepped =>
      apply ComesTo.cons (hstepping.trans (congrArg _ hstep))
      apply ComesTo.cons rfl
      cases stop with
      | false => exact ComesTo.refl _
      | true =>
        have hdrained := comesTo_drained (Session.deliver ⟨stepped.2, [], events, false⟩) rfl
        simp only [bind, Except.bind, if_true]
        generalize (Session.deliver ⟨stepped.2, [], events, false⟩).terminal.runUntilIdle =
          drained at hdrained ⊢
        cases drained with
        | error fault => exact hdrained
        | ok t => exact hdrained

/-- A turn does not hang up. -/
theorem isSome_waiting_of_turn {s s' : Session L S} (hturn : s.turn = .ok s') :
    s'.events.waiting?.isSome = s.events.waiting?.isSome := by
  rcases comesTo_turn s with ⟨parts, hparts⟩
  rw [hturn] at hparts
  exact isSome_waiting_of_run (by simp) hparts

/-! ## The end -/

omit [HostLink L] [Surface S] in
/-- Whether the session has stopped, or will after the commands that wait. -/
def IsEnding (l : SessionLoop L S) : Prop :=
  l.session.stopped = true ∨ l.phase.isLast = true ∨ .stop ∈ l.session.commands

/-- The command to stop is obeyed when it is found. -/
theorem obey_of_mem (t : Terminal L S) {commands : List SessionCommand}
    (hstop : .stop ∈ commands) : (Session.obey t commands).1 = true := by
  induction commands generalizing t with
  | nil => simp at hstop
  | cons c commands ih =>
    cases c with
    | key key => exact ih (t.press key).2 (by simpa using hstop)
    | stop => rfl

/-- The turn that finds the command to stop is the last one. -/
theorem stopped_of_turn {s s' : Session L S} (hstop : .stop ∈ s.commands)
    (hturn : s.turn = .ok s') : s'.stopped = true := by
  cases hgoes : s.stopped with
  | true =>
    simp only [Session.turn, hgoes] at hturn
    cases hturn
    exact hgoes
  | false =>
    rw [turn_eq s hgoes, obey_of_mem s.terminal hstop] at hturn
    rcases Fault.exists_of_bind hturn with ⟨stepped, -, hlast⟩
    rcases Fault.exists_of_map hlast with ⟨t, -, rfl⟩
    rfl

/-- The loop is refused, or comes to its end. -/
def Ends (l : SessionLoop L S) : Prop :=
  ∃ result, l.ComesTo result ∧ ∀ last, result = .ok last → last.session.stopped = true

/-- A loop that ends after a part ends. -/
theorem Ends.cons {l next : SessionLoop L S} (hpart : l.part = .ok next) (hnext : next.Ends) :
    l.Ends := by
  rcases hnext with ⟨result, hcomes, hstopped⟩
  exact ⟨result, ComesTo.cons hpart hcomes, hstopped⟩

/-- A loop that obeys ends if it is to stop: the turn comes to the command. -/
theorem ends_obeying {s : Session L S} (hstop : .stop ∈ s.commands) :
    (SessionLoop.mk s .obeying).Ends := by
  refine ⟨_, comesTo_turn s, ?_⟩
  intro last hlast
  rcases Fault.exists_of_map hlast with ⟨s', hturn, rfl⟩
  exact stopped_of_turn hstop hturn

/-- A loop that drains ends with the session stopped. -/
theorem ends_draining {s : Session L S} (hgoes : s.stopped = false) :
    (SessionLoop.mk s .draining).Ends := by
  refine ⟨_, comesTo_drained s hgoes, ?_⟩
  intro last hlast
  rcases Fault.exists_of_map hlast with ⟨t, -, rfl⟩
  rfl

/-- A loop that delivers ends if its turn is the last one, or a command to stop waits. -/
theorem ends_delivering {s : Session L S} {last : Bool} (hgoes : s.stopped = false)
    (hstop : last = true ∨ .stop ∈ s.commands) :
    (SessionLoop.mk s (.delivering last)).Ends := by
  have hpart : (SessionLoop.mk s (.delivering last)).part =
      .ok ⟨s.deliver, if last then .draining else .obeying⟩ := by
    simp [part, hgoes]
  apply Ends.cons hpart
  cases last with
  | true => exact ends_draining hgoes
  | false => exact ends_obeying (by simpa [Session.deliver] using hstop)

/-- A loop that steps ends if its turn is the last one, or a command to stop waits. -/
theorem ends_stepping {s : Session L S} {last : Bool} (hgoes : s.stopped = false)
    (hstop : last = true ∨ .stop ∈ s.commands) :
    (SessionLoop.mk s (.stepping last)).Ends := by
  have hpart : (SessionLoop.mk s (.stepping last)).part =
      s.terminal.step.map fun stepped =>
        ⟨{ s with terminal := stepped.2 }, .delivering last⟩ := by
    simp [part, hgoes]
  cases hstep : s.terminal.step with
  | error fault =>
    rw [hstep] at hpart
    refine ⟨_, ComesTo.part _, ?_⟩
    intro next hnext
    rw [hpart] at hnext
    cases hnext
  | ok stepped =>
    rw [hstep] at hpart
    exact Ends.cons hpart (ends_delivering hgoes hstop)

/-- A loop that is to stop is refused, or comes to its end, if nobody interferes. -/
theorem IsEnding.ends {l : SessionLoop L S} (hending : l.IsEnding) : l.Ends := by
  rcases l with ⟨s, phase⟩
  cases hgoes : s.stopped with
  | true =>
    refine ⟨_, ComesTo.refl _, ?_⟩
    intro last hlast
    cases hlast
    exact hgoes
  | false =>
    have hstop : phase.isLast = true ∨ .stop ∈ s.commands := by
      simpa [IsEnding, hgoes] using hending
    cases phase with
    | obeying => exact ends_obeying (by simpa [SessionPhase.isLast] using hstop)
    | stepping last => exact ends_stepping hgoes hstop
    | delivering last => exact ends_delivering hgoes hstop
    | draining => exact ends_draining hgoes

end SessionLoop

end GraphicsTerminal
