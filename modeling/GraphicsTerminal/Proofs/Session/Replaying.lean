import GraphicsTerminal.CommandLine.Replay
import GraphicsTerminal.Proofs.Session.Linearization
import GraphicsTerminal.Proofs.Session.Pumping
import GraphicsTerminal.Proofs.Terminal.Rhythm
import GraphicsTerminal.Session.Relay

/-!
# Replays and their schedules

In a replay a pump fills the ring while the session turns and the program takes events;
they take their steps in any order.  Each step of the pump lets bytes wait for which there
is room, and each turn is a number of parts, so what is known of sessions holds of
replays.

Main definitions:

- {lit}`Relay.Simulates`: moves that do the same as some steps of a relay.

Main results:

- Theorem {lit}`Relay.exists_simulates`: all steps of a relay are such moves.
- Theorem {lit}`Relay.replay_visibleText`: the order of the steps cannot be seen.
- Theorem {lit}`Relay.replay_report`: the report depends on it only by the events that the
  program was too late to take.
-/

namespace GraphicsTerminal

variable {L S : Type} [HostLink L] [Surface S]

/-! ## Sessions without keys -/

namespace SessionLoop

variable {t : Terminal L S}

/-- Parts let nothing wait. -/
theorem pushesFit_parts (l : SessionLoop L S) (parts : Nat) :
    l.pushesFit (List.replicate parts .part) = true := by
  induction parts generalizing l with
  | zero => rfl
  | succ parts ih =>
    simp only [List.replicate_succ, pushesFit, move, Bool.true_and]
    cases l.part with
    | error fault => rfl
    | ok next => exact ih next

/-- A session that is refused without keys refuses a stream that begins with its bytes. -/
theorem feed_of_refused {moves : List SessionMove} {bytes : List UInt8} {fault : Fault}
    (ht : t.Steady) (hfits : (SessionLoop.start t).pushesFit moves = true)
    (hkeys : SessionCommand.obeyed (SessionMove.sent moves) = [])
    (hfront : SessionMove.pushed moves <+: bytes)
    (hrefused : (SessionLoop.start t).run moves = .error fault) :
    t.feed bytes = .error fault := by
  have hserved := (SessionLoop.served_start ht.ring_empty ht.quiet.silent).run hfits
  rw [hrefused] at hserved
  rcases hserved with ⟨inputs, ⟨hbytes, hpressed⟩, hmatch⟩
  simp only [List.nil_append, hkeys, List.prefix_nil] at hbytes hpressed
  exact ht.feed_error hpressed (hbytes.trans hfront) hmatch.of_error

/-- A session that stops without keys, and without bytes after the command to stop, shows
what its bytes show. -/
theorem feed_of_stopped {before after : List SessionMove} {l : SessionLoop L S}
    (ht : t.Steady) (hnone : ∀ c, .command c ∉ before)
    (hfits : (SessionLoop.start t).pushesFit (before ++ .command .stop :: after) = true)
    (hrun : (SessionLoop.start t).run (before ++ .command .stop :: after) = .ok l)
    (hstopped : l.session.stopped = true) (hafter : SessionMove.pushed after = []) :
    ∃ fed, t.feed (SessionMove.pushed before) = .ok fed ∧
      l.session.terminal.engine.screen = fed.engine.screen ∧
      ∀ waiting, l.session.events.waiting? = some waiting →
        l.session.events.received ++ waiting ++ l.session.terminal.engine.events.toList =
          fed.engine.events.toList := by
  rcases SessionLoop.servedBy_shutdown ht.ring_empty ht.quiet.silent (hnone .stop) hfits with
    ⟨inputs, -, hmatch⟩
  rw [hrun] at hmatch
  rcases hmatch.of_ok with ⟨m, htaken, hserved⟩
  have hlinear := hserved.linearized (hnone .stop) hstopped hrun htaken
  rw [List.nil_append] at hlinear
  have hbytes : TerminalInput.bytes inputs = SessionMove.pushed before := by
    have hall := hlinear.bytes_eq
    rw [SessionMove.pushed_append, hafter, List.append_nil] at hall
    have hlength : (TerminalInput.bytes inputs).length ≤ (SessionMove.pushed before).length := by
      simp [← hall]
    exact (hlinear.pushed_prefix.eq_of_length_le hlength).symm
  have hfeed := ht.takeAll_feed (hlinear.keys_eq.trans (SessionMove.keys_eq_nil hnone))
  rw [htaken, hbytes] at hfeed
  rcases hfeed.of_ok with ⟨fed, hfed, hview⟩
  refine ⟨fed, hfed, ?_, ?_⟩
  · rw [hlinear.terminal_eq]
    exact congrArg View.screen hview
  · intro waiting hopen
    rcases hlinear.events_eq with ⟨rest, hevents, hrest⟩
    rw [← hrest waiting hopen, ← hevents]
    exact congrArg (fun view => view.events.toList) hview

end SessionLoop

/-! ## Steps of a relay as moves of a loop -/

namespace Relay

/-- The loop of the session of a relay, between two turns. -/
def loop (r : Relay L S) : SessionLoop L S := ⟨r.session, .obeying⟩

/-- What the pump of a relay saw is there. -/
def Ready (r : Relay L S) : Prop := r.pump.Ready r.session.terminal.ring

/-- Moves of the loop that do the same as some steps of the relay. -/
structure Simulates (r : Relay L S) (schedule : List RelayStep)
    (next : Except Fault (Relay L S)) (moves : List SessionMove) : Prop where
  fits : r.loop.pushesFit moves = true
  commands : ∀ c, .command c ∈ moves → .command c ∈ schedule
  pushed_prefix : SessionMove.pushed moves <+: r.pump.ahead
  run : Matches (fun r' l => l = r'.loop ∧ r'.Ready ∧
    SessionMove.pushed moves ++ r'.pump.ahead = r.pump.ahead) next (r.loop.run moves)

variable {r : Relay L S}

omit [HostLink L] [Surface S] in
/-- A pump that has ended has nothing ahead of it. -/
theorem Ready.ahead_eq (h : r.Ready) (hdone : r.pump.isDone = true) : r.pump.ahead = [] := by
  simp [Pump.ahead, Pump.unread, hdone, h.chunk_eq hdone]

/-- A step of the pump lets bytes wait for which there is room. -/
theorem simulates_pump (h : r.Ready) :
    ∃ moves, r.Simulates [.pump] (r.next .pump) moves := by
  rcases Pump.step_pushes h with ⟨pushed, hfits, hring, hahead, hready⟩
  have hpumped : r.loop.move (.push pushed) = .ok r.pumped.loop := by
    simp only [SessionLoop.move, loop, Session.push, Terminal.push, pumped, hring]
  refine ⟨[.push pushed], ?_, by simp, ?_, ?_⟩
  · have hroom : pushed.length ≤ r.loop.session.terminal.ring.free := hfits
    simp [SessionLoop.pushesFit, SessionLoop.move, hroom]
  · rw [← hahead]
    simp [SessionMove.pushed, SessionMove.bytes]
  · have hrun : r.loop.run [.push pushed] = .ok r.pumped.loop := by
      simp [SessionLoop.run, hpumped]
    rw [hrun]
    refine .ok ⟨rfl, hready, ?_⟩
    rw [← hahead]
    simp [SessionMove.pushed, SessionMove.bytes, pumped]

/-- The owner takes an event. -/
theorem simulates_take (h : r.Ready) : r.Simulates [.take] (r.next .take) [.take] where
  fits := rfl
  commands := by simp
  pushed_prefix := List.nil_prefix
  run := .ok ⟨rfl, h, rfl⟩

/-- A command comes to the session. -/
theorem simulates_command (h : r.Ready) (c : SessionCommand) :
    r.Simulates [.command c] (r.next (.command c)) [.command c] where
  fits := rfl
  commands := by
    intro c' hc'
    simpa using hc'
  pushed_prefix := List.nil_prefix
  run := .ok ⟨rfl, h, rfl⟩

/-- Moves that do the same as some steps, and then those that do the same as later ones. -/
theorem Simulates.bind {first second : List RelayStep} {next : Except Fault (Relay L S)}
    {later : Relay L S → Except Fault (Relay L S)} {moves : List SessionMove}
    (h : r.Simulates first next moves)
    (hlater : ∀ r' : Relay L S, r'.Ready → ∃ moves, r'.Simulates second (later r') moves) :
    ∃ moves, r.Simulates (first ++ second) (next >>= later) moves := by
  rcases h with ⟨hfits, hcommands, hfront, hmatch⟩
  cases next with
  | error fault =>
    refine ⟨moves, hfits, ?_, hfront, ?_⟩
    · intro c hc
      exact List.mem_append_left second (hcommands c hc)
    · rw [hmatch.of_error]
      exact .error fault
  | ok r' =>
    rcases hmatch.of_ok with ⟨l, hrun, rfl, hready, hahead⟩
    rcases hlater r' hready with ⟨moves', hfits', hcommands', hfront', hmatch'⟩
    refine ⟨moves ++ moves', ?_, ?_, ?_, ?_⟩
    · rw [SessionLoop.pushesFit_append_iff]
      refine ⟨hfits, ?_⟩
      intro next hnext
      rw [hrun] at hnext
      cases hnext
      exact hfits'
    · intro c hc
      rw [List.mem_append] at hc ⊢
      exact hc.imp (hcommands c) (hcommands' c)
    · rw [SessionMove.pushed_append, ← hahead]
      exact (List.prefix_append_right_inj _).2 hfront'
    · rw [SessionLoop.run_append, hrun]
      apply hmatch'.mono
      rintro r'' l ⟨hloop, hready', hahead'⟩
      refine ⟨hloop, hready', ?_⟩
      rw [SessionMove.pushed_append, List.append_assoc, hahead', hahead]

/-! ## The command to stop -/

/-- A relay whose session was told to stop has stopped after another turn. -/
theorem stopped_of_run {last : Relay L S} {schedule : List RelayStep}
    (hstop : r.session.stopped = true ∨
      .stop ∈ r.session.commands ∧ .turn ∈ schedule)
    (hrun : r.run schedule = .ok last) : last.session.stopped = true := by
  induction schedule generalizing r with
  | nil =>
    cases hrun
    simpa using hstop
  | cons step schedule ih =>
    have hcons : r.run (step :: schedule) = r.next step >>= fun next => next.run schedule := rfl
    rw [hcons] at hrun
    rcases Fault.exists_of_bind hrun with ⟨r', hnext, hrest⟩
    apply ih _ hrest
    cases step with
    | pump =>
      cases hnext
      simpa [pumped] using hstop
    | command c =>
      cases hnext
      apply hstop.imp_right
      rintro ⟨hwaits, hturn⟩
      exact ⟨List.mem_append_left [c] hwaits, by simpa using hturn⟩
    | take =>
      cases hnext
      simpa [Session.takeEvent] using hstop
    | turn =>
      rcases Fault.exists_of_map hnext with ⟨s, hturn, rfl⟩
      left
      rcases hstop with hstopped | ⟨hwaits, -⟩
      · simp only [Session.turn, hstopped] at hturn
        cases hturn
        exact hstopped
      · exact SessionLoop.stopped_of_turn hwaits hturn

theorem stopped_of_shutdown {last : Relay L S} {before after : List RelayStep}
    (hafter : .turn ∈ after) (hrun : r.run (before ++ .command .stop :: after) = .ok last) :
    last.session.stopped = true := by
  have hsplit : r.run (before ++ .command .stop :: after) =
      r.run before >>= fun r' => r'.run (.command .stop :: after) := List.foldlM_append
  rw [hsplit] at hrun
  rcases Fault.exists_of_bind hrun with ⟨r', -, hrest⟩
  have htold : Relay.run { r' with session := r'.session.command .stop } after = .ok last :=
    hrest
  apply stopped_of_run _ htold
  right
  exact ⟨by simp [Session.command], hafter⟩

/-! ## The channel stays open -/

/-- In a relay nobody hangs up. -/
theorem isSome_waiting_of_run {last : Relay L S} {schedule : List RelayStep}
    (hrun : r.run schedule = .ok last) :
    last.session.events.waiting?.isSome = r.session.events.waiting?.isSome := by
  induction schedule generalizing r with
  | nil =>
    cases hrun
    rfl
  | cons step schedule ih =>
    have hcons : r.run (step :: schedule) = r.next step >>= fun next => next.run schedule := rfl
    rw [hcons] at hrun
    rcases Fault.exists_of_bind hrun with ⟨r', hnext, hrest⟩
    rw [ih hrest]
    cases step with
    | pump | command =>
      cases hnext
      rfl
    | take =>
      cases hnext
      exact r.session.events.isSome_waiting_take
    | turn =>
      rcases Fault.exists_of_map hnext with ⟨s, hturn, rfl⟩
      exact SessionLoop.isSome_waiting_of_turn hturn

end Relay

/-! ## Room for the pump -/

section

variable [ClicklessSurface S]

/-- Without clicks a step makes more room, if any. -/
theorem Terminal.free_le_of_step {t t' : Terminal L S} {more : Bool}
    (h : t.step = .ok (more, t')) : t.ring.free ≤ t'.ring.free := by
  have hclick := ClicklessSurface.pollClick_eq t.engine
  rcases hpop : t.ring.pop? with _ | ⟨b, ring⟩
  · rw [step_of_empty hclick ((Ring.pop?_eq_none_iff _).1 hpop)] at h
    cases h
    exact Nat.le_refl _
  · have hfree := Ring.free_of_pop? hpop
    rw [step_of_pop? hclick hpop] at h
    rcases Fault.exists_of_map h with ⟨engine, -, hstepped⟩
    cases hstepped
    have hle : t.ring.free ≤ ring.free := by omega
    exact hle

namespace SessionLoop

theorem free_le_of_part {l next : SessionLoop L S} (h : l.part = .ok next) :
    l.session.terminal.ring.free ≤ next.session.terminal.ring.free := by
  rcases ring_of_part h with hring | ⟨more, hstep⟩
  · rw [hring]
  · exact Terminal.free_le_of_step hstep

/-- While nobody interferes, there is more and more room. -/
theorem free_le_of_parts {l last : SessionLoop L S} {parts : Nat}
    (h : l.run (List.replicate parts .part) = .ok last) :
    l.session.terminal.ring.free ≤ last.session.terminal.ring.free := by
  induction parts generalizing l with
  | zero =>
    cases h
    exact Nat.le_refl _
  | succ parts ih =>
    have hrun : l.run (List.replicate (parts + 1) .part) =
        l.part >>= fun next => next.run (List.replicate parts .part) := rfl
    rw [hrun] at h
    rcases Fault.exists_of_bind h with ⟨next, hpart, hrest⟩
    exact Nat.le_trans (free_le_of_part hpart) (ih hrest)

end SessionLoop

namespace Relay

variable {r : Relay L S}

/-- A turn is a number of parts, which make no less room. -/
theorem simulates_turn (h : r.Ready) : ∃ moves, r.Simulates [.turn] (r.next .turn) moves := by
  rcases SessionLoop.comesTo_turn r.session with ⟨parts, hparts⟩
  have hpushed : SessionMove.pushed (List.replicate parts .part) = [] := by
    simp [SessionMove.pushed, SessionMove.bytes]
  refine ⟨List.replicate parts .part, SessionLoop.pushesFit_parts _ _, by simp, ?_, ?_⟩
  · rw [hpushed]
    exact List.nil_prefix
  · rw [loop, hparts, hpushed, next]
    cases hturn : r.session.turn with
    | error fault => exact .error fault
    | ok s =>
      rw [hturn] at hparts
      have hfree := SessionLoop.free_le_of_parts hparts
      exact .ok ⟨rfl, h.mono hfree, rfl⟩

theorem exists_simulates_next (h : r.Ready) (step : RelayStep) :
    ∃ moves, r.Simulates [step] (r.next step) moves := by
  cases step with
  | pump => exact simulates_pump h
  | turn => exact simulates_turn h
  | command c => exact ⟨[.command c], simulates_command h c⟩
  | take => exact ⟨[.take], simulates_take h⟩

/-- All steps of a relay are moves of its loop. -/
theorem exists_simulates (h : r.Ready) (schedule : List RelayStep) :
    ∃ moves, r.Simulates schedule (r.run schedule) moves := by
  induction schedule generalizing r with
  | nil =>
    refine ⟨[], rfl, by simp, List.nil_prefix, ?_⟩
    exact .ok ⟨rfl, h, rfl⟩
  | cons step schedule ih =>
    rcases exists_simulates_next h step with ⟨moves, hmoves⟩
    exact hmoves.bind fun r' hready => ih hready

/-! ## Replays -/

/-- When the command to stop comes after the pump has ended, all that is pushed is pushed
before it. -/
theorem exists_simulates_shutdown {before : List RelayStep} (h : r.Ready)
    (hbefore : ∀ c, .command c ∉ before)
    (hdone : ∀ r', r.run before = .ok r' → r'.pump.isDone = true) (after : List RelayStep) :
    ∃ first second, (∀ c, .command c ∉ first) ∧
      r.loop.pushesFit (first ++ .command .stop :: second) = true ∧
      SessionMove.pushed first <+: r.pump.ahead ∧ SessionMove.pushed second = [] ∧
      Matches (fun last l => l = last.loop ∧ SessionMove.pushed first = r.pump.ahead)
        (r.run (before ++ .command .stop :: after))
        (r.loop.run (first ++ .command .stop :: second)) := by
  rcases exists_simulates h before with ⟨first, hfits, hcommands, hfront, hmatch⟩
  have hnone : ∀ c, .command c ∉ first := fun c hc => hbefore c (hcommands c hc)
  have hsplit : r.run (before ++ .command .stop :: after) =
      r.run before >>= fun r' => r'.run (.command .stop :: after) := List.foldlM_append
  rw [hsplit]
  cases hrun : r.run before with
  | error fault =>
    rw [hrun] at hmatch
    refine ⟨first, [], hnone, ?_, hfront, rfl, ?_⟩
    · rw [SessionLoop.pushesFit_append_iff, hmatch.of_error]
      exact ⟨hfits, by simp⟩
    · rw [SessionLoop.run_append, hmatch.of_error]
      exact .error fault
  | ok r' =>
    rw [hrun] at hmatch
    rcases hmatch.of_ok with ⟨l, hloop, rfl, hready, hahead⟩
    rw [hready.ahead_eq (hdone r' hrun), List.append_nil] at hahead
    let told : Relay L S := { r' with session := r'.session.command .stop }
    have htold : told.Ready := hready
    rcases exists_simulates htold after with ⟨second, hfits', -, hfront', hmatch'⟩
    have hnothing : SessionMove.pushed second = [] := by
      rwa [hready.ahead_eq (hdone r' hrun), List.prefix_nil] at hfront'
    refine ⟨first, second, hnone, ?_, hfront, hnothing, ?_⟩
    · rw [SessionLoop.pushesFit_append_iff, hloop]
      refine ⟨hfits, ?_⟩
      intro next hnext
      obtain rfl : r'.loop = next := Except.ok.inj hnext
      exact hfits'
    · rw [SessionLoop.run_append, hloop]
      apply hmatch'.mono
      rintro last l ⟨hl, -, -⟩
      exact ⟨hl, hahead⟩

/-- What a session that stopped shows of the stream that a terminal was fed: the screen,
and all events, of which some were received and others wait in the channel. -/
def Shows (r : Relay L S) (fed : Terminal L S) : Prop :=
  r.session.stopped = true ∧ r.session.terminal.engine.screen = fed.engine.screen ∧
    ∃ waiting, r.session.events.waiting? = some waiting ∧
      r.session.events.received ++ waiting ++ r.session.terminal.engine.events.toList =
        fed.engine.events.toList

/-- The session that is told to stop when the pump has ended shows what the stream shows,
or both are refused alike. -/
theorem run_shows_stream {t : Terminal L S} (ht : t.Steady) (reads : List ReadResult)
    {before after : List RelayStep} (hbefore : ∀ c, .command c ∉ before)
    (hdone : ∀ r, (start t reads).run before = .ok r → r.pump.isDone = true)
    (hafter : .turn ∈ after) :
    Matches Shows ((start t reads).run (before ++ .command .stop :: after))
      (t.feed (ReadResult.stream reads)) := by
  have hready : (start t reads).Ready := Pump.ready_start reads t.ring
  have hahead : (start t reads).pump.ahead = ReadResult.stream reads := Pump.ahead_start reads
  rcases exists_simulates_shutdown hready hbefore hdone after with
    ⟨first, second, hnone, hfits, hfront, hnothing, hmatch⟩
  cases hrun : (start t reads).run (before ++ .command .stop :: after) with
  | error fault =>
    rw [hrun] at hmatch
    have hkeys : SessionCommand.obeyed
        (SessionMove.sent (first ++ .command .stop :: second)) = [] := by
      rw [SessionMove.sent_append, SessionMove.sent_eq_nil hnone]
      rfl
    have hpushed : SessionMove.pushed (first ++ .command .stop :: second) =
        SessionMove.pushed first ++ SessionMove.pushed second := SessionMove.pushed_append _ _
    rw [← hahead, SessionLoop.feed_of_refused ht hfits hkeys _ hmatch.of_error]
    · exact .error fault
    · rw [hpushed, hnothing, List.append_nil]
      exact hfront
  | ok last =>
    rw [hrun] at hmatch
    rcases hmatch.of_ok with ⟨l, hl, rfl, hall⟩
    have hstopped := stopped_of_shutdown hafter hrun
    rcases SessionLoop.feed_of_stopped ht hnone hfits hl hstopped hnothing with
      ⟨fed, hfed, hscreen, hevents⟩
    have hopen : last.session.events.waiting?.isSome = true := isSome_waiting_of_run hrun
    rcases Option.isSome_iff_exists.1 hopen with ⟨waiting, hwaiting⟩
    rw [← hahead, ← hall, hfed]
    exact .ok ⟨hstopped, hscreen, waiting, hwaiting, hevents waiting hwaiting⟩

/-- A new replay waits for its stream. -/
theorem replay_steady {settings : Settings} (hremote : settings.remote = true) (surface : S)
    (tape : S → TapeSource) : (Replay.terminal settings surface tape).Steady where
  remote := hremote
  lost := rfl
  reliable := DiscardingLink.reliable _
  ackPending := fun _ => rfl
  quiet := ClicklessSurface.quiet _ _
  ring_empty := Ring.toList_empty _

section

variable {settings : Settings} {before after : List RelayStep}

/-- In a replay the order of the steps cannot be seen.  However reading cuts the stream into
pieces, and in whatever order the pump, the session and its owner take their steps, the
session that is told to stop after the pump has ended shows the text that a new terminal
shows when it is fed the stream at once.  The events that the owner received, those that
wait for it, and those in the terminal are the events of the stream.  Or both are refused
alike. -/
theorem replay_visibleText (hremote : settings.remote = true) (surface : S)
    (tape : S → TapeSource) (reads : List ReadResult) (hbefore : ∀ c, .command c ∉ before)
    (hdone : ∀ r, (start (Replay.terminal settings surface tape) reads).run before = .ok r →
      r.pump.isDone = true)
    (hafter : .turn ∈ after) :
    Matches
      (fun r t => r.session.stopped = true ∧
        r.session.terminal.engine.screen.visibleText = t.engine.screen.visibleText ∧
        ∃ waiting, r.session.events.waiting? = some waiting ∧
          r.session.events.received ++ waiting ++ r.session.terminal.engine.events.toList =
            t.engine.events.toList)
      ((start (Replay.terminal settings surface tape) reads).run
        (before ++ .command .stop :: after))
      ((Replay.terminal settings surface tape).feed (ReadResult.stream reads)) := by
  have hshows := run_shows_stream (replay_steady hremote surface tape) reads hbefore hdone hafter
  apply hshows.mono
  rintro r t ⟨hstopped, hscreen, hevents⟩
  exact ⟨hstopped, congrArg Screen.visibleText hscreen, hevents⟩

/-- Four bytes come in two pieces through a ring for two, and the session turns and its
owner takes an event in between. -/
theorem replay_visibleText_logged :
    let settings := { Settings.standard with ringCapacity := 3 }
    let t := Replay.terminal settings Replay.LoggingSurface.start fun surface =>
      .image surface.logFile
    let reads := [.data [0x61, Byte.bel, 0x62], .interrupted, .data [0x63]]
    let before := [.pump, .pump, .turn, .pump, .pump, .turn, .pump, .turn, .pump, .pump, .take,
      .pump, .turn, .pump, .pump, .pump]
    Matches
      (fun r fed => r.session.stopped = true ∧
        r.session.terminal.engine.screen.visibleText = fed.engine.screen.visibleText ∧
        ∃ waiting, r.session.events.waiting? = some waiting ∧
          r.session.events.received ++ waiting ++ r.session.terminal.engine.events.toList =
            fed.engine.events.toList)
      ((start t reads).run (before ++ [.command .stop, .turn]))
      (t.feed [0x61, Byte.bel, 0x62, 0x63]) := by
  intro settings t reads before
  have hremote : settings.remote = true := rfl
  have hbefore : ∀ c, RelayStep.command c ∉ before := by
    intro c
    simp [before]
  have hended : ((start t reads).run before).map (fun r => r.pump.isDone) = .ok true := by
    cbv
  have hdone : ∀ r, (start t reads).run before = .ok r → r.pump.isDone = true := by
    intro r hrun
    rw [hrun] at hended
    exact Except.ok.inj hended
  have hafter : RelayStep.turn ∈ [RelayStep.turn] := List.mem_singleton.2 rfl
  exact replay_visibleText hremote _ _ reads hbefore hdone hafter

omit [HostLink L] [Surface S] [ClicklessSurface S] in
/-- The events that were received are all that are heard when the others came too late. -/
theorem Shows.exists_heard {r : Relay L S} {fed : Terminal L S} (h : r.Shows fed) :
    ∃ unheard, Replay.heard unheard fed = r.session.events.received := by
  rcases h with ⟨-, -, waiting, -, hevents⟩
  refine ⟨(waiting ++ r.session.terminal.engine.events.toList).length, ?_⟩
  rw [Replay.heard, ← Array.length_toList, ← hevents]
  simp [List.append_assoc]

/-- What the program reports of a session in any order of the steps is what is reported of
the stream, but for events that the program was too late to take. -/
theorem replay_report (hremote : settings.remote = true) (surface : S)
    (tape : S → TapeSource) (reads : List ReadResult) (hbefore : ∀ c, .command c ∉ before)
    (hdone : ∀ r, (start (Replay.terminal settings surface tape) reads).run before = .ok r →
      r.pump.isDone = true)
    (hafter : .turn ∈ after) (dump : Bool) :
    Matches
      (fun r t => ∃ unheard,
        Replay.sessionReport dump r.session.events.received r.session.terminal =
          Replay.endingReport dump unheard (.ok t))
      ((start (Replay.terminal settings surface tape) reads).run
        (before ++ .command .stop :: after))
      ((Replay.terminal settings surface tape).feed (ReadResult.stream reads)) := by
  have hshows := run_shows_stream (replay_steady hremote surface tape) reads hbefore hdone hafter
  apply hshows.mono
  intro r t h
  rcases h.exists_heard with ⟨unheard, hheard⟩
  refine ⟨unheard, ?_⟩
  simp only [Replay.endingReport, Replay.sessionReport, hheard, h.2.1]

end

end Relay

end

end GraphicsTerminal
