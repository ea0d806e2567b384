import GraphicsTerminal.Proofs.Engine.Echo
import GraphicsTerminal.Proofs.Terminal.Log
import GraphicsTerminal.Proofs.Terminal.Rest

/-!
# Loss of the link

The first write that the link refuses makes the session local for good.  The ledger of a
session relates the writes that were tried, the losses that the owner was told of and
the state of the channel: there is one refusal at most, it is the last write that was
tried, and it was reported once.  From then on the terminal shows what it would send.

Main definitions:

- {lit}`LinkLedger`: the writes, the losses and the state of a session.
- {lit}`Terminal.told`: all that the owner is told in a run.
- {lit}`Terminal.Echoes`: a terminal that shows what it would send.

Main results:

- Theorem {lit}`LinkLedger.sendBytes`: a write keeps the ledger.
- Theorem {lit}`Terminal.ledger_of_run_start`: every run keeps the ledger.
- Theorem {lit}`Terminal.link_loss_of_run_start`: a loss is permanent and reported once.
-/

namespace GraphicsTerminal

/-! ## The ledger -/

/-- The reason of a loss that is reported. -/
def TerminalEvent.loss? : TerminalEvent → Option String
  | bell => none
  | linkLost reason => some reason

/-- The losses among what the owner is told. -/
def losses (events : List TerminalEvent) : List String := events.filterMap TerminalEvent.loss?

/-- An event that is told adds its loss, if it is one. -/
theorem losses_push (events : Array TerminalEvent) (event : TerminalEvent) :
    losses (events.push event).toList = losses events.toList ++ event.loss?.toList := by
  rw [Array.toList_push, losses, List.filterMap_append]
  cases event with
  | bell => rfl
  | linkLost reason => rfl

/-- What the first state of a session, the writes that were tried, the losses that were
told and the present state have to do with each other. -/
inductive LinkLedger : Bool → List Attempt → List String → Bool → Prop
  /-- A session that starts locally never writes. -/
  | never : LinkLedger false [] [] false
  /-- All writes were accepted, and the session is remote. -/
  | held {log : List Attempt} (h : ∀ attempt ∈ log, attempt.refusal? = none) :
      LinkLedger true log [] true
  /-- All writes but the last were accepted; its refusal was told once, and the session is
  local. -/
  | lost {log : List Attempt} (h : ∀ attempt ∈ log, attempt.refusal? = none)
      (bytes : List UInt8) (reason : String) :
      LinkLedger true (log ++ [⟨bytes, some reason⟩]) [reason] false

namespace LinkLedger

variable {first now : Bool} {log : List Attempt} {told told' : List String}

/-- While the session is remote all writes were accepted, and no loss was told. -/
theorem of_remote (h : LinkLedger first log told true) :
    first = true ∧ (∀ attempt ∈ log, attempt.refusal? = none) ∧ told = [] := by
  cases h with
  | held haccepted => exact ⟨rfl, haccepted, rfl⟩

/-- In a local session the writes determine the losses. -/
theorem told_unique (h : LinkLedger first log told false) (h' : LinkLedger first log told' false) :
    told = told' := by
  cases h with
  | never =>
    cases h'
    rfl
  | lost haccepted bytes reason =>
    generalize hlog : _ ++ [(⟨bytes, some reason⟩ : Attempt)] = log at h'
    cases h' with
    | lost haccepted' bytes' reason' =>
      have hlast := (List.append_inj' hlog rfl).2
      cases hlast
      rfl

variable {L : Type} [HostLink L]

/-- A write keeps the ledger, and a refusal waits for its report. -/
theorem sendBytes {c : Channel (LoggedLink L)} {reported : List String} (screen : Screen)
    (bytes : List UInt8)
    (h : LinkLedger first c.link.attempts (reported ++ c.lost.toList) c.remote) :
    LinkLedger first (c.sendBytes screen bytes).1.link.attempts
      (reported ++ (c.sendBytes screen bytes).1.lost.toList)
      (c.sendBytes screen bytes).1.remote := by
  cases hremote : c.remote with
  | false =>
    rw [Channel.sendBytes_of_local hremote]
    exact h
  | true =>
    rw [hremote] at h
    obtain ⟨rfl, haccepted, htold⟩ := h.of_remote
    obtain ⟨rfl, hlost⟩ := List.append_eq_nil_iff.1 htold
    cases hrefusal : (HostLink.send c.link.inner bytes).1 with
    | none =>
      have hsend : HostLink.send c.link bytes = (none,
          ⟨(HostLink.send c.link.inner bytes).2, c.link.attempts ++ [⟨bytes, none⟩]⟩) := by
        rw [← hrefusal]
        rfl
      rw [Channel.sendBytes_of_accepted hremote screen hsend]
      simp only [hremote, hlost, List.append_nil]
      refine .held ?_
      intro attempt hattempt
      rcases List.mem_append.1 hattempt with hearlier | hlast
      · exact haccepted attempt hearlier
      · rw [List.mem_singleton.1 hlast]
    | some reason =>
      have hsend : HostLink.send c.link bytes = (some reason,
          ⟨(HostLink.send c.link.inner bytes).2,
            c.link.attempts ++ [⟨bytes, some reason⟩]⟩) := by
        rw [← hrefusal]
        rfl
      rw [Channel.sendBytes_of_refused hremote screen hsend]
      exact .lost haccepted bytes reason

end LinkLedger

/-! ## Engines that keep the ledger -/

namespace Engine

variable {L S : Type}

/-- The log of an engine agrees with the losses that were collected, that wait for the
owner and that wait for their report. -/
def Accounted (first : Bool) (collected : List String) (e : Engine (LoggedLink L) S) : Prop :=
  LinkLedger first e.channel.link.attempts
    (collected ++ losses e.events.toList ++ e.channel.lost.toList) e.channel.remote

/-- The frame of an engine that keeps its ledger before the next report. -/
def ledgerFrame (settings : Settings) (tape : S → TapeSource) (first : Bool)
    (collected told : List String) : Frame (LoggedLink L) (LoggedLink L) S S :=
  .alone settings tape
    (fun c => LinkLedger first c.link.attempts (collected ++ told ++ c.lost.toList) c.remote)
    fun events => losses events.toList = told

variable {first : Bool} {collected : List String} {e e' : Engine (LoggedLink L) S}

/-- An engine that keeps its ledger agrees with itself inside the frame. -/
theorem Accounted.agree (h : e.Accounted first collected) :
    Agree (ledgerFrame e.settings e.tape first collected (losses e.events.toList)) e e :=
  Agree.alone e h rfl

/-- An engine inside the frame keeps the ledger. -/
theorem accounted_of_agree {settings : Settings} {tape : S → TapeSource} {told : List String}
    (h : Agree (ledgerFrame settings tape first collected told) e e') :
    e'.Accounted first collected := by
  obtain ⟨hchannel, hledger⟩ := h.channel
  obtain ⟨hevents, htold⟩ := h.events
  rw [Accounted, ← hchannel, ← hevents, htold]
  exact hledger

/-- A report moves a loss to the events. -/
theorem Accounted.reportLoss (h : e.Accounted first collected) :
    e.reportLoss.Accounted first collected := by
  unfold Accounted at h ⊢
  rw [channel_reportLoss]
  unfold Engine.reportLoss Channel.takeLoss report
  cases hlost : e.channel.lost with
  | none =>
    rw [hlost] at h
    exact h
  | some reason =>
    rw [hlost] at h
    simp only [Option.elim, losses_push, ← List.append_assoc, Option.toList_none,
      List.append_nil]
    exact h

variable [HostLink L] [Surface S]

/-- Calls, writes and answers stay inside the frame: a bell is no loss, and a refusal waits
in the channel. -/
theorem ledgerFrame_kept (settings : Settings) (tape : S → TapeSource) (first : Bool)
    (collected told : List String) :
    (ledgerFrame (L := L) settings tape first collected told).KeptByAnswers := by
  refine Frame.alone_keptByAnswers ?_ (fun _ _ h => h) (fun _ h => h) ?_
  · exact Channel.Kept.alone (fun _ _ h => h) (fun _ h => h) fun _ screen bytes h =>
      h.sendBytes screen bytes
  · intro events htold
    rw [losses_push, htold]
    exact List.append_nil told

/-- A byte keeps the ledger, an enquiry included. -/
theorem Accounted.receive (h : e.Accounted first collected) {b : UInt8}
    (hreceive : e.receive b = .ok e') : e'.Accounted first collected := by
  have hF := ledgerFrame_kept (L := L) e.settings e.tape first collected (losses e.events.toList)
  unfold Engine.receive at hreceive
  by_cases henq : b = Byte.enq
  · rw [if_pos henq] at hreceive
    cases hreceive
    exact (accounted_of_agree (h.agree.answerEnquiry hF)).reportLoss
  · rw [if_neg henq] at hreceive
    have hmatch := h.agree.interpret hF.toKeptByWriting b
    rcases Fault.exists_of_map hreceive with ⟨next, hinterpret, rfl⟩
    rw [hinterpret] at hmatch
    obtain ⟨_, hsame, hagree⟩ := hmatch.of_ok
    cases hsame
    exact (accounted_of_agree hagree).reportLoss

/-- A poll makes no write. -/
theorem Accounted.pollClick (h : e.Accounted first collected) :
    e.pollClick.2.Accounted first collected :=
  accounted_of_agree (h.agree.pollClick (ledgerFrame_kept _ _ _ _ _)).2

/-- An idle moment may write the acknowledgement, and tells of a refusal. -/
theorem Accounted.idle (h : e.Accounted first collected) : e.idle.Accounted first collected :=
  (accounted_of_agree (h.agree.flushAck (ledgerFrame_kept _ _ _ _ _))).reportLoss

/-- A key may be written, and a refusal is told at once. -/
theorem Accounted.press (h : e.Accounted first collected) (key : Key) :
    (e.press key).2.Accounted first collected := by
  unfold Engine.press
  split
  · split
    · exact h
    · exact h
  · have hpressed := (h.agree.pressUnlocked (ledgerFrame_kept _ _ _ _ _).toKeptByWriting key).2
    exact (accounted_of_agree hpressed).reportLoss

end Engine

/-! ## What the owner is told -/

namespace Terminal

section

variable {L S : Type} [HostLink L] [Surface S]

/-- What the owner collects at an event. -/
def collected (t : Terminal L S) : Event L S → List TerminalEvent
  | .collect => t.engine.events.toList
  | _ => []

/-- All that the owner is told in a run that is not refused: what is collected in its
course, and what waits at its end. -/
def told (t : Terminal L S) : List (Event L S) → List TerminalEvent
  | [] => t.engine.events.toList
  | event :: events =>
    t.collected event ++
      match t.respond event with
      | .error _ => []
      | .ok next => next.told events

/-- Paired terminals tell their owners the same. -/
theorem Paired.told_eq {L' S' : Type} [HostLink L'] [Surface S'] {F : Frame L L' S S'}
    (hF : F.KeptByAll) (htold : ∀ {events events'}, F.events events events' → events = events')
    {t : Terminal L S} {t' : Terminal L' S'} (h : Paired F t t') {events : List (Event L S)}
    {events' : List (Event L' S')} (hevents : List.Forall₂ (Event.Paired F) events events') :
    t.told events = t'.told events' := by
  induction hevents generalizing t t' with
  | nil => exact congrArg Array.toList (htold h.engine.events)
  | @cons event event' _ _ hevent _ ih =>
    have hcollected : t.collected event = t'.collected event' := by
      cases hevent with
      | collect => exact congrArg Array.toList (htold h.engine.events)
      | _ => rfl
    have hmatch := h.respond hF hevent
    rw [told, told, hcollected]
    generalize t.respond event = answered at hmatch ⊢
    generalize t'.respond event' = answered' at hmatch ⊢
    cases hmatch with
    | error fault => rfl
    | ok hnext => exact congrArg _ (ih hnext)

/-- Logs do not change what the owner is told. -/
theorem told_logged (t : Terminal L S) (events : List (Event L S)) :
    t.logged.told (events.map Event.logged) = t.told events := by
  have hevents : List.Forall₂ (Event.Paired (logFrame t.engine.settings t.engine.tape))
      events (events.map Event.logged) := by
    rw [List.forall₂_map_right_iff, List.forall₂_same]
    intro event _
    exact Event.logged_paired _ _ event
  exact (t.logged_paired.told_eq (logFrame_kept _ _) (fun h => h) hevents).symm

end

/-! ## Runs that keep the ledger -/

section

variable {L S : Type} [HostLink L] [Surface S] {first : Bool} {lost : List String}

/-- The work of a terminal keeps the ledger. -/
theorem accounted_stepInvariant (first : Bool) (lost : List String) :
    StepInvariant fun u : Terminal (LoggedLink L) S => u.engine.Accounted first lost :=
  .of_engine (fun _ h => h.pollClick) (fun _ h => h.idle) fun _ _ _ h hreceive =>
    h.receive hreceive

/-- An event keeps the ledger; what is collected is remembered. -/
theorem accounted_of_respond {u u' : Terminal (LoggedLink L) (LoggedSurface S)}
    {event : Event L S} (h : u.engine.Accounted first lost)
    (hrespond : u.respond event.logged = .ok u') :
    u'.engine.Accounted first (lost ++ losses (u.collected event.logged)) := by
  have hsteps := accounted_stepInvariant (L := L) (S := LoggedSurface S) first lost
  cases event with
  | collect =>
    cases hrespond
    simp only [Engine.Accounted] at h ⊢
    simp only [collect, modifyEngine, Engine.takeEvents, collected, Event.logged, losses,
      List.filterMap_nil, List.append_nil]
    exact h
  | feed bytes =>
    simp only [Event.logged, collected, losses, List.filterMap_nil, List.append_nil]
    exact hsteps.feed h hrespond
  | settle =>
    simp only [Event.logged, collected, losses, List.filterMap_nil, List.append_nil]
    exact hsteps.runUntilIdle h hrespond
  | step =>
    simp only [Event.logged, collected, losses, List.filterMap_nil, List.append_nil]
    rcases Fault.exists_of_map hrespond with ⟨stepped, hstep, rfl⟩
    exact hsteps.step u _ _ h hstep
  | key pressed =>
    cases hrespond
    simp only [Event.logged, collected, losses, List.filterMap_nil, List.append_nil]
    exact h.press pressed
  | _ =>
    cases hrespond
    simp only [Event.logged, collected, losses, List.filterMap_nil, List.append_nil]
    exact h

/-- A run keeps the ledger of all that the owner is told. -/
theorem accounted_of_run {u u' : Terminal (LoggedLink L) (LoggedSurface S)}
    {events : List (Event L S)} (h : u.engine.Accounted first lost)
    (hlost : u.engine.channel.lost = none) (hrun : u.run (events.map Event.logged) = .ok u') :
    LinkLedger first u'.engine.channel.link.attempts
      (lost ++ losses (u.told (events.map Event.logged))) u'.engine.channel.remote := by
  induction events generalizing u lost with
  | nil =>
    cases hrun
    rw [Engine.Accounted, hlost, Option.toList_none, List.append_nil] at h
    exact h
  | cons event events ih =>
    rcases Fault.exists_of_bind hrun with ⟨next, hevent, hrest⟩
    have hnext := ih (accounted_of_respond h hevent) (lost_invariant.respond hlost hevent) hrest
    rw [List.map_cons, told, hevent, losses, List.filterMap_append, ← List.append_assoc]
    exact hnext

/-- Every run of a session keeps its ledger. -/
theorem ledger_of_run_start {settings : Settings} {link : L} {surface : S}
    {tape : S → TapeSource} {events : List (Event L S)} {t : Terminal L S}
    (h : (start settings link surface tape).run events = .ok t) :
    ∃ o, (start settings link surface tape).observe events = .ok o ∧
      LinkLedger settings.remote o.attempts
        (losses ((start settings link surface tape).told events)) t.engine.channel.remote := by
  obtain ⟨u, hu, rfl⟩ := exists_run_logged h
  refine ⟨u.engine.observation, congrArg (Except.map _) hu, ?_⟩
  have hstart : (start settings link surface tape).logged.engine.Accounted settings.remote [] := by
    change LinkLedger settings.remote [] [] settings.remote
    cases settings.remote with
    | false => exact .never
    | true =>
      refine .held ?_
      rintro attempt hattempt
      cases hattempt
  have hledger := accounted_of_run hstart rfl hu
  rw [told_logged] at hledger
  exact hledger

end

/-! ## After the loss -/

section

variable {L S : Type} [HostLink L] [Surface S]

/-- A local terminal stays local, and tries no more writes. -/
theorem local_kept (settings : Settings) (tape : LoggedSurface S → TapeSource)
    (log : List Attempt) :
    (Frame.alone settings tape (fun c : Channel (LoggedLink L) =>
      c.remote = false ∧ c.link.attempts = log) fun _ => True).KeptByAll := by
  refine Frame.alone_keptByAll ?_ (fun _ _ h => h) (fun _ h => h) fun _ h => h
  refine Channel.Kept.alone (fun _ _ h => h) (fun _ h => h) fun c screen bytes h => ?_
  rw [Channel.sendBytes_of_local h.1]
  exact h

/-- A local session stays so, and its link is not tried again. -/
theorem local_of_run {u u' : Terminal (LoggedLink L) (LoggedSurface S)}
    {events : List (Event L S)} (hlocal : u.engine.channel.remote = false)
    (hrun : u.run (events.map Event.logged) = .ok u') :
    u'.engine.channel.remote = false ∧
      u'.engine.channel.link.attempts = u.engine.channel.link.attempts := by
  refine (paired_of_run (local_kept _ _ _) ?_ ⟨hlocal, rfl⟩ trivial hrun).engine.channel.2
  intro change hchange c hc
  obtain ⟨event, -, hevent⟩ := List.mem_map.1 hchange
  cases event with
  | link change =>
    cases hevent
    exact hc
  | _ => cases hevent

/-- After a run that ends locally no more writes are tried. -/
theorem attempts_of_run_append {origin t t' : Terminal L S} {front back : List (Event L S)}
    {o o' : Observation} (hfront : origin.run front = .ok t)
    (hall : origin.run (front ++ back) = .ok t') (hobserved : origin.observe front = .ok o)
    (hobserved' : origin.observe (front ++ back) = .ok o')
    (hlocal : t.engine.channel.remote = false) :
    t'.engine.channel.remote = false ∧ o'.attempts = o.attempts := by
  obtain ⟨u, hu, rfl⟩ := exists_run_logged hfront
  obtain ⟨u', hu', rfl⟩ := exists_run_logged hall
  rw [observe, hu] at hobserved
  rw [observe, hu'] at hobserved'
  cases hobserved
  cases hobserved'
  rw [List.map_append, run_append, hu] at hu'
  exact local_of_run hlocal hu'

omit [HostLink L] [Surface S] in
/-- The terminal over a link that accepts everything. -/
def connected (t : Terminal L S) : Terminal RecordingLink S := ⟨t.ring, t.engine.connected⟩

omit [HostLink L] [Surface S] in
/-- What was sent, put on the screen instead. -/
def echoed (t : Terminal RecordingLink S) (link : L) : Terminal L S :=
  ⟨t.ring, t.engine.echoed link⟩

/-- A terminal that shows what it would send over a link that accepts everything, byte by
byte and in order, and does the same apart from this. -/
structure Echoes (t : Terminal L S) : Prop where
  step : t.step = t.connected.step.map fun stepped =>
    (stepped.1, stepped.2.echoed t.engine.channel.link)
  press : ∀ key, t.press key =
    ((t.connected.press key).1, (t.connected.press key).2.echoed t.engine.channel.link)

omit [HostLink L] in
theorem pollClick_connected (t : Terminal L S) : t.connected.pollClick = t.pollClick.connected := by
  unfold pollClick
  rw [connected, Engine.pollClick_connected]
  generalize t.engine.pollClick = polled
  obtain ⟨click, engine⟩ := polled
  cases click with
  | true => rfl
  | false => rfl

/-- A step of a local terminal is that of the connected one, shown on its screen. -/
theorem step_eq_echoed {t : Terminal L S} (h : t.engine.channel.remote = false) :
    t.step = t.connected.step.map fun stepped =>
      (stepped.1, stepped.2.echoed t.engine.channel.link) := by
  have hpolled : t.pollClick.engine.channel.remote = false := by
    rw [engine_pollClick, Engine.remote_pollClick, h]
  have hlink : t.pollClick.engine.channel.link = t.engine.channel.link := by
    rw [engine_pollClick, Engine.link_pollClick]
  have hring : t.pollClick.connected.ring = t.pollClick.ring := rfl
  have hengine : t.pollClick.connected.engine = t.pollClick.engine.connected := rfl
  simp only [step, pollClick_connected, hring, hengine]
  cases t.pollClick.ring.pop? with
  | none =>
    simp only [modifyEngine, Engine.idle_eq_echoed hpolled, hlink]
    rfl
  | some taken =>
    simp only [Engine.receive_eq_echoed hpolled, hlink]
    cases t.pollClick.engine.connected.receive taken.1 with
    | error fault => rfl
    | ok engine => rfl

/-- A local terminal shows everything it would send. -/
theorem echoes_of_local {t : Terminal L S} (h : t.engine.channel.remote = false) : t.Echoes where
  step := step_eq_echoed h
  press := by
    intro key
    simp only [press, Engine.press_eq_echoed h]
    rfl

/-- In every session all writes are accepted but the last one, if that is refused, and
such a refusal is reported once.  From then on the session is local for good: no more
writes are tried, no more losses are told, and what would be sent is shown.  A session
that starts locally is like this from the start. -/
theorem link_loss_of_run_start {settings : Settings} {link : L} {surface : S}
    {tape : S → TapeSource} {front back : List (Event L S)} {t t' : Terminal L S}
    (hfront : (start settings link surface tape).run front = .ok t)
    (hall : (start settings link surface tape).run (front ++ back) = .ok t') :
    ∃ o o', (start settings link surface tape).observe front = .ok o ∧
      (start settings link surface tape).observe (front ++ back) = .ok o' ∧
      LinkLedger settings.remote o'.attempts
        (losses ((start settings link surface tape).told (front ++ back)))
        t'.engine.channel.remote ∧
      (t.engine.channel.remote = false →
        t'.engine.channel.remote = false ∧ o'.attempts = o.attempts ∧
          losses ((start settings link surface tape).told (front ++ back)) =
            losses ((start settings link surface tape).told front)) ∧
      (t'.engine.channel.remote = false → t'.Echoes) ∧
      ∀ s ∈ (start settings link surface tape).runTurns (front ++ back),
        s.engine.channel.remote = false → s.Echoes := by
  obtain ⟨o, hobserved, hledger⟩ := ledger_of_run_start hfront
  obtain ⟨o', hobserved', hledger'⟩ := ledger_of_run_start hall
  refine ⟨o, o', hobserved, hobserved', hledger', ?_, fun h => echoes_of_local h,
    fun s _ h => echoes_of_local h⟩
  intro hlocal
  obtain ⟨hlocal', hattempts⟩ := attempts_of_run_append hfront hall hobserved hobserved' hlocal
  refine ⟨hlocal', hattempts, ?_⟩
  rw [hlocal] at hledger
  rw [hlocal', hattempts] at hledger'
  exact hledger'.told_unique hledger

/-- An enquiry whose acknowledgement the link refuses. -/
def refusedAck : List (Event RecordingLink RecordingSurface) :=
  [.link fun _ => .failing, .push [Byte.enq], .step, .step]

/-- What is asked after the loss is not answered with a write. -/
theorem link_loss_of_run_start_refusedAck :
    ∃ o', (recorded 4).observe (refusedAck ++ [.push [Byte.enq], .step, .step]) = .ok o' ∧
      o'.attempts = [⟨[Byte.ack], some "link closed"⟩] := by
  have hlocal : ((recorded 4).run refusedAck).map (fun t => t.engine.channel.remote) =
      .ok false := rfl
  have hattempts : ((recorded 4).observe refusedAck).map Observation.attempts =
      .ok [⟨[Byte.ack], some "link closed"⟩] := rfl
  have hlocal' : ((recorded 4).run (refusedAck ++ [.push [Byte.enq], .step, .step])).map
      (fun t => t.engine.channel.remote) = .ok false := rfl
  cases hfront : (recorded 4).run refusedAck with
  | error fault =>
    rw [hfront] at hlocal
    cases hlocal
  | ok t =>
    cases hall : (recorded 4).run (refusedAck ++ [.push [Byte.enq], .step, .step]) with
    | error fault =>
      rw [hall] at hlocal'
      cases hlocal'
    | ok t' =>
      obtain ⟨o, o', hobserved, hobserved', -, hafter, -⟩ := link_loss_of_run_start hfront hall
      change (recorded 4).observe refusedAck = .ok o at hobserved
      rw [hfront] at hlocal
      rw [hobserved] at hattempts
      exact ⟨o', hobserved',
        (hafter (Except.ok.inj hlocal)).2.1.trans (Except.ok.inj hattempts)⟩

end

end Terminal

end GraphicsTerminal
