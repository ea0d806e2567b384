import GraphicsTerminal.Proofs.Terminal.Agreement

/-!
# Logs of a run

A logged link keeps a list of all writes that were tried, a logged surface a list of
all calls.  Every terminal can be run over logged surroundings, which changes nothing
else: forgetting the logs gives the run without them.

Main definitions:

- {lit}`LoggedLink`, {lit}`LoggedSurface`: surroundings that keep a log.
- {lit}`Terminal.observe`: what is seen of a run, its writes and calls included.

Main results:

- Theorem {lit}`Terminal.run_logged`: the logs change nothing.
- Theorem {lit}`Terminal.map_view_observe`: what is seen of a run is what it leads to.
-/

namespace GraphicsTerminal

/-! ## Logged surroundings -/

/-- A write that was tried, and the reason if it was refused. -/
structure Attempt where
  bytes : List UInt8
  refusal? : Option String
deriving DecidableEq, Repr

/-- A link with a list of the writes that were tried, in order. -/
structure LoggedLink (L : Type) where
  inner : L
  attempts : List Attempt

instance {L : Type} [HostLink L] : HostLink (LoggedLink L) where
  send link bytes :=
    let sent := HostLink.send link.inner bytes
    (sent.1, ⟨sent.2, link.attempts ++ [⟨bytes, sent.1⟩]⟩)

/-- The bytes of the writes that were tried. -/
def LoggedLink.writes {L : Type} (link : LoggedLink L) : List (List UInt8) :=
  link.attempts.map Attempt.bytes

/-- A remote channel tries each write once, and a local one tries none. -/
theorem Channel.writes_sendBytes {L : Type} [HostLink L] (c : Channel (LoggedLink L))
    (screen : Screen) (bytes : List UInt8) :
    (c.sendBytes screen bytes).1.link.writes =
      c.link.writes ++ if c.remote then [bytes] else [] := by
  cases hremote : c.remote with
  | false =>
    rw [sendBytes_of_local hremote]
    exact (List.append_nil _).symm
  | true =>
    have hwrites : (HostLink.send c.link bytes).2.writes = c.link.writes ++ [bytes] :=
      List.map_append
    cases hsend : HostLink.send c.link bytes with
    | mk refusal link =>
      rw [hsend] at hwrites
      cases refusal with
      | none =>
        rw [sendBytes_of_accepted hremote screen hsend]
        exact hwrites
      | some reason =>
        rw [sendBytes_of_refused hremote screen hsend]
        exact hwrites

/-- A surface with a list of the calls it was told, in order. -/
structure LoggedSurface (S : Type) where
  inner : S
  calls : List SurfaceCall

instance {S : Type} [Surface S] : Surface (LoggedSurface S) where
  call surface call := ⟨Surface.call surface.inner call, surface.calls ++ [call]⟩
  takeClick surface :=
    let taken := Surface.takeClick surface.inner
    (taken.1, { surface with inner := taken.2 })

/-! ## What is seen from outside -/

/-- What the owner of a terminal can see of it. -/
structure View where
  screen : Screen
  graphics : GraphicsState
  parser : Parser
  alphaActive : Bool
  remote : Bool
  pending : Option String
  events : Array TerminalEvent
deriving DecidableEq

/-- What is seen of a run: the terminal at its end, the writes that were tried and the
calls of the surface. -/
structure Observation where
  view : View
  attempts : List Attempt
  calls : List SurfaceCall
deriving DecidableEq

/-- The bytes of the writes that were tried. -/
def Observation.writes (o : Observation) : List (List UInt8) := o.attempts.map Attempt.bytes

namespace Engine

variable {L S : Type}

/-- What the owner can see now. -/
def view (e : Engine L S) : View :=
  { screen := e.screen
    graphics := e.graphics
    parser := e.parser
    alphaActive := e.alphaActive
    remote := e.channel.remote
    pending := e.channel.pending
    events := e.events }

/-- What the logs show. -/
def observation (e : Engine (LoggedLink L) (LoggedSurface S)) : Observation :=
  ⟨e.view, e.channel.link.attempts, e.surface.calls⟩

/-! ## Terminals over logged surroundings -/

/-- The engine over logged surroundings, with empty logs. -/
def logged (e : Engine L S) : Engine (LoggedLink L) (LoggedSurface S) :=
  { settings := e.settings
    parser := e.parser
    screen := e.screen
    channel := ⟨⟨e.channel.link, []⟩, e.channel.remote, e.channel.pending,
      e.channel.ackPending, e.channel.lost⟩
    surface := ⟨e.surface, []⟩
    graphics := e.graphics
    tape := fun surface => e.tape surface.inner
    alphaActive := e.alphaActive
    events := e.events }

/-- The engine without logs. -/
def unlogged (e : Engine (LoggedLink L) (LoggedSurface S)) : Engine L S :=
  { settings := e.settings
    parser := e.parser
    screen := e.screen
    channel := ⟨e.channel.link.inner, e.channel.remote, e.channel.pending,
      e.channel.ackPending, e.channel.lost⟩
    surface := e.surface.inner
    graphics := e.graphics
    tape := fun surface => e.tape ⟨surface, []⟩
    alphaActive := e.alphaActive
    events := e.events }

/-- Polls are not logged. -/
theorem pollClick_logged [Surface S] (e : Engine L S) :
    e.logged.pollClick = (e.pollClick.1, e.pollClick.2.logged) := by
  have hwaiting : e.logged.isAwaitingClick = e.isAwaitingClick := rfl
  have htaken : Surface.takeClick e.logged.surface =
      ((Surface.takeClick e.surface).1, ⟨(Surface.takeClick e.surface).2, []⟩) := rfl
  unfold pollClick
  rw [hwaiting, htaken]
  cases e.isAwaitingClick with
  | false => rfl
  | true =>
    generalize Surface.takeClick e.surface = taken
    obtain ⟨click, surface⟩ := taken
    cases click with
    | none => rfl
    | some click => rfl

end Engine

namespace Terminal

variable {L S : Type}

/-- The terminal over logged surroundings, with empty logs. -/
def logged (t : Terminal L S) : Terminal (LoggedLink L) (LoggedSurface S) :=
  ⟨t.ring, t.engine.logged⟩

/-- The terminal without logs. -/
def unlogged (t : Terminal (LoggedLink L) (LoggedSurface S)) : Terminal L S :=
  ⟨t.ring, t.engine.unlogged⟩

/-- What the owner can see now. -/
def view (t : Terminal L S) : View := t.engine.view

/-- The event at logged surroundings; changes from outside are not logged. -/
def Event.logged : Event L S → Event (LoggedLink L) (LoggedSurface S)
  | .feed bytes => .feed bytes
  | .push bytes => .push bytes
  | .step => .step
  | .settle => .settle
  | .key pressed => .key pressed
  | .surface change => .surface fun surface => { surface with inner := change surface.inner }
  | .link change => .link fun link => { link with inner := change link.inner }
  | .collect => .collect

/-- The frame of an engine beside one with logs. -/
def logFrame (settings : Settings) (tape : S → TapeSource) :
    Frame L (LoggedLink L) S (LoggedSurface S) where
  settings := settings
  settings' := settings
  tape := tape
  tape' := fun surface => tape surface.inner
  channel := fun c c' =>
    Channel.Alike (fun link logged => link = logged.inner) c c' ∧ c.ackPending = c'.ackPending
  surface := fun surface logged => surface = logged.inner
  events := Eq
  settings_eq := rfl
  tape_eq := fun h => congrArg tape h

theorem logged_paired (t : Terminal L S) :
    Paired (logFrame t.engine.settings t.engine.tape) t t.logged where
  ring := rfl
  engine :=
    { settings := rfl
      settings' := rfl
      tape := rfl
      tape' := rfl
      parser := rfl
      screen := rfl
      graphics := rfl
      alphaActive := rfl
      channel := ⟨⟨rfl, rfl, rfl, rfl⟩, rfl⟩
      surface := rfl
      events := rfl }

/-- Without its logs the other terminal is the same. -/
theorem unlogged_of_paired {settings : Settings} {tape : S → TapeSource}
    {t : Terminal L S} {u : Terminal (LoggedLink L) (LoggedSurface S)}
    (h : Paired (logFrame settings tape) t u) : u.unlogged = t := by
  obtain ⟨⟨hlink, hremote, hpending, hlost⟩, hack⟩ := h.engine.channel
  have hsurface : t.engine.surface = u.engine.surface.inner := h.engine.surface
  have hevents : t.engine.events = u.engine.events := h.engine.events
  have hsettings : u.engine.settings = t.engine.settings :=
    h.engine.settings'.trans h.engine.settings.symm
  have htape : (fun surface => u.engine.tape ⟨surface, []⟩) = t.engine.tape := by
    rw [h.engine.tape, h.engine.tape']
    rfl
  simp only [unlogged, Engine.unlogged, ← h.ring, ← h.engine.parser, ← h.engine.screen,
    ← h.engine.graphics, ← h.engine.alphaActive, ← hlink, ← hremote, ← hpending, ← hlost,
    ← hack, ← hsurface, ← hevents, hsettings, htape]

theorem Event.logged_paired (settings : Settings) (tape : S → TapeSource)
    (event : Event L S) : Event.Paired (logFrame settings tape) event event.logged := by
  cases event with
  | feed bytes => exact .feed bytes
  | push bytes => exact .push bytes
  | step => exact .step
  | settle => exact .settle
  | key pressed => exact .key pressed
  | surface change =>
    refine .surface fun surface logged h => ?_
    exact congrArg change h
  | link change =>
    refine .link fun c c' h => ?_
    exact ⟨{ h.1 with link := congrArg change h.1.link }, h.2⟩
  | collect => exact .collect

variable [HostLink L] [Surface S]

/-- Whatever happens to both terminals, they differ in the logs alone. -/
theorem logFrame_kept (settings : Settings) (tape : S → TapeSource) :
    (logFrame (L := L) settings tape).KeptByAll := by
  have hkept : Channel.Kept (logFrame (L := L) settings tape).channel := by
    refine (Channel.Alike.kept ?_).and_ackPending Eq
    intro link logged bytes h
    subst h
    exact ⟨rfl, rfl⟩
  exact
    { call := fun call h => congrArg (Surface.call · call) h
      bell := fun h => congrArg (Array.push · TerminalEvent.bell) h
      channel := hkept
      lost := fun h => h.1.lost
      takeLoss := fun h => ⟨{ h.1 with lost := rfl }, h.2⟩
      report := fun reason h => congrArg (Array.push · (TerminalEvent.linkLost reason)) h
      queueAck := fun _ _ _ h => ⟨{ h.1 with }, rfl⟩
      flushAck := fun screen h => hkept.flushAck screen h ⟨{ h.1 with }, rfl⟩ h.2
      takeClick := fun h => by
        subst h
        exact ⟨rfl, rfl⟩
      collect := rfl }

/-- The logs change nothing: forgetting them gives the run without them. -/
theorem run_logged (t : Terminal L S) (events : List (Event L S)) :
    (t.logged.run (events.map Event.logged)).map unlogged = t.run events := by
  have hevents : List.Forall₂ (Event.Paired (logFrame t.engine.settings t.engine.tape))
      events (events.map Event.logged) := by
    rw [List.forall₂_map_right_iff, List.forall₂_same]
    intro event _
    exact Event.logged_paired _ _ event
  have hmatch := t.logged_paired.run (logFrame_kept _ _) hevents
  have hsame := hmatch.map_eq (f := id) fun _ _ h => (unlogged_of_paired h).symm
  rw [← hsame, Except.map_id]
  rfl

/-- A run that is not refused is not refused with logs either. -/
theorem exists_run_logged {t t' : Terminal L S} {events : List (Event L S)}
    (h : t.run events = .ok t') :
    ∃ u, t.logged.run (events.map Event.logged) = .ok u ∧ u.unlogged = t' := by
  rw [← run_logged] at h
  exact Fault.exists_of_map h

/-- What is seen of a run. -/
def observe (t : Terminal L S) (events : List (Event L S)) : Except Fault Observation :=
  (t.logged.run (events.map Event.logged)).map fun u => u.engine.observation

theorem observe_step (t : Terminal L S) :
    t.observe [.step] = t.logged.step.map fun stepped => stepped.2.engine.observation := by
  simp only [observe, List.map_cons, List.map_nil, Event.logged, run, respond]
  cases t.logged.step with
  | error fault => rfl
  | ok stepped => rfl

omit [HostLink L] in
theorem pollClick_logged (t : Terminal L S) : t.logged.pollClick = t.pollClick.logged := by
  have hpolled : t.logged.engine.pollClick = (t.engine.pollClick.1, t.engine.pollClick.2.logged) :=
    t.engine.pollClick_logged
  unfold pollClick
  rw [hpolled]
  generalize t.engine.pollClick = polled
  obtain ⟨click, engine⟩ := polled
  cases click with
  | true => rfl
  | false => rfl

/-- The view of an observation is that of the run itself. -/
theorem map_view_observe (t : Terminal L S) (events : List (Event L S)) :
    (t.observe events).map Observation.view = (t.run events).map view := by
  rw [← run_logged, observe]
  cases t.logged.run (events.map Event.logged) with
  | error fault => rfl
  | ok u => rfl

end Terminal

end GraphicsTerminal
