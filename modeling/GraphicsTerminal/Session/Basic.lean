import GraphicsTerminal.Terminal

/-!
# Sessions

A session owns a terminal and turns until it is stopped.  In each turn it
obeys the commands that wait, takes one step of the terminal, and delivers the
events.  The turn that finds the command to stop also uses all bytes that
wait.

Events are delivered into a channel, from which the owner of the session takes
them one by one.  Whoever stops the session gives it away and hangs up: the
events that still wait in the channel are lost, and so is what would be sent
later.

Main definitions:

- {lit}`EventChannel`: the way of the events to the owner.
- {lit}`Session`: a terminal with the commands that wait.
- {lit}`Session.turn`: one turn.
- {lit}`Session.takeEvent`: the owner takes an event.
-/

namespace GraphicsTerminal

/-- A command to a session. -/
inductive SessionCommand where
  | key (key : Key)
  /-- Use all bytes that wait, and stop. -/
  | stop
deriving DecidableEq, Repr

/-! ## The way of the events -/

/-- The way of the events from the loop of a session to its owner. -/
structure EventChannel where
  /-- The events that the owner took, in order. -/
  received : List TerminalEvent
  /-- The events that wait to be taken, unless the owner has hung up. -/
  waiting? : Option (List TerminalEvent)
deriving DecidableEq, Repr

namespace EventChannel

/-- A channel into which nothing was sent. -/
def start : EventChannel := ⟨[], some []⟩

/-- Send events; when the owner has hung up, they are lost. -/
def send (c : EventChannel) (events : List TerminalEvent) : EventChannel :=
  { c with waiting? := c.waiting?.map (· ++ events) }

/-- Take the event that waits longest. -/
def take (c : EventChannel) : Option TerminalEvent × EventChannel :=
  match c.waiting? with
  | some (event :: rest) => (some event, ⟨c.received ++ [event], some rest⟩)
  | _ => (none, c)

/-- Hang up: the events that wait are lost. -/
def hangUp (c : EventChannel) : EventChannel := { c with waiting? := none }

end EventChannel

/-! ## Sessions -/

/-- A terminal with the commands that wait, and the way of its events. -/
structure Session (L S : Type) where
  terminal : Terminal L S
  commands : List SessionCommand
  events : EventChannel
  stopped : Bool

namespace Session

variable {L S : Type}

/-- A session that has not turned yet. -/
def start (terminal : Terminal L S) : Session L S :=
  ⟨terminal, [], EventChannel.start, false⟩

/-- Let a command wait. -/
def command (s : Session L S) (c : SessionCommand) : Session L S :=
  { s with commands := s.commands ++ [c] }

/-- Obey commands up to the one to stop; the flag says that there was one. -/
def obey [HostLink L] [Surface S] (t : Terminal L S) :
    List SessionCommand → Bool × Terminal L S
  | [] => (false, t)
  | .key key :: rest => obey (t.press key).2 rest
  | .stop :: _ => (true, t)

/-- Deliver the events of the terminal: all of them are taken out and sent. -/
def deliver (s : Session L S) : Session L S :=
  let taken := s.terminal.engine.takeEvents
  { s with
    terminal := { s.terminal with engine := taken.2 }
    events := s.events.send taken.1 }

/-- The owner takes an event, if one waits. -/
def takeEvent (s : Session L S) : Option TerminalEvent × Session L S :=
  let taken := s.events.take
  (taken.1, { s with events := taken.2 })

/-- The owner gives the session away, and the events that wait with it. -/
def hangUp (s : Session L S) : Session L S := { s with events := s.events.hangUp }

/-- One turn: commands, a step, events.  A session that has stopped turns no
more. -/
def turn [HostLink L] [Surface S] (s : Session L S) : Except Fault (Session L S) := do
  if s.stopped then
    return s
  let (stop, t) := obey s.terminal s.commands
  let (_, t) ← t.step
  let s := { s with terminal := t, commands := [] }.deliver
  if stop then
    let t ← s.terminal.runUntilIdle
    return { s with terminal := t, stopped := true }
  return s

end Session

end GraphicsTerminal
