import GraphicsTerminal.Session.Basic

/-!
# The loop of a session

While a session turns, others let bytes and commands wait and take events at any moment.
The loop takes a turn in parts: it obeys one command, takes a step, or delivers the
events; in the last turn it goes on to take steps until no byte is left.  Between two
parts anything may happen.  An event that is taken while others are delivered may as well
be taken after them, so the delivery is one part.

Stopping a session is a command, the parts up to the end of the last turn, and hanging
up.  The owner gives the session away with the command and takes no event after it; who
holds only the commands may stop the session too, and then its owner still takes events.

Main definitions:

- {lit}`SessionLoop`: a session, and where its turn is.
- {lit}`SessionLoop.part`: the next part of the turn.
- {lit}`SessionLoop.run`: parts, bytes, commands and taken events in any order.
-/

namespace GraphicsTerminal

/-- Where a turn is. -/
inductive SessionPhase where
  /-- The turn begins, and commands are obeyed. -/
  | obeying
  /-- The step comes next; the turn may be the last one. -/
  | stepping (last : Bool)
  /-- The events come next. -/
  | delivering (last : Bool)
  /-- The bytes that wait are used in the last turn. -/
  | draining
deriving DecidableEq, Repr

/-- Whether the turn is known to be the last one. -/
def SessionPhase.isLast : SessionPhase → Bool
  | obeying => false
  | stepping last => last
  | delivering last => last
  | draining => true

/-- A session, and where its turn is. -/
structure SessionLoop (L S : Type) where
  session : Session L S
  phase : SessionPhase

/-- What happens to a session whose loop runs. -/
inductive SessionMove where
  /-- Bytes arrive and wait. -/
  | push (bytes : List UInt8)
  /-- A command arrives and waits. -/
  | command (c : SessionCommand)
  /-- The loop takes the next part of its turn. -/
  | part
  /-- The owner takes an event. -/
  | take
  /-- The owner takes no more events. -/
  | hangUp
deriving DecidableEq, Repr

/-- Let bytes wait. -/
def Session.push {L S : Type} (s : Session L S) (bytes : List UInt8) : Session L S :=
  { s with terminal := (s.terminal.push bytes).2 }

namespace SessionLoop

variable {L S : Type}

/-- The loop of a session that has not turned yet. -/
def start (terminal : Terminal L S) : SessionLoop L S := ⟨Session.start terminal, .obeying⟩

/-- The next part of the turn.  A session that has stopped turns no more. -/
def part [HostLink L] [Surface S] (l : SessionLoop L S) : Except Fault (SessionLoop L S) :=
  let s := l.session
  if s.stopped then
    .ok l
  else
    match l.phase with
    | .obeying =>
      match s.commands with
      | [] => .ok ⟨s, .stepping false⟩
      | .key key :: rest =>
        .ok ⟨{ s with terminal := (s.terminal.press key).2, commands := rest }, .obeying⟩
      | .stop :: _ => .ok ⟨{ s with commands := [] }, .stepping true⟩
    | .stepping last =>
      s.terminal.step.map fun stepped => ⟨{ s with terminal := stepped.2 }, .delivering last⟩
    | .delivering last => .ok ⟨s.deliver, if last then .draining else .obeying⟩
    | .draining =>
      s.terminal.step.map fun stepped =>
        ⟨{ s with terminal := stepped.2, stopped := !stepped.1 },
          if stepped.1 then .draining else .obeying⟩

/-- The effect of a move. -/
def move [HostLink L] [Surface S] (l : SessionLoop L S) :
    SessionMove → Except Fault (SessionLoop L S)
  | .push bytes => .ok { l with session := l.session.push bytes }
  | .command c => .ok { l with session := l.session.command c }
  | .part => l.part
  | .take => .ok { l with session := l.session.takeEvent.2 }
  | .hangUp => .ok { l with session := l.session.hangUp }

/-- The effect of moves in order. -/
def run [HostLink L] [Surface S] (l : SessionLoop L S) (moves : List SessionMove) :
    Except Fault (SessionLoop L S) :=
  moves.foldlM move l

/-- Whether bytes arrive only if there is room for them. -/
def pushesFit [HostLink L] [Surface S] (l : SessionLoop L S) : List SessionMove → Bool
  | [] => true
  | m :: moves =>
    let fits :=
      match m with
      | .push bytes => decide (bytes.length ≤ l.session.terminal.ring.free)
      | _ => true
    fits &&
      match l.move m with
      | .error _ => true
      | .ok next => next.pushesFit moves

end SessionLoop

end GraphicsTerminal
