import GraphicsTerminal.Session.Basic
import GraphicsTerminal.Session.Pump

/-!
# The pump and the session together

The pump and the session share the ring and take their steps in any order, and
the owner of the session takes events in between; a schedule is a list of such
steps.  One schedule lets the session use all that waits after each step of the
pump.

Main definitions:

- {lit}`Relay`: a pump and the session that it feeds.
- {lit}`Relay.run`: the steps of a schedule.
- {lit}`Relay.copy`: all that the host sends.
-/

namespace GraphicsTerminal

/-- A session, and the pump that fills its ring. -/
structure Relay (L S : Type) where
  pump : Pump
  session : Session L S

/-- Who takes the next step. -/
inductive RelayStep where
  /-- The pump. -/
  | pump
  /-- The session, for one turn. -/
  | turn
  /-- Somebody who gives the session a command. -/
  | command (c : SessionCommand)
  /-- The owner of the session, who takes an event. -/
  | take
deriving DecidableEq, Repr

namespace Relay

variable {L S : Type}

/-- A relay that has not begun. -/
def start (terminal : Terminal L S) (reads : List ReadResult) : Relay L S :=
  ⟨Pump.start reads, Session.start terminal⟩

/-- The pump takes a step on the ring of the session. -/
def pumped (r : Relay L S) : Relay L S :=
  let terminal := r.session.terminal
  let next := r.pump.step terminal.ring
  ⟨next.1, { r.session with terminal := { terminal with ring := next.2 } }⟩

/-- One step. -/
def next [HostLink L] [Surface S] (r : Relay L S) :
    RelayStep → Except Fault (Relay L S)
  | .pump => .ok r.pumped
  | .turn => r.session.turn.map ({ r with session := · })
  | .command c => .ok { r with session := r.session.command c }
  | .take => .ok { r with session := r.session.takeEvent.2 }

/-- The steps of a schedule. -/
def run [HostLink L] [Surface S] (r : Relay L S) (schedule : List RelayStep) :
    Except Fault (Relay L S) :=
  schedule.foldlM next r

/-- Let the session use all bytes that wait. -/
def settle [HostLink L] [Surface S] (r : Relay L S) : Except Fault (Relay L S) := do
  let terminal ← r.session.terminal.runUntilIdle
  return { r with session := { r.session with terminal := terminal } }

/-- Let the pump take a number of steps, fewer if it ends before, and the
session use all bytes that wait after each of them. -/
def copySteps [HostLink L] [Surface S] (r : Relay L S) :
    Nat → Except Fault (Relay L S)
  | 0 => r.settle
  | steps + 1 =>
    if r.pump.isDone then r.settle
    else do (← r.pumped.settle).copySteps steps

/-- Copy and use all that the host sends. -/
def copy [HostLink L] [Surface S] (r : Relay L S) : Except Fault (Relay L S) :=
  r.copySteps r.pump.stepsLeft

end Relay

end GraphicsTerminal
