import GraphicsTerminal.Engine.Apply

/-!
# Receiving bytes

An enquiry is answered before the parser sees it; every other byte goes to the
parser, and a completed action is applied.  Clicks and idle moments are the
other occasions on which the engine acts.

Main definitions:

- {lit}`Engine.receive`: the effect of a byte.
- {lit}`Engine.pollClick`: take a click that was waited for.
- {lit}`Engine.idle`: what is done when no input is left.

Main results:

- Theorem {lit}`Engine.receive_dc1_phase`: outside of sequences a handshake
  leaves the parser outside of sequences.
-/

namespace GraphicsTerminal

namespace Engine

variable {L S : Type}

/-- Whether a click is waited for. -/
def isAwaitingClick (e : Engine L S) : Bool := e.parser.phase == .awaitClick

/-- Answer an enquiry: acknowledge later, or send the answerback at once. -/
def answerEnquiry [HostLink L] (e : Engine L S) : Engine L S :=
  if e.settings.enqAck then { e with channel := e.channel.queueAck }
  else e.sendText (Reply.answerback e.settings.answerback)

/-- Hand a byte to the parser and apply the action that it completes. -/
def interpret [HostLink L] [Surface S] (e : Engine L S) (b : UInt8) :
    Except Fault (Engine L S) :=
  let advanced := e.parser.advance b
  let e := { e with parser := advanced.2 }
  advanced.1.elim (.ok e) e.apply

/-- The effect of a byte from the host. -/
def receive [HostLink L] [Surface S] (e : Engine L S) (b : UInt8) :
    Except Fault (Engine L S) :=
  (if b = Byte.enq then .ok e.answerEnquiry else e.interpret b).map reportLoss

/-- Take a click, if one is waited for.  Its report is then armed, and the wait
is over; the flag says so. -/
def pollClick [Surface S] (e : Engine L S) : Bool × Engine L S :=
  if e.isAwaitingClick then
    match Surface.takeClick e.surface with
    | (none, surface) => (false, { e with surface := surface })
    | (some click, surface) =>
      (true,
        { e with
          surface := surface
          channel := e.channel.arm (Reply.clickReport click)
          parser := e.parser.clickResolved })
  else
    (false, e)

/-- What is done when no input is left: send the acknowledgement that waits. -/
def idle [HostLink L] (e : Engine L S) : Engine L S :=
  (e.useChannel Channel.flushAck).reportLoss

/-! ## The wait for a click -/

/-- Reporting a loss does not touch the parser. -/
@[simp]
theorem parser_reportLoss (e : Engine L S) : e.reportLoss.parser = e.parser := by
  cases h : e.channel.lost <;> simp [reportLoss, Channel.takeLoss, report, h]

/-- A poll without a click keeps the parser. -/
theorem parser_pollClick_of_false [Surface S] {e e' : Engine L S}
    (h : e.pollClick = (false, e')) : e'.parser = e.parser := by
  unfold pollClick at h
  split at h
  · split at h <;> simp_all [Prod.ext_iff]
    rw [← h]
  · simp_all

/-- A poll with a click was made while waiting, and ends the wait. -/
theorem phase_pollClick_of_true [Surface S] {e e' : Engine L S}
    (h : e.pollClick = (true, e')) :
    e.isAwaitingClick = true ∧ e'.parser.phase = .idle := by
  unfold pollClick at h
  split at h
  · rename_i hwait
    refine ⟨hwait, ?_⟩
    split at h
    · simp at h
    · simp only [Prod.mk.injEq, true_and] at h
      have hphase : e.parser.phase = .awaitClick := by simpa [isAwaitingClick] using hwait
      simp [← h, Parser.clickResolved, hphase]
  · simp at h

/-- Outside of sequences a handshake leaves the parser outside of sequences. -/
theorem receive_dc1_phase [HostLink L] [Surface S] {e e' : Engine L S}
    (hidle : e.parser.phase = .idle) (h : e.receive Byte.dc1 = .ok e') :
    e'.parser.phase = .idle := by
  have hparser : (e.parser.advance Byte.dc1).1 = some .handshake ∧
      (e.parser.advance Byte.dc1).2.phase = .idle := by
    have hlf : (Byte.dc1 == Byte.lf) = false := by decide
    have hesc : ¬ Byte.dc1 = Byte.esc := by decide
    simp [Parser.advance, Parser.advanceIdle, hidle, hlf, hesc]
  simp only [receive, interpret, hparser.1, Option.elim, apply] at h
  simp only [show (Byte.dc1 = Byte.enq) = False by decide, if_false] at h
  simp only [Except.map, Except.ok.injEq] at h
  rw [← h, parser_reportLoss]
  exact hparser.2

end Engine

end GraphicsTerminal
