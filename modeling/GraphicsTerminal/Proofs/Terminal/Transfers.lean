import GraphicsTerminal.Proofs.Engine.Transfers
import GraphicsTerminal.Proofs.Terminal.Enhancements
import GraphicsTerminal.Proofs.Terminal.Gate
import GraphicsTerminal.Proofs.Terminal.LinkLoss
import GraphicsTerminal.Proofs.Terminal.ScreenCommands

/-!
# Transfers in a run

The command for a transfer writes the tape image and its trailer to the host, one byte at a time,
up to the first write that the link refuses.  Such a refusal ends the transfer: the session is
local from then on, the notice of the loss is shown, and nothing else of the transfer is.

Main definitions:

- {lit}`Engine.Transferred`: what is left of an engine behind a transfer, and the writes that were
  tried.

Main results:

- Theorem {lit}`Engine.transferred`: what a transfer over a remote channel does.
- Theorem {lit}`Terminal.transfers_of_run_start`: transfers in every run.
-/

namespace GraphicsTerminal

open Transfer

/-- The write of a byte that was accepted. -/
def Attempt.ofByte (b : UInt8) : Attempt := ⟨[b], none⟩

/-! ## Logs -/

namespace LoggedLink

variable {L : Type} [HostLink L] {link last : L} {bytes : List UInt8}

/-- The log of a link shows the bytes that it accepted. -/
theorem accepts (log : List Attempt) (h : Accepts HostLink.sendByte link bytes last) :
    Accepts HostLink.sendByte (⟨link, log⟩ : LoggedLink L) bytes
      ⟨last, log ++ bytes.map Attempt.ofByte⟩ := by
  induction h generalizing log with
  | done link =>
    rw [List.map_nil, List.append_nil]
    exact .done _
  | @next link next last b rest hb hrest ih =>
    have hlogged : HostLink.sendByte (⟨link, log⟩ : LoggedLink L) b =
        (none, ⟨next, log ++ [Attempt.ofByte b]⟩) := by
      change ((HostLink.sendByte link b).1, LoggedLink.mk (HostLink.sendByte link b).2
        (log ++ [⟨[b], (HostLink.sendByte link b).1⟩])) = _
      rw [hb]
      rfl
    rw [List.map_cons, List.append_cons]
    exact .next hlogged (ih _)

/-- And the byte that it refused behind them. -/
theorem refusedAt (log : List Attempt) {front : List UInt8} {b : UInt8} {reason : String}
    (h : RefusedAt HostLink.sendByte link bytes front b reason last) :
    RefusedAt HostLink.sendByte (⟨link, log⟩ : LoggedLink L) bytes front b reason
      ⟨last, log ++ (front.map Attempt.ofByte ++ [⟨[b], some reason⟩])⟩ := by
  obtain ⟨hstands, before, haccepted, hb⟩ := h
  refine ⟨hstands, _, accepts log haccepted, ?_⟩
  change ((HostLink.sendByte before b).1, LoggedLink.mk (HostLink.sendByte before b).2
    (_ ++ [⟨[b], (HostLink.sendByte before b).1⟩])) = _
  rw [hb, List.append_assoc]

end LoggedLink

/-! ## The engine behind a transfer -/

namespace Engine

variable {L S : Type} [HostLink L] {e e' : Engine L S} {attempts : List Attempt}

/-- What is left of an engine behind a transfer, and the writes that were tried: all bytes of the
transfer were accepted, one by one; or they were up to one that was refused, which makes the
session local, is reported, and is all that the screen tells. -/
inductive Transferred (e : Engine L S) : Engine L S → List Attempt → Prop
  | whole (p : Parser) {link : L}
      (h : Transfer.Accepts HostLink.sendByte e.channel.link e.tapeBytes link) :
    Transferred e { e with parser := p, channel := { e.channel with link := link } }
      (e.tapeBytes.map Attempt.ofByte)
  | cut (p : Parser) {front : List UInt8} {b : UInt8} {reason : String} {link : L}
      (h : RefusedAt HostLink.sendByte e.channel.link e.tapeBytes front b reason link) :
    Transferred e
      { e with
        parser := p
        channel := { e.channel with link := link, remote := false, lost := none }
        screen := e.screen.putText ("\r\n" ++ Channel.lossNotice reason ++ "\r\n")
        events := e.events.push (.linkLost reason) }
      (front.map Attempt.ofByte ++ [⟨[b], some reason⟩])

/-- Behind a transfer an idle moment changes nothing. -/
theorem Transferred.idle (h : e.Transferred e' attempts) (hlost : e.channel.lost = none)
    (hack : e.channel.ackPending = false) : e'.idle = e' := by
  cases h with
  | whole p h => exact idle_of_none hlost hack
  | cut p h => exact idle_of_none rfl hack

/-- A transfer over a remote channel ends in one of both ways, and the log of the link shows the
writes that were tried. -/
theorem transferred (hremote : e.channel.remote = true) (hlost : e.channel.lost = none) :
    ∃ attempts, (∀ p, e.Transferred { e with parser := p }.runTransfer.reportLoss attempts) ∧
      ∀ p, { e.logged with parser := p }.runTransfer.reportLoss.channel.link.attempts =
        attempts := by
  rcases accepts_or_refusedAt HostLink.sendByte e.channel.link e.tapeBytes with
    ⟨link, haccepted⟩ | ⟨front, b, reason, link, hrefused⟩
  · have hlogged := LoggedLink.accepts [] haccepted
    refine ⟨e.tapeBytes.map Attempt.ofByte, fun p => ?_, fun p => ?_⟩
    · have hkept := reportLoss_of_none
        (e := { e with parser := p, channel := { e.channel with link := link } }) hlost
      rw [runTransfer_of_accepts hremote haccepted, hkept]
      exact .whole p haccepted
    · rw [runTransfer_of_accepts (e := e.logged) hremote hlogged, channel_reportLoss]
      rfl
  · have hlogged := LoggedLink.refusedAt [] hrefused
    refine ⟨front.map Attempt.ofByte ++ [⟨[b], some reason⟩], fun p => ?_, fun p => ?_⟩
    · rw [runTransfer_of_refusedAt hremote hrefused, reportLoss_eq]
      exact .cut p hrefused
    · rw [runTransfer_of_refusedAt (e := e.logged) hremote hlogged, channel_reportLoss]
      rfl

end Engine

/-! ## Transfers in a run -/

/-- Outside of sequences no byte completes a command of one letter. -/
theorem Parser.advance_ne_single {p : Parser} (h : p.phase = .idle ∨ p.phase = .awaitClick)
    (b : UInt8) (command : SingleCommand) : (p.advance b).1 ≠ some (.single command) := by
  intro hsingle
  rcases advance_outside h hsingle with hnot | hnot | hnot
  all_goals cases hnot

namespace Terminal

variable {L S : Type} [Surface S] {t : Terminal L S}

/-- Where a command of one letter comes next, no click is waited for. -/
theorem pollClick_of_requested_single {command : SingleCommand}
    (h : t.requested? = some (.single command)) : t.pollClick.engine = t.engine := by
  rw [engine_pollClick]
  by_cases hwait : t.engine.parser.phase = .awaitClick
  · have houtside := t.phase_pollClick_iff.2 (.inr hwait)
    unfold requested? at h
    split at h
    · cases h
    · next b ring hpop =>
      unfold Engine.requested? at h
      split at h
      · cases h
      · exact absurd h (Parser.advance_ne_single houtside b command)
  · rw [Engine.still_of_phase hwait]

theorem requested?_logged (t : Terminal L S) : t.logged.requested? = t.requested? := by
  unfold requested?
  rw [pollClick_logged]
  rfl

variable [HostLink L]

/-- A terminal follows one byte behind an escape byte, when idle moments change nothing. -/
theorem follows_single {opened after : Engine L S} {b : UInt8}
    (hreceive : opened.receive b = .ok after) (hopened : opened.idle = opened)
    (hafter : after.idle = after) (hstill : opened.Still) (hstill' : after.Still) :
    Follows (fun seen c => seen = [] ∧ c = b) (fun (_ : Unit) _ => pure ())
      (fun seen e _ => seen = [] ∧ e = opened ∨ seen = [b] ∧ e = after)
      (fun seen e _ => seen = [] ∧ e = opened ∨ seen = [b] ∧ e = after) where
  busy_of_settled := fun h => h
  poll := by
    rintro seen e - (⟨rfl, rfl⟩ | ⟨rfl, rfl⟩)
    · rw [hstill]
      exact ⟨rfl, .inl ⟨rfl, rfl⟩⟩
    · rw [hstill']
      exact ⟨rfl, .inr ⟨rfl, rfl⟩⟩
  receive := by
    rintro seen e - c ⟨rfl, rfl⟩ (⟨-, rfl⟩ | ⟨hseen, -⟩)
    · rw [hreceive]
      exact .ok (.inr ⟨rfl, rfl⟩)
    · cases hseen
  idle := by
    rintro seen e - (⟨rfl, rfl⟩ | ⟨rfl, rfl⟩)
    · exact .inl ⟨rfl, hopened⟩
    · exact .inr ⟨rfl, hafter⟩

/-- Outside of sequences a terminal with a host that was fed the command has done the transfer. -/
theorem feed_transfer (hempty : t.ring.toList = []) (hidle : t.engine.parser.phase = .idle)
    (hremote : t.engine.channel.remote = true) (hlost : t.engine.channel.lost = none)
    (hack : t.engine.channel.ackPending = false) :
    ∃ t' p, t.feed [Byte.esc, 0x65] = .ok t' ∧ t'.ring.toList = [] ∧
      t'.engine = { t.engine with parser := p }.runTransfer.reportLoss := by
  obtain ⟨opened, hopens⟩ := Engine.exists_opens (e := t.engine) (.inl hidle)
  obtain ⟨text, hwithin⟩ := hopens.parser
  obtain ⟨attempts, htransferred, -⟩ := Engine.transferred hremote hlost
  have hreceive : opened.receive 0x65 =
      .ok { t.engine with parser := .within text .idle [0x65] }.runTransfer.reportLoss := by
    rw [hopens.eq_of_idle hidle hlost, hwithin]
    rfl
  have hphase : { t.engine with
      parser := .within text .idle [0x65] }.runTransfer.reportLoss.parser.phase = .idle := by
    rw [Engine.parser_reportLoss]
    rfl
  have hstill : opened.Still := by
    refine Engine.still_of_phase ?_
    rw [hwithin]
    exact Phase.noConfusion
  have hfollows := follows_single hreceive
    (Engine.idle_of_none hopens.lost (hopens.ackPending.trans hack))
    ((htransferred _).idle hlost hack) hstill
    (Engine.still_of_phase (by rw [hphase]; exact Phase.noConfusion))
  have hkept : (t.filled [Byte.esc, 0x65]).losesByte = false := by
    have hpolled : t.takesClick = false :=
      congrArg Prod.fst (Engine.still_of_phase (by rw [hidle]; exact Phase.noConfusion))
    rw [losesByte_filled hempty, hpolled, Bool.false_and]
  obtain ⟨t', hrun, hring, hsettled⟩ := run_of_opens hfollows hempty hopens [] (List.append_nil _)
    hkept ⟨⟨rfl, rfl⟩, trivial⟩ (.inl ⟨rfl, rfl⟩)
  rcases hsettled with ⟨hseen, -⟩ | ⟨-, hengine⟩
  · cases hseen
  · exact ⟨t', _, (run_singleton t _).symm.trans hrun, hring, hengine⟩

/-- Where the command comes next, a step does the transfer. -/
theorem step_transferred (h : t.requested? = some (.single .fileTransfer))
    (hremote : t.engine.channel.remote = true) (hlost : t.engine.channel.lost = none) :
    ∃ t' o, t.step = .ok (true, t') ∧ t.observe [.step] = .ok o ∧
      t.engine.Transferred t'.engine o.attempts := by
  have happly : ∀ {K D : Type} [HostLink K] [Surface D] (e : Engine K D),
      e.apply (.single .fileTransfer) = .ok e.runTransfer := fun _ => rfl
  obtain ⟨attempts, htransferred, hattempts⟩ := Engine.transferred hremote hlost
  have hlogged : t.logged.requested? = some (.single .fileTransfer) := t.requested?_logged.trans h
  obtain ⟨ring, p, hstep⟩ := step_of_requested h happly
  obtain ⟨ring', p', hstep'⟩ := step_of_requested hlogged happly
  rw [pollClick_of_requested_single h] at hstep
  rw [pollClick_of_requested_single hlogged] at hstep'
  refine ⟨_, _, hstep, (t.observe_step.trans (congrArg _ hstep')), ?_⟩
  change t.engine.Transferred _
    { t.engine.logged with parser := p' }.runTransfer.reportLoss.channel.link.attempts
  rw [hattempts]
  exact htransferred p

/-- Outside of sequences a feed of the command does the transfer. -/
theorem feed_transferred (hempty : t.ring.toList = []) (hidle : t.engine.parser.phase = .idle)
    (hremote : t.engine.channel.remote = true) (hlost : t.engine.channel.lost = none)
    (hack : t.engine.channel.ackPending = false) :
    ∃ t' o, t.feed [Byte.esc, 0x65] = .ok t' ∧ t.observe [.feed [Byte.esc, 0x65]] = .ok o ∧
      t'.ring.toList = [] ∧ t.engine.Transferred t'.engine o.attempts := by
  obtain ⟨attempts, htransferred, hattempts⟩ := Engine.transferred hremote hlost
  obtain ⟨t', p, hfeed, hring, hengine⟩ := feed_transfer hempty hidle hremote hlost hack
  obtain ⟨u, q, hlogged, -, hengine'⟩ :=
    feed_transfer (t := t.logged) hempty hidle hremote hlost hack
  have hobserved : t.observe [.feed [Byte.esc, 0x65]] = .ok u.engine.observation := by
    have hrun : t.logged.run [.feed [Byte.esc, 0x65]] = .ok u :=
      (t.logged.run_singleton _).trans hlogged
    rw [observe, List.map_singleton, Event.logged, hrun]
    rfl
  have hlog : u.engine.observation.attempts = attempts := by
    change u.engine.channel.link.attempts = attempts
    rw [hengine']
    exact hattempts q
  refine ⟨t', _, hfeed, hobserved, hring, ?_⟩
  rw [hlog, hengine]
  exact htransferred p

/-- In every run with a host the command for a transfer is its escape byte and letter, and the
step of the letter does the transfer; so does a feed of both bytes to a terminal at rest outside
of sequences.  The bytes of the transfer are those of the image and two zero bytes, or two bytes
with all bits set when there is no image; and its result is that of its writes. -/
theorem transfers_of_run_start {settings : Settings} {link : L} {surface : S}
    {tape : S → TapeSource} {events : List (Event L S)}
    (hrun : (start settings link surface tape).run events = .ok t)
    (hremote : t.engine.channel.remote = true) :
    (∀ p : Parser, p.AtBoundary →
        ((p.advance Byte.esc).2.feed [0x65]).1 = [.single .fileTransfer]) ∧
      (t.requested? = some (.single .fileTransfer) →
        ∃ t' o, t.step = .ok (true, t') ∧ t.observe [.step] = .ok o ∧
          t.engine.Transferred t'.engine o.attempts) ∧
      (t.ring.toList = [] → t.engine.parser.phase = .idle →
        t.engine.channel.ackPending = false →
        ∃ t' o, t.feed [Byte.esc, 0x65] = .ok t' ∧
          t.observe [.feed [Byte.esc, 0x65]] = .ok o ∧ t'.ring.toList = [] ∧
          t.engine.Transferred t'.engine o.attempts) ∧
      ((∀ bytes, t.engine.tape t.engine.surface = .image bytes →
          t.engine.tapeBytes = bytes ++ [0x00, 0x00]) ∧
        ∀ reason, t.engine.tape t.engine.surface = .unreadable reason →
          t.engine.tapeBytes = [0xFF, 0xFF]) ∧
      ∀ {σ : Type} (send : σ → UInt8 → Option String × σ) (source : TapeSource) (s : σ),
        Transfer.Streams send source s := by
  have hlost := lost_of_run_start hrun
  refine ⟨?_, ?_, ?_, ⟨?_, ?_⟩, Transfer.streams⟩
  · intro p hboundary
    obtain ⟨text, hopened, -⟩ := hboundary.advance_esc
    rw [hopened]
    rfl
  · intro hasks
    exact step_transferred hasks hremote hlost
  · intro hempty hidle hack
    exact feed_transferred hempty hidle hremote hlost hack
  · intro bytes hbytes
    rw [Engine.tapeBytes, hbytes]
    rfl
  · intro reason hreason
    rw [Engine.tapeBytes, hreason]
    rfl

/-- A link that accepts four bytes cuts an image of five. -/
theorem transfers_of_run_start_recorded :
    ∃ t t' o, (start { Settings.standard with ringCapacity := 8 } (RecordingLink.limited (some 4))
          RecordingSurface.empty fun _ => .image [0x41, 0x42, 0x43, 0x44, 0x45]).run
        [.feed [0x61]] = .ok t ∧
      t.feed [Byte.esc, 0x65] = .ok t' ∧ t.observe [.feed [Byte.esc, 0x65]] = .ok o ∧
      t.engine.Transferred t'.engine o.attempts ∧ t'.engine.channel.remote = false := by
  have hfacts : ((start { Settings.standard with ringCapacity := 8 }
          (RecordingLink.limited (some 4)) RecordingSurface.empty
          fun _ => .image [0x41, 0x42, 0x43, 0x44, 0x45]).run [.feed [0x61]]).map (fun t =>
      (t.ring.toList, t.engine.parser.phase, t.engine.channel.ackPending, t.engine.channel.remote,
        (sendAll HostLink.sendByte t.engine.channel.link t.engine.tapeBytes).1.isSome)) =
      .ok ([], .idle, false, true, true) := by
    cbv
  obtain ⟨t, hrun, hstate⟩ := Fault.exists_of_map hfacts
  simp only [Prod.mk.injEq] at hstate
  obtain ⟨hempty, hidle, hack, hremote, hrefused⟩ := hstate
  obtain ⟨-, -, hfeeds, -⟩ := transfers_of_run_start hrun hremote
  obtain ⟨t', o, hfeed, hobserved, -, htransferred⟩ := hfeeds hempty hidle hack
  refine ⟨t, t', o, hrun, hfeed, hobserved, htransferred, ?_⟩
  generalize t'.engine = after, o.attempts = attempts at htransferred ⊢
  cases htransferred with
  | whole p haccepted =>
    rw [sendAll_eq_none_iff.2 haccepted] at hrefused
    cases hrefused
  | cut p h => rfl

end Terminal

end GraphicsTerminal
