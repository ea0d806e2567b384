import GraphicsTerminal.Proofs.Terminal.Rest
import GraphicsTerminal.Proofs.Terminal.Stream

/-!
# Enquiries

An enquiry is answered before the parser sees it, wherever in the stream it stands.  As
long as the link accepts every write and no click comes, enquiries change nothing but the
writes: the terminal follows the engine that takes the stream without them, and its
answers are found among the writes of that engine.

Main definitions:

- {lit}`HostLink.Reliable`: a link that accepts every write.
- {lit}`Answered`: writes with a number of answers among them.
- {lit}`Settings.Answers`: the number of answers that enquiries get.
- {lit}`Terminal.stream`: the bytes that wait, and those that come in pieces.

Main results:

- Theorem {lit}`Engine.Enquired.enquire`: an enquiry changes nothing but the writes.
- Theorem {lit}`Terminal.observe_feeds_answered`: what is seen of a stream is what an engine
  shows that takes it without its enquiries, answers apart.
- Theorem {lit}`Terminal.observe_feeds_enquiries`: streams that differ in their enquiries
  differ in the answers alone.
-/

namespace GraphicsTerminal

/-! ## Links that accept every write -/

namespace HostLink

variable {L : Type} [HostLink L] {link : L}

/-- A link that accepts every write, whatever was written before. -/
def Reliable (link : L) : Prop :=
  ∀ (writes : List (List UInt8)) (bytes : List UInt8),
    (send (writes.foldl (fun link bytes => (send link bytes).2) link) bytes).1 = none

/-- A reliable link accepts the next write. -/
theorem Reliable.accepted (h : Reliable link) (bytes : List UInt8) :
    send link bytes = (none, (send link bytes).2) := Prod.ext (h [] bytes) rfl

/-- After a write a reliable link is still reliable. -/
theorem Reliable.next (h : Reliable link) (bytes : List UInt8) : Reliable (send link bytes).2 :=
  fun writes => h (bytes :: writes)

end HostLink

/-- A log does not make a link refuse writes. -/
theorem LoggedLink.reliable {L : Type} [HostLink L] {link : LoggedLink L}
    (h : HostLink.Reliable link.inner) : HostLink.Reliable link := by
  have hinner : ∀ (writes : List (List UInt8)) (link : LoggedLink L),
      (writes.foldl (fun link bytes => (HostLink.send link bytes).2) link).inner =
        writes.foldl (fun link bytes => (HostLink.send link bytes).2) link.inner := by
    intro writes
    induction writes with
    | nil => exact fun _ => rfl
    | cons bytes writes ih => exact fun link => ih (HostLink.send link bytes).2
  intro writes bytes
  have haccepted := h writes bytes
  rw [← hinner] at haccepted
  exact haccepted

/-- An open link without a limit records every write. -/
theorem RecordingLink.reliable {link : RecordingLink} (hlimit : link.limit = none)
    (hopen : link.closed = false) : HostLink.Reliable link := by
  have haccepts : ∀ {link : RecordingLink}, link.limit = none → link.closed = false →
      ∀ bytes, HostLink.send link bytes =
        (none, { link with sent := link.sent ++ bytes.toArray }) := by
    intro link hlimit hopen bytes
    simp only [HostLink.send, accepts, hlimit, hopen]
    rfl
  intro writes bytes
  induction writes generalizing link with
  | nil => rw [List.foldl_nil, haccepts hlimit hopen]
  | cons earlier writes ih =>
    rw [List.foldl_cons, haccepts hlimit hopen]
    exact ih hlimit hopen

/-- Over such a link, writing changes the link alone. -/
theorem Channel.sendBytes_of_reliable {L : Type} [HostLink L] {c : Channel L}
    (hremote : c.remote = true) (hlink : HostLink.Reliable c.link) (screen : Screen)
    (bytes : List UInt8) :
    c.sendBytes screen bytes = ({ c with link := (HostLink.send c.link bytes).2 }, screen) :=
  sendBytes_of_accepted hremote screen (hlink.accepted bytes)

/-! ## Answers among writes -/

/-- The same writes in the same order, with a number of answers among them. -/
inductive Answered (answer : List UInt8) : Nat → List (List UInt8) → List (List UInt8) → Prop
  | nil : Answered answer 0 [] []
  | write {count : Nat} {writes answered : List (List UInt8)} (bytes : List UInt8)
      (h : Answered answer count writes answered) :
      Answered answer count (writes ++ [bytes]) (answered ++ [bytes])
  | answer {count : Nat} {writes answered : List (List UInt8)}
      (h : Answered answer count writes answered) :
      Answered answer (count + 1) writes (answered ++ [answer])

/-- Without answers the writes are the same. -/
theorem Answered.eq_of_zero {answer : List UInt8} {writes answered : List (List UInt8)}
    (h : Answered answer 0 writes answered) : answered = writes := by
  generalize hcount : 0 = count at h
  induction h with
  | nil => rfl
  | write bytes _ ih => rw [ih hcount]
  | answer _ _ => cases hcount

/-- The answer to an enquiry. -/
def Settings.enquiryAnswer (settings : Settings) : List UInt8 :=
  if settings.enqAck then [Byte.ack] else Text.utf8 (Reply.answerback settings.answerback)

/-- How many answers a number of enquiries gets: one acknowledgement for one or more of
them, or one answerback for each. -/
def Settings.Answers (settings : Settings) (asked answers : Nat) : Prop :=
  if settings.enqAck then answers ≤ asked ∧ (0 < asked → 0 < answers) else answers = asked

namespace Settings

variable {settings : Settings} {asked answers : Nat}

theorem enquiryAnswer_of_acknowledged (h : settings.enqAck = true) :
    settings.enquiryAnswer = [Byte.ack] := if_pos h

theorem enquiryAnswer_of_answered (h : settings.enqAck = false) :
    settings.enquiryAnswer = Text.utf8 (Reply.answerback settings.answerback) :=
  if_neg (Bool.eq_false_iff.1 h)

/-- Without enquiries there are no answers. -/
theorem Answers.eq_zero (h : settings.Answers 0 answers) : answers = 0 := by
  unfold Answers at h
  split at h
  · exact Nat.le_zero.1 h.1
  · exact h

/-- An acknowledgement that waits from the start answers an enquiry. -/
theorem answers_start (settings : Settings) (waiting : Bool) :
    settings.Answers waiting.toNat (0 + waiting.toNat) := by
  rw [Nat.zero_add]
  unfold Answers
  split
  · exact ⟨Nat.le_refl _, fun h => h⟩
  · rfl

/-- Another enquiry shares the acknowledgement that waits, or makes one wait. -/
theorem Answers.acknowledge {waiting : Bool} (hack : settings.enqAck = true)
    (h : settings.Answers asked (answers + waiting.toNat)) :
    settings.Answers (asked + 1) (answers + 1) := by
  unfold Answers at h ⊢
  rw [if_pos hack] at h ⊢
  omega

/-- Another answerback answers another enquiry. -/
theorem Answers.answer (hack : settings.enqAck = false) (h : settings.Answers asked answers) :
    settings.Answers (asked + 1) (answers + 1) := by
  unfold Answers at h ⊢
  rw [if_neg (Bool.eq_false_iff.1 hack)] at h ⊢
  rw [h]

end Settings

/-! ## Channels with answers -/

namespace Channel

variable {L : Type} [HostLink L] {answer : List UInt8} {answers : Nat}
  {c c' : Channel (LoggedLink L)}

/-- A remote channel that has sent answers beside one that has not. -/
structure Enquired (answer : List UInt8) (answers : Nat) (c c' : Channel (LoggedLink L)) :
    Prop where
  reliable : HostLink.Reliable c.link
  reliable' : HostLink.Reliable c'.link
  remote : c.remote = true
  remote' : c'.remote = true
  pending : c.pending = c'.pending
  lost : c.lost = none
  lost' : c'.lost = none
  writes : Answered answer answers c'.link.writes c.link.writes

/-- A write to both channels. -/
theorem Enquired.sendBytes (h : Enquired answer answers c c') (screen : Screen)
    (bytes : List UInt8) :
    Enquired answer answers (c.sendBytes screen bytes).1 (c'.sendBytes screen bytes).1 ∧
      (c.sendBytes screen bytes).2 = (c'.sendBytes screen bytes).2 := by
  have hwrites := c.writes_sendBytes screen bytes
  have hwrites' := c'.writes_sendBytes screen bytes
  rw [h.remote, if_pos rfl] at hwrites
  rw [h.remote', if_pos rfl] at hwrites'
  have hanswered := h.writes.write bytes
  rw [← hwrites, ← hwrites'] at hanswered
  rw [sendBytes_of_reliable h.remote h.reliable,
    sendBytes_of_reliable h.remote' h.reliable'] at hanswered ⊢
  exact ⟨{ h with
    reliable := h.reliable.next bytes
    reliable' := h.reliable'.next bytes
    writes := hanswered }, rfl⟩

/-- An answer on the first channel. -/
theorem Enquired.sendAnswer (h : Enquired answer answers c c') (screen : Screen) :
    Enquired answer (answers + 1) (c.sendBytes screen answer).1 c' ∧
      (c.sendBytes screen answer).2 = screen := by
  have hwrites := c.writes_sendBytes screen answer
  rw [h.remote, if_pos rfl] at hwrites
  have hanswered := h.writes.answer
  rw [← hwrites] at hanswered
  rw [sendBytes_of_reliable h.remote h.reliable] at hanswered ⊢
  exact ⟨{ h with reliable := h.reliable.next answer, writes := hanswered }, rfl⟩

/-- Replies that are armed, released or sent are the same on both channels. -/
theorem Enquired.kept (answer : List UInt8) (answers : Nat) :
    Kept (Enquired (L := L) answer answers) where
  remote := fun h => h.remote.trans h.remote'.symm
  pending := fun h => h.pending
  arm := fun _ h => { h with pending := rfl }
  disarm := fun h => { h with pending := rfl }
  sendBytes := fun screen bytes h => h.sendBytes screen bytes

end Channel

/-! ## Observations with answers -/

/-- An observation that differs from another one in the answers to enquiries alone. -/
structure Observation.Enquired (settings : Settings) (asked : Nat) (o plain : Observation) :
    Prop where
  view : o.view = plain.view
  calls : o.calls = plain.calls
  writes : ∃ answers, settings.Answers asked answers ∧
    Answered settings.enquiryAnswer answers plain.writes o.writes

/-- Without enquiries the writes are the same. -/
theorem Observation.Enquired.writes_eq {settings : Settings} {o plain : Observation}
    (h : o.Enquired settings 0 plain) : o.writes = plain.writes := by
  obtain ⟨answers, hanswers, hwrites⟩ := h.writes
  obtain rfl := hanswers.eq_zero
  exact hwrites.eq_of_zero

/-! ## Engines with answers -/

namespace Engine

variable {L S : Type} [HostLink L] [Surface S] {settings : Settings}
  {tape : LoggedSurface S → TapeSource} {origin : LoggedSurface S} {asked : Nat}
  {e e' : Engine (LoggedLink L) (LoggedSurface S)}

/-- The frame of an engine that has sent answers beside one that has not. -/
def enquiryFrame (settings : Settings) (hquiet : Surface.Quiet tape origin) (answers : Nat)
    (waiting : Bool) : Frame (LoggedLink L) (LoggedLink L) (LoggedSurface S) (LoggedSurface S) :=
  Frame.polled
    (fun c c' => Channel.Enquired settings.enquiryAnswer answers c c' ∧ c.ackPending = waiting)
    (rfl : settings = { settings with ringCapacity := settings.ringCapacity }) hquiet

/-- An engine that was asked a number of times beside one that was not asked.  An
acknowledgement that waits counts as an answer. -/
def Enquired (settings : Settings) (hquiet : Surface.Quiet tape origin) (asked : Nat)
    (e e' : Engine (LoggedLink L) (LoggedSurface S)) : Prop :=
  ∃ answers waiting, Agree (enquiryFrame settings hquiet answers waiting) e e' ∧
    settings.Answers asked (answers + waiting.toNat) ∧
    (settings.enqAck = false → waiting = false)

variable {hquiet : Surface.Quiet tape origin}

/-- A poll finds no click, and the other engine knows nothing of it. -/
theorem Enquired.pollClick (h : Enquired settings hquiet asked e e') :
    e.pollClick.1 = false ∧ Enquired settings hquiet asked e.pollClick.2 e' := by
  obtain ⟨answers, waiting, hagree, hrest⟩ := h
  obtain ⟨hclick, hpolled⟩ := hagree.pollClick_left
  exact ⟨hclick, answers, waiting, hpolled, hrest⟩

/-- Any other byte does the same to both engines. -/
theorem Enquired.receive (h : Enquired settings hquiet asked e e') {b : UInt8}
    (hb : b ≠ Byte.enq) :
    Matches (Enquired settings hquiet asked) (e.receive b) (e'.receive b) := by
  obtain ⟨answers, waiting, hagree, hrest⟩ := h
  have hkept : (enquiryFrame (L := L) settings hquiet answers waiting).KeptByReports :=
    Frame.polled_kept
      ((Channel.Enquired.kept settings.enquiryAnswer answers).and_ackPending
        fun ack _ => ack = waiting)
      (fun h => h.1.lost.trans h.1.lost'.symm)
      fun h => ⟨{ h.1 with lost := rfl, lost' := rfl }, h.2⟩
  exact (hagree.receive_of_unqueued hkept fun _ => hb).mono fun _ _ hnext =>
    ⟨answers, waiting, hnext, hrest⟩

/-- Sending the answer over a channel without an acknowledgement changes nothing but the
writes. -/
theorem enquired_sendBytes {answers : Nat} {waiting : Bool} {c : Channel (LoggedLink L)}
    (hagree : Agree (enquiryFrame settings hquiet answers waiting) e e')
    (hchannel : Channel.Enquired settings.enquiryAnswer answers c e'.channel)
    (hack : c.ackPending = false) (hanswers : settings.Answers asked (answers + 1)) :
    Enquired settings hquiet asked
      ({ e with channel := c }.sendBytes settings.enquiryAnswer).reportLoss e' ∧
    ({ e with channel := c }.sendBytes settings.enquiryAnswer).reportLoss.channel.ackPending =
      false := by
  obtain ⟨hsent, hscreen⟩ := hchannel.sendAnswer e.screen
  have hcleared : (c.sendBytes e.screen settings.enquiryAnswer).1.ackPending = false := by
    rw [Channel.ackPending_sendBytes, hack]
  have hnext : Agree (enquiryFrame settings hquiet (answers + 1) false)
      ({ e with channel := c }.sendBytes settings.enquiryAnswer) e' :=
    { hagree with channel := ⟨hsent, hcleared⟩, screen := hscreen.trans hagree.screen }
  rw [reportLoss_of_none hnext.channel.1.lost]
  exact ⟨⟨answers + 1, false, hnext, hanswers, fun _ => rfl⟩, hcleared⟩

/-- An enquiry changes nothing but the writes. -/
theorem Enquired.enquire (h : Enquired settings hquiet asked e e') :
    ∃ next, e.receive Byte.enq = .ok next ∧ Enquired settings hquiet (asked + 1) next e' := by
  obtain ⟨answers, waiting, hagree, hanswers, hwaiting⟩ := h
  obtain ⟨hchannel, hack⟩ := hagree.channel
  have hsettings : e.settings = settings := hagree.settings
  refine ⟨e.answerEnquiry.reportLoss, ?_, ?_⟩
  · rw [Engine.receive, if_pos rfl]
    rfl
  cases henq : settings.enqAck with
  | true =>
    -- The acknowledgement waits for the next idle moment.
    have hqueued : e.answerEnquiry = { e with channel := e.channel.queueAck } := by
      rw [answerEnquiry, hsettings, if_pos henq]
    have hnext : Agree (enquiryFrame settings hquiet answers true)
        { e with channel := e.channel.queueAck } e' :=
      { hagree with channel := ⟨{ hchannel with }, rfl⟩ }
    rw [hqueued, reportLoss_of_none hnext.channel.1.lost]
    refine ⟨answers, true, hnext, hanswers.acknowledge henq, fun hnone => ?_⟩
    rw [henq] at hnone
    cases hnone
  | false =>
    -- The answerback is sent at once.
    obtain rfl := hwaiting henq
    have hsent : e.answerEnquiry = e.sendBytes settings.enquiryAnswer := by
      rw [answerEnquiry, hsettings, if_neg (Bool.eq_false_iff.1 henq),
        Settings.enquiryAnswer_of_answered henq]
      rfl
    rw [hsent]
    exact (enquired_sendBytes hagree hchannel hack (hanswers.answer henq)).1

/-- In an idle moment the acknowledgement that waits is sent. -/
theorem Enquired.idle (h : Enquired settings hquiet asked e e') :
    Enquired settings hquiet asked e.idle e' ∧ e.idle.channel.ackPending = false := by
  obtain ⟨answers, waiting, hagree, hanswers, hwaiting⟩ := h
  obtain ⟨hchannel, hack⟩ := hagree.channel
  cases waiting with
  | false =>
    rw [idle_of_none hchannel.lost hack]
    exact ⟨⟨answers, false, hagree, hanswers, hwaiting⟩, hack⟩
  | true =>
    have henq : settings.enqAck = true := by
      rw [← Bool.not_eq_false]
      intro hnone
      cases hwaiting hnone
    have hflushed : e.idle = ({ e with channel := { e.channel with ackPending := false } }.sendBytes
        settings.enquiryAnswer).reportLoss := by
      rw [Engine.idle, useChannel, Channel.flushAck, if_pos hack,
        Settings.enquiryAnswer_of_acknowledged henq]
      rfl
    rw [hflushed]
    exact enquired_sendBytes hagree { hchannel with } rfl hanswers

/-- A remote engine with an empty log was not asked, unless an acknowledgement waits from
before. -/
theorem enquired_start (e : Engine (LoggedLink L) (LoggedSurface S))
    (hremote : e.channel.remote = true) (hlost : e.channel.lost = none)
    (hlink : HostLink.Reliable e.channel.link)
    (hack : e.settings.enqAck = false → e.channel.ackPending = false)
    (hwrites : e.channel.link.attempts = []) (hquiet : Surface.Quiet e.tape e.surface) :
    Enquired e.settings hquiet e.channel.ackPending.toNat e e := by
  refine ⟨0, e.channel.ackPending, ?_, e.settings.answers_start _, hack⟩
  have hnone : Answered e.settings.enquiryAnswer 0 e.channel.link.writes e.channel.link.writes := by
    rw [LoggedLink.writes, hwrites]
    exact .nil
  exact
    { settings := rfl
      settings' := rfl
      tape := rfl
      tape' := rfl
      parser := rfl
      screen := rfl
      graphics := rfl
      alphaActive := rfl
      channel := ⟨⟨hlink, hlink, hremote, hremote, rfl, hlost, hlost, hnone⟩, rfl⟩
      surface := Surface.SameCalls.refl _
      events := rfl }

/-- Enquiries cannot be viewed. -/
theorem Enquired.view_eq (h : Enquired settings hquiet asked e e') : e.view = e'.view := by
  obtain ⟨answers, waiting, hagree, -⟩ := h
  obtain ⟨hchannel, -⟩ := hagree.channel
  have hevents : e.events = e'.events := hagree.events
  have hremote : e.channel.remote = e'.channel.remote := hchannel.remote.trans hchannel.remote'.symm
  simp only [view, hagree.screen, hagree.graphics, hagree.parser, hagree.alphaActive, hremote,
    hchannel.pending, hevents]

/-- Once no acknowledgement waits, the answers are all that can be seen of the
enquiries. -/
theorem Enquired.observation (h : Enquired settings hquiet asked e e')
    (hack : e.channel.ackPending = false) :
    e.observation.Enquired settings asked e'.observation := by
  have hview := h.view_eq
  obtain ⟨answers, waiting, hagree, hanswers, -⟩ := h
  obtain ⟨hchannel, hwaiting⟩ := hagree.channel
  obtain rfl : waiting = false := hwaiting.symm.trans hack
  exact
    { view := hview
      calls := hagree.surface.calls_eq
      writes := ⟨answers, hanswers, hchannel.writes⟩ }

end Engine

namespace Terminal

variable {L S : Type} [HostLink L] [Surface S]

/-! ## Streams with enquiries -/

/-- The bytes that wait, and those that come in pieces. -/
def stream (t : Terminal L S) (chunks : List (List UInt8)) : List UInt8 :=
  t.ring.toList ++ chunks.flatten

/-- The enquiries of a stream.  One that was received before counts as well, as long as
its acknowledgement waits. -/
def asked (t : Terminal L S) (chunks : List (List UInt8)) : Nat :=
  (t.stream chunks).count Byte.enq + t.engine.channel.ackPending.toNat

/-- An engine that is not asked takes all bytes but the enquiries. -/
theorem follows_unasked {settings : Settings} {tape : LoggedSurface S → TapeSource}
    {origin : LoggedSurface S} (hquiet : Surface.Quiet tape origin) (first : Nat) :
    Follows (L := LoggedLink L) (fun _ _ => True)
      (fun e b => if decide (b ≠ Byte.enq) = true then e.receive b else pure e)
      (fun seen => Engine.Enquired settings hquiet (seen.count Byte.enq + first))
      (fun seen e e' => Engine.Enquired settings hquiet (seen.count Byte.enq + first) e e' ∧
        e.channel.ackPending = false) where
  busy_of_settled := fun h => h.1
  poll := fun h => h.pollClick
  receive := by
    intro seen e e' b _ h
    by_cases hb : b = Byte.enq
    · subst hb
      obtain ⟨next, hreceive, hnext⟩ := h.enquire
      rw [hreceive, if_neg (by decide), List.count_append, List.count_singleton_self,
        Nat.add_right_comm]
      exact .ok hnext
    · have hcount : [b].count Byte.enq = 0 :=
        List.count_eq_zero.2 fun hmem => hb (List.mem_singleton.1 hmem).symm
      rw [if_pos (decide_eq_true hb), List.count_append, hcount, Nat.add_zero]
      exact h.receive hb
  idle := fun h => h.idle

/-- What is seen of a stream is what an engine shows that takes it without its
enquiries, but for the answers to these. -/
theorem observe_feeds_answered {t : Terminal L S} (hremote : t.engine.channel.remote = true)
    (hlost : t.engine.channel.lost = none) (hlink : HostLink.Reliable t.engine.channel.link)
    (hack : t.engine.settings.enqAck = false → t.engine.channel.ackPending = false)
    (hquiet : Surface.Quiet t.engine.tape t.engine.surface) (hroom : 0 < t.ring.free)
    {chunks : List (List UInt8)} (hchunks : chunks ≠ []) :
    Matches (Observation.Enquired t.engine.settings (t.asked chunks))
      (t.observe (chunks.map .feed))
      ((((t.stream chunks).filter (· ≠ Byte.enq)).foldlM Engine.receive t.logged.engine).map
        Engine.observation) := by
  have hlogged : Surface.Quiet t.logged.engine.tape t.logged.engine.surface :=
    LoggedSurface.quiet hquiet
  have hbusy : Engine.Enquired t.logged.engine.settings hlogged
      ([].count Byte.enq + t.engine.channel.ackPending.toNat) t.logged.engine t.logged.engine := by
    rw [List.count_nil, Nat.zero_add]
    exact t.logged.engine.enquired_start hremote hlost (LoggedLink.reliable hlink) hack rfl hlogged
  have hmatch := (follows_unasked hlogged _).run_feeds_of_free hchunks rfl hroom
    (.of_forall fun _ _ => trivial) hbusy
  rw [List.foldlM_filter, observe, List.map_map]
  refine hmatch.map ?_
  rintro u e ⟨-, hunasked, hsettled⟩
  exact hunasked.observation hsettled

/-- Streams that differ in their enquiries differ in the answers alone.  Two terminals
with the same engine, whose link accepts every write and whose surface reports no click,
take them to the same state, with the same calls and the same other writes in the same
order, wherever the enquiries stand and however the streams are cut into pieces. -/
theorem observe_feeds_enquiries {settings : Settings} {link : L} {surface : S}
    {tape : S → TapeSource} {events : List (Event L S)} {t t' : Terminal L S}
    (hrun : (start settings link surface tape).run events = .ok t)
    (hengine : t'.engine = t.engine) (hremote : t.engine.channel.remote = true)
    (hlink : HostLink.Reliable t.engine.channel.link)
    (hquiet : Surface.Quiet t.engine.tape t.engine.surface) (hroom : 0 < t.ring.free)
    (hroom' : 0 < t'.ring.free) {chunks chunks' : List (List UInt8)} (hchunks : chunks ≠ [])
    (hchunks' : chunks' ≠ [])
    (hbytes : (t.stream chunks).filter (· ≠ Byte.enq) =
      (t'.stream chunks').filter (· ≠ Byte.enq)) :
    Matches (fun o o' => ∃ plain, o.Enquired t.engine.settings (t.asked chunks) plain ∧
        o'.Enquired t.engine.settings (t'.asked chunks') plain)
      (t.observe (chunks.map .feed)) (t'.observe (chunks'.map .feed)) := by
  have hlost := lost_of_run_start hrun
  have hack := ackPending_of_run_start hrun
  have hseen := observe_feeds_answered hremote hlost hlink hack hquiet hroom hchunks
  rw [← hengine] at hremote hlost hlink hack hquiet
  have hseen' := observe_feeds_answered hremote hlost hlink hack hquiet hroom' hchunks'
  have hlogged : t'.logged.engine = t.logged.engine := congrArg Engine.logged hengine
  rw [hlogged, hengine, ← hbytes] at hseen'
  exact hseen.join hseen'

/-- Three enquiries inside of a cursor address, in a stream that comes in two pieces. -/
theorem observe_feeds_enquiries_recorded :
    Matches (fun o o' => o.view = o'.view ∧
        ∃ answers, (recorded 8).engine.settings.Answers 3 answers ∧
          Answered (recorded 8).engine.settings.enquiryAnswer answers o'.writes o.writes)
      ((recorded 8).observe ([[Byte.esc, 0x26, Byte.enq, 0x61],
        [0x35, Byte.enq, Byte.enq, 0x43, 0x41]].map .feed))
      ((recorded 8).observe ([[Byte.esc, 0x26, 0x61, 0x35, 0x43, 0x41]].map .feed)) := by
  have hrun : (recorded 8).run [] = .ok (recorded 8) := rfl
  have hlink : HostLink.Reliable (recorded 8).engine.channel.link :=
    RecordingLink.reliable rfl rfl
  have hquiet : Surface.Quiet (recorded 8).engine.tape (recorded 8).engine.surface :=
    RecordingSurface.quiet .missing rfl
  have hroom : 0 < (recorded 8).ring.free := by decide
  have hbytes : ((recorded 8).stream [[Byte.esc, 0x26, Byte.enq, 0x61],
        [0x35, Byte.enq, Byte.enq, 0x43, 0x41]]).filter (· ≠ Byte.enq) =
      ((recorded 8).stream [[Byte.esc, 0x26, 0x61, 0x35, 0x43, 0x41]]).filter (· ≠ Byte.enq) := rfl
  have hmatch := observe_feeds_enquiries hrun rfl rfl hlink hquiet hroom hroom
    (List.cons_ne_nil _ _) (List.cons_ne_nil _ _) hbytes
  refine hmatch.mono ?_
  rintro o o' ⟨plain, henquired, hplain⟩
  refine ⟨henquired.view.trans hplain.view.symm, ?_⟩
  rw [hplain.writes_eq]
  exact henquired.writes

end Terminal

end GraphicsTerminal
