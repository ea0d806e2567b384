import GraphicsTerminal.Proofs.Terminal.Moments
import GraphicsTerminal.Proofs.Terminal.Sequences

/-!
# Combined sequences

A mode or display sequence with several terms does what separate sequences with these
terms do, when it reaches a terminal between two units.  An enquiry inside of a sequence is
answered at once or in the next idle moment, and both go unseen by the sequence; but separate
sequences have more idle moments, so acknowledgements that are shown on the screen tell them
apart.  A combined sequence is longer than each separate one, so it may fill the ring where
they do not.

Main definitions:

- {lit}`Engine.opening`: the engine behind an escape byte.
- {lit}`Engine.Operated`: how far an engine has come with the bytes behind it.
- {lit}`Terminal.filled`: the terminal in which the first slice of some bytes waits.

Main results:

- Theorem {lit}`Engine.Operated.receive`: a byte takes the engine one step further.
- Theorem {lit}`Terminal.run_of_opens`: behind an escape byte a stream is taken in pieces.
- Theorem {lit}`Terminal.feed_combined_sequence`: a combined sequence does what separate ones
  do.
-/

namespace GraphicsTerminal

namespace Engine

variable {L S : Type} [HostLink L] [Surface S] {e : Engine L S}

/-! ## Behind an escape byte -/

/-- Between two engines nothing changed that decides how enquiries are answered. -/
structure AnswersLike (e e' : Engine L S) : Prop where
  settings : e'.settings = e.settings
  ackPending : e'.channel.ackPending = e.channel.ackPending
  connected : e.channel.Connected → e'.channel.Connected

omit [Surface S] in
theorem AnswersLike.trans {e e' e'' : Engine L S} (h : e.AnswersLike e')
    (h' : e'.AnswersLike e'') : e.AnswersLike e'' where
  settings := h'.settings.trans h.settings
  ackPending := h'.ackPending.trans h.ackPending
  connected := h'.connected ∘ h.connected

omit [Surface S] in
/-- A report of a loss does not change how enquiries are answered. -/
theorem AnswersLike.reportLoss {e e' : Engine L S} (h : e.AnswersLike e') :
    e.AnswersLike e'.reportLoss where
  settings := by
    rw [reportLoss_eq]
    exact h.settings
  ackPending := by
    rw [channel_reportLoss]
    exact h.ackPending
  connected := by
    intro hconnected
    rw [channel_reportLoss]
    exact { h.connected hconnected with lost := rfl }

theorem answersLike_pollClick (e : Engine L S) : e.AnswersLike e.pollClick.2 where
  settings := by
    unfold pollClick
    split
    · split <;> rfl
    · rfl
  ackPending := by
    rcases e.channel_pollClick with hsame | ⟨reply, harmed⟩
    · rw [hsame]
    · rw [harmed]
      rfl
  connected := by
    intro hconnected
    rcases e.channel_pollClick with hsame | ⟨reply, harmed⟩
    · rw [hsame]
      exact hconnected
    · rw [harmed]
      exact { hconnected with }

/-- Between two units an escape byte is taken. -/
theorem exists_receive_esc (h : e.parser.AtBoundary) :
    ∃ next text, e.receive Byte.esc = .ok next ∧ next.parser = .within text .inEscape [] ∧
      e.AnswersLike next := by
  obtain ⟨text, hparser, haction⟩ := h.advance_esc
  have hinterpret : ∃ next, e.interpret Byte.esc = .ok next ∧
      next.parser = .within text .inEscape [] ∧ e.AnswersLike next := by
    simp only [interpret, hparser]
    cases hadvanced : (e.parser.advance Byte.esc).1 with
    | none => exact ⟨_, rfl, rfl, rfl, rfl, id⟩
    | some action =>
      obtain ⟨told, rfl⟩ := haction action hadvanced
      exact ⟨_, rfl, rfl, rfl, rfl, id⟩
  obtain ⟨next, hnext, hwithin, hanswers⟩ := hinterpret
  refine ⟨next.reportLoss, text, ?_, (parser_reportLoss next).trans hwithin, hanswers.reportLoss⟩
  rw [receive, if_neg (by decide), hnext]
  rfl

/-- Outside of sequences a handshake is taken. -/
theorem exists_receive_dc1 (h : e.parser.phase = .idle) :
    ∃ next, e.receive Byte.dc1 = .ok next ∧ next.parser.phase = .idle ∧
      e.AnswersLike next := by
  have hadvanced : e.parser.advance Byte.dc1 =
      (some .handshake, { e.parser with swallowLineFeed := false }) := by
    have hline : (e.parser.swallowLineFeed && Byte.dc1 == Byte.lf) = false :=
      Bool.and_false _
    rw [Parser.advance, hline]
    simp only [h]
    rfl
  have hreceive : e.receive Byte.dc1 =
      .ok ({ e with parser := { e.parser with swallowLineFeed := false } }.useChannel
        Channel.release).reportLoss := by
    rw [receive, if_neg (by decide), interpret, hadvanced]
    rfl
  refine ⟨_, hreceive, receive_dc1_phase h hreceive, AnswersLike.reportLoss ?_⟩
  exact
    { settings := rfl
      ackPending := Channel.ackPending_release e.channel e.screen
      connected := fun hconnected =>
        (hconnected.carry e.screen (e.tape e.surface) .release).1 }

/-- The engine behind an escape byte.  A click that waits is taken before the byte, and its
handshake is received. -/
def opening (e : Engine L S) : Except Fault (Engine L S) :=
  if e.pollClick.1 then e.pollClick.2.receive Byte.dc1 >>= fun e => e.receive Byte.esc
  else e.pollClick.2.receive Byte.esc

/-- What is known of an engine behind an escape byte. -/
structure Opens (e opened : Engine L S) : Prop extends AnswersLike e opened where
  opening_eq : e.opening = .ok opened
  parser : ∃ text, opened.parser = .within text .inEscape []
  lost : opened.channel.lost = none

/-- Between two units an escape byte is taken, whether a click comes before it or not. -/
theorem exists_opens (h : e.parser.AtBoundary) : ∃ opened, e.Opens opened := by
  cases hclick : e.pollClick.1 with
  | false =>
    have hboundary : e.pollClick.2.parser.AtBoundary := by
      rw [Parser.AtBoundary, parser_pollClick_of_false (Prod.ext hclick rfl)]
      exact h
    obtain ⟨opened, text, hreceive, hparser, hanswers⟩ := exists_receive_esc hboundary
    refine ⟨opened, e.answersLike_pollClick.trans hanswers, ?_, ⟨text, hparser⟩,
      lost_of_receive hreceive⟩
    rw [opening, hclick]
    exact hreceive
  | true =>
    have hidle := (phase_pollClick_of_true (Prod.ext hclick rfl)).2
    obtain ⟨next, hshaken, hnext, hanswered⟩ := exists_receive_dc1 hidle
    obtain ⟨opened, text, hreceive, hparser, hanswers⟩ := exists_receive_esc (.inl hnext)
    refine ⟨opened, (e.answersLike_pollClick.trans hanswered).trans hanswers, ?_,
      ⟨text, hparser⟩, lost_of_receive hreceive⟩
    rw [opening, hclick, if_pos rfl, hshaken]
    exact hreceive

/-! ## Engines that operate -/

/-- How far an engine has come with the bytes behind an escape byte: it took a moment for each
enquiry, some moments of rest, and the operations that the other bytes ask for. -/
structure Operated (origin e : Engine L S) (seen : List UInt8) (moments : List Moment) :
    Prop where
  asks : moments.count .ask = seen.count Byte.enq
  eq : e =
    { (origin.parser.feed (Byte.unasked seen)).1.foldl operate (moments.foldl attend origin) with
      parser := (origin.parser.feed (Byte.unasked seen)).2 }
  lost : e.channel.lost = none
  awake : e.parser.phase ≠ .awaitClick

namespace Operated

variable {origin : Engine L S} {seen : List UInt8} {moments : List Moment}

theorem refl (hlost : origin.channel.lost = none) (hphase : origin.parser.phase ≠ .awaitClick) :
    origin.Operated origin [] [] := ⟨rfl, rfl, hlost, hphase⟩

/-- A moment is taken before the operations. -/
theorem attend (h : origin.Operated e seen moments) (m : Moment) :
    e.attend m =
      { (origin.parser.feed (Byte.unasked seen)).1.foldl operate
          ((moments ++ [m]).foldl Engine.attend origin) with
        parser := (origin.parser.feed (Byte.unasked seen)).2 } := by
  have hparser (e : Engine L S) (p : Parser) :
      { e with parser := p }.attend m = { e.attend m with parser := p } := by
    rw [attend_eq, attend_eq]
  rw [h.eq, hparser, attend_foldl_operate, List.foldl_concat]

theorem awake_attend (h : origin.Operated e seen moments) (m : Moment) :
    (e.attend m).parser.phase ≠ .awaitClick := by
  rw [attend_eq]
  exact h.awake

/-- An idle moment is a moment of rest. -/
theorem idle (h : origin.Operated e seen moments) :
    origin.Operated e.idle seen (moments ++ [.rest]) where
  asks := by
    rw [List.count_append, h.asks]
    rfl
  eq := (attend_rest e).trans (h.attend .rest)
  lost := lost_reportLoss _
  awake := h.awake_attend .rest

/-- An enquiry is a moment. -/
theorem enquire (h : origin.Operated e seen moments) :
    e.receive Byte.enq = .ok (e.attend .ask) ∧
      origin.Operated (e.attend .ask) (seen ++ [Byte.enq]) (moments ++ [.ask]) := by
  refine ⟨?_, ?_, ?_, lost_reportLoss _, h.awake_attend .ask⟩
  · rw [receive, if_pos rfl, ← attend_ask]
    rfl
  · rw [List.count_append, List.count_append, h.asks]
    rfl
  · rw [Byte.unasked_concat_enq]
    exact h.attend .ask

/-- Any other byte is taken, if it asks for operations only. -/
theorem receive (h : origin.Operated e seen moments) {b : UInt8} (hb : b ≠ Byte.enq)
    (hops : ∀ action ∈ ((origin.parser.feed (Byte.unasked seen)).2.advance b).1,
      action.IsOperation) :
    ∃ next, e.receive b = .ok next ∧ origin.Operated next (seen ++ [b]) moments := by
  have hparser : e.parser = (origin.parser.feed (Byte.unasked seen)).2 := by
    rw [h.eq]
  rw [← hparser] at hops
  -- The action that the byte completes, if any, is an operation.
  have hinterpret : ∃ next, e.interpret b = .ok next ∧ next.channel = e.channel ∧
      next = { (e.parser.advance b).1.toList.foldl operate e with
        parser := (e.parser.advance b).2 } := by
    simp only [interpret]
    cases haction : (e.parser.advance b).1 with
    | none => exact ⟨_, rfl, rfl, rfl⟩
    | some action =>
      exact ⟨_, apply_of_isOperation (hops action haction) _, channel_operate _ action,
        operate_withParser e _ action⟩
  obtain ⟨next, hnext, hchannel, heq⟩ := hinterpret
  have hlost : next.channel.lost = none := by
    rw [hchannel]
    exact h.lost
  refine ⟨next, ?_, ?_, ?_, hlost, ?_⟩
  · rw [Engine.receive, if_neg hb, hnext]
    exact congrArg Except.ok (reportLoss_of_none hlost)
  · rw [List.count_append, h.asks, List.count_singleton, if_neg]
    · rfl
    · exact fun hask => hb (eq_of_beq hask)
  · have hoperated := (congrArg ((e.parser.advance b).1.toList.foldl operate) h.eq).trans
      (foldl_operate_withParser _ _ _)
    rw [Byte.unasked_concat hb, Parser.feed_append, Parser.feed_singleton, ← hparser,
      List.foldl_append, heq, hoperated]
  · rw [heq]
    exact Parser.phase_advance_ne h.awake b

end Operated

/-- Two streams look alike at rest, if they ask for the same operations and have the same
number of enquiries, which cannot be told apart. -/
theorem looksLike_of_operated {origin combined separate : Engine L S} {seen seen' : List UInt8}
    {moments moments' : List Moment} {first second joined : Action}
    (hlost : origin.channel.lost = none)
    (h : origin.Operated combined seen (moments ++ [.rest]))
    (h' : origin.Operated separate seen' (moments' ++ [.rest]))
    (hjoined : (origin.parser.feed (Byte.unasked seen)).1 = [joined])
    (hparts : (origin.parser.feed (Byte.unasked seen')).1 = [first, second])
    (hjoins : Action.Joins first second joined)
    (hcount : seen.count Byte.enq = seen'.count Byte.enq)
    (henq : seen.count Byte.enq = 0 ∨
      (origin.settings.enqAck = false ∧ origin.channel.ackPending = false) ∨
        origin.channel.Connected) : LooksLike combined separate := by
  have hasks {moments : List Moment} {e : Engine L S} {seen : List UInt8}
      (h : origin.Operated e seen (moments ++ [.rest])) :
      moments.count .ask = seen.count Byte.enq := by
    rw [← h.asks, List.count_append]
    rfl
  have hrested : LooksLike ((moments.foldl Engine.attend origin).attend .rest)
      ((moments'.foldl Engine.attend origin).attend .rest) :=
    looksLike_of_moments hlost (by rw [hasks h, hasks h', hcount]) (by rwa [hasks h])
  have hoperated := (hrested.operate first).operate second
  rw [← operate_of_joins hjoins] at hoperated
  have heq := h.eq
  have heq' := h'.eq
  rw [hjoined, List.foldl_concat] at heq
  rw [hparts, List.foldl_concat] at heq'
  rw [heq, heq']
  exact congrArg (fun e : Engine L S =>
    { e with parser := (origin.parser.feed (Byte.unasked seen')).2 }) hoperated

/-- A byte that is an enquiry or asks for operations only, when certain bytes were taken
before. -/
def TakesOperations (origin : Engine L S) (seen : List UInt8) (b : UInt8) : Prop :=
  b = Byte.enq ∨
    ∀ action ∈ ((origin.parser.feed (Byte.unasked seen)).2.advance b).1, action.IsOperation

omit [HostLink L] [Surface S] in
/-- Every byte of a stream that asks for operations only is such a byte. -/
theorem takesOperations_all {origin : Engine L S} {seen bytes : List UInt8}
    (hops : ∀ action ∈ ((origin.parser.feed (Byte.unasked seen)).2.feed (Byte.unasked bytes)).1,
      action.IsOperation) : Terminal.AllowedAfter origin.TakesOperations seen bytes := by
  induction bytes generalizing seen with
  | nil => trivial
  | cons b rest ih =>
    by_cases henq : b = Byte.enq
    · subst henq
      refine ⟨.inl rfl, ih ?_⟩
      rw [Byte.unasked_concat_enq]
      exact hops
    · have htaken : (origin.parser.feed (Byte.unasked (seen ++ [b]))).2 =
          ((origin.parser.feed (Byte.unasked seen)).2.advance b).2 := by
        rw [Byte.unasked_concat henq, Parser.feed_append, Parser.feed_singleton]
      rw [Byte.unasked_cons henq, Parser.feed] at hops
      refine ⟨.inr fun action haction => hops action ?_, ih fun action haction => hops action ?_⟩
      · exact List.mem_append_left _ (Option.mem_toList.2 haction)
      · rw [htaken] at haction
        exact List.mem_append_right _ haction

end Engine

namespace Terminal

variable {L S : Type} [HostLink L] [Surface S] {t : Terminal L S} {opened : Engine L S}

/-- The byte in front is received, and work goes on with those behind it. -/
theorem runUntilIdle_of_receive {b : UInt8} {rest : List UInt8} {e : Engine L S}
    (hring : t.pollClick.ring.toList = b :: rest)
    (hreceive : t.engine.pollClick.2.receive b = .ok e) :
    ∃ next : Terminal L S, t.runUntilIdle = next.runUntilIdle ∧
      next.ring.toList = rest ∧ next.engine = e := by
  cases hpop : t.pollClick.ring.pop? with
  | none =>
    rw [Ring.pop?_eq_none_iff, hring] at hpop
    cases hpop
  | some taken =>
    obtain ⟨b', ring⟩ := taken
    have hlist := Ring.toList_of_pop? hpop
    rw [hring] at hlist
    obtain ⟨rfl, rfl⟩ := List.cons.inj hlist
    refine ⟨⟨ring, e⟩, runUntilIdle_of_more ?_, rfl, rfl⟩
    simp only [step, hpop, engine_pollClick, hreceive]
    rfl

/-- A terminal in which an escape byte waits takes it, after a click that finds room. -/
theorem runUntilIdle_of_opens {rest : List UInt8} (hopens : t.engine.Opens opened)
    (hring : t.ring.toList = Byte.esc :: rest) (hkept : t.losesByte = false) :
    ∃ next : Terminal L S, t.runUntilIdle = next.runUntilIdle ∧
      next.ring.toList = rest ∧ next.engine = opened := by
  have hopening := hopens.opening_eq
  unfold Engine.opening at hopening
  cases hclick : t.engine.pollClick.1 with
  | false =>
    rw [hclick] at hopening
    refine runUntilIdle_of_receive ?_ hopening
    rw [ring_pollClick_of_false hclick, hring]
  | true =>
    have hroom : t.ring.isFull = false := by
      simpa only [losesByte, takesClick, hclick, Bool.true_and] using hkept
    rw [hclick] at hopening
    obtain ⟨shaken, hshaken, hopened⟩ := Fault.exists_of_bind hopening
    have hfront : t.pollClick.ring.toList = Byte.dc1 :: Byte.esc :: rest := by
      rw [ring_pollClick_of_true hclick, Ring.toList_putBack, hroom, hring]
      rfl
    obtain ⟨next, hrun, hnext, rfl⟩ := runUntilIdle_of_receive hfront hshaken
    -- The wait is over, so the escape byte is next.
    have hidle := Engine.receive_dc1_phase
      (Engine.phase_pollClick_of_true (Prod.ext hclick rfl)).2 hshaken
    have hstill : next.engine.Still := by
      refine Engine.still_of_phase ?_
      rw [hidle]
      exact Phase.noConfusion
    have hpolled : next.pollClick.ring.toList = Byte.esc :: rest := by
      rw [ring_pollClick_of_false (congrArg Prod.fst hstill), hnext]
    have hreceive : next.engine.pollClick.2.receive Byte.esc = .ok opened := by
      rw [hstill]
      exact hopened
    obtain ⟨last, hrun', hlast, heq⟩ := runUntilIdle_of_receive hpolled hreceive
    exact ⟨last, hrun.trans hrun', hlast, heq⟩

/-- A terminal follows the bytes of a stream as long as they ask for operations only. -/
theorem follows_operated (origin : Engine L S) :
    Follows origin.TakesOperations (fun (_ : Unit) _ => pure ())
      (fun seen e _ => ∃ moments, origin.Operated e seen moments)
      (fun seen e _ => ∃ moments, origin.Operated e seen (moments ++ [.rest])) where
  busy_of_settled := fun ⟨moments, h⟩ => ⟨moments ++ [.rest], h⟩
  poll := by
    rintro seen e - ⟨moments, h⟩
    rw [Engine.still_of_phase h.awake]
    exact ⟨rfl, moments, h⟩
  receive := by
    rintro seen e - b hb ⟨moments, h⟩
    by_cases henq : b = Byte.enq
    · subst henq
      rw [h.enquire.1]
      exact .ok ⟨moments ++ [.ask], h.enquire.2⟩
    · obtain ⟨next, hreceive, hnext⟩ := h.receive henq (hb.resolve_left henq)
      rw [hreceive]
      exact .ok ⟨moments, hnext⟩
  idle := fun ⟨moments, h⟩ => ⟨moments, h.idle⟩

/-! ## The first slice -/

/-- The terminal in which the first slice of some bytes waits. -/
def filled (t : Terminal L S) (bytes : List UInt8) : Terminal L S :=
  (t.push (bytes.take (t.slice bytes.length))).2

theorem filled_mem_feedTurns (t : Terminal L S) (b : UInt8) (rest : List UInt8) :
    t.filled (b :: rest) ∈ t.feedTurns (b :: rest) := by
  have hself (t : Terminal L S) : t ∈ t.turns := by
    rw [turns]
    split
    · exact .head _
    · exact .head _
  rw [feedTurns]
  exact List.mem_append_left _ (hself _)

omit [HostLink L] [Surface S] in
theorem toList_filled (hempty : t.ring.toList = []) (bytes : List UInt8) :
    (t.filled bytes).ring.toList = bytes.take (t.slice bytes.length) := by
  have hroom := Ring.one_le_free hempty
  have hfits : (bytes.take (t.slice bytes.length)).length ≤ t.ring.free := by
    simp only [slice, List.length_take]
    omega
  have hextended := (Ring.extend_of_le_free hfits).1
  rw [hempty] at hextended
  exact hextended

omit [HostLink L] in
/-- A click finds room in front of the first slice exactly when there is room for more
bytes. -/
theorem losesByte_filled (hempty : t.ring.toList = []) (bytes : List UInt8) :
    (t.filled bytes).losesByte = (t.takesClick && decide (t.ring.free ≤ bytes.length)) := by
  have hlength := congrArg List.length (toList_filled hempty bytes)
  have hcapacity : (t.filled bytes).ring.capacity = t.ring.capacity := Ring.capacity_extend _ _
  have hnone : t.ring.length = 0 := by
    rw [← Ring.length_toList, hempty, List.length_nil]
  have hroom := Ring.one_le_free hempty
  have hfull : (t.filled bytes).ring.isFull = decide (t.ring.free ≤ bytes.length) := by
    rw [Ring.length_toList, List.length_take, slice] at hlength
    simp only [Ring.free, hnone, Ring.isFull, hcapacity] at hlength hroom ⊢
    rw [Bool.eq_iff_iff, beq_iff_eq, decide_eq_true_iff]
    omega
  rw [losesByte, hfull]
  rfl

omit [HostLink L] in
/-- A click that finds room in front of some bytes finds it in front of fewer ones. -/
theorem losesByte_filled_of_le (hempty : t.ring.toList = []) {bytes fewer : List UInt8}
    (hle : fewer.length ≤ bytes.length) (h : (t.filled bytes).losesByte = false) :
    (t.filled fewer).losesByte = false := by
  rw [losesByte_filled hempty, Bool.and_eq_false_iff, decide_eq_false_iff_not] at h ⊢
  exact h.imp_right fun hroom hfull => hroom (hfull.trans hle)

/-- Behind an escape byte a terminal follows its bytes, in pieces. -/
theorem run_of_opens {allowed : List UInt8 → UInt8 → Prop}
    {Busy Settled : List UInt8 → Engine L S → Unit → Prop}
    (hfollows : Follows allowed (fun _ _ => pure ()) Busy Settled)
    (hempty : t.ring.toList = []) (hopens : t.engine.Opens opened)
    {first bytes : List UInt8} (more : List (List UInt8)) (hbytes : first ++ more.flatten = bytes)
    (hkept : (t.filled (Byte.esc :: first)).losesByte = false)
    (hallowed : AllowedAfter allowed [] bytes) (hbusy : Busy [] opened ()) :
    ∃ t', t.run (.feed (Byte.esc :: first) :: more.map .feed) = .ok t' ∧
      t'.ring.toList = [] ∧ Settled bytes t'.engine () := by
  obtain ⟨count, hcount⟩ : ∃ count, t.slice (first.length + 1) = count + 1 := by
    refine ⟨t.slice (first.length + 1) - 1, ?_⟩
    simp only [slice]
    omega
  have hfed : t.run (.feed (Byte.esc :: first) :: more.map .feed) =
      (t.filled (Byte.esc :: first)).runUntilIdle >>=
        fun t' => t'.run ((first.drop count :: more).map .feed) := by
    rw [run, respond, feed, filled, List.length_cons, hcount]
    exact bind_assoc _ _ _
  have hwaits : (t.filled (Byte.esc :: first)).ring.toList = Byte.esc :: first.take count := by
    rw [toList_filled hempty, List.length_cons, hcount]
    rfl
  obtain ⟨next, hrun, hring, rfl⟩ :=
    runUntilIdle_of_opens (t := t.filled (Byte.esc :: first)) hopens hwaits hkept
  have hpieces : first.take count ++ (first.drop count :: more).flatten = bytes := by
    rw [List.flatten_cons, ← List.append_assoc, List.take_append_drop, hbytes]
  rw [← hpieces] at hallowed ⊢
  obtain ⟨hnow, hlater⟩ := (AllowedAfter.append_iff _ _).1 hallowed
  have hidle := hfollows.runUntilIdle (m := ()) hring hnow hbusy
  rw [List.foldlM_pure] at hidle
  obtain ⟨idle, hidled, hrest, hsettled⟩ := hidle.ok_of_right
  have hlast := hfollows.run_feeds (m := ()) _ hrest hlater hsettled
  rw [List.foldlM_pure] at hlast
  obtain ⟨t', hrunLater, hnone, htaken⟩ := hlast.ok_of_right
  refine ⟨t', ?_, hnone, htaken⟩
  rw [hfed, hrun, hidled]
  exact hrunLater

/-- A stream that begins with an escape byte and then asks for operations only is taken in
pieces. -/
theorem run_operated (hempty : t.ring.toList = []) (hopens : t.engine.Opens opened)
    {first bytes : List UInt8} (more : List (List UInt8)) (hbytes : first ++ more.flatten = bytes)
    (hkept : (t.filled (Byte.esc :: first)).losesByte = false)
    (hops : ∀ action ∈ (opened.parser.feed (Byte.unasked bytes)).1, action.IsOperation) :
    ∃ t' moments, t.run (.feed (Byte.esc :: first) :: more.map .feed) = .ok t' ∧
      opened.Operated t'.engine bytes (moments ++ [.rest]) := by
  obtain ⟨text, hwithin⟩ := hopens.parser
  have hawake : opened.parser.phase ≠ .awaitClick := by
    rw [hwithin]
    exact Phase.noConfusion
  obtain ⟨t', hrun, -, moments, hoperated⟩ := run_of_opens (follows_operated opened) hempty
    hopens more hbytes hkept (Engine.takesOperations_all hops) ⟨[], .refl hopens.lost hawake⟩
  exact ⟨t', moments, hrun, hoperated⟩

/-! ## Combined sequences -/

/-- A mode or display sequence with several terms does what two sequences do that it can be
cut into behind a letter, which is then made a capital one. -/
theorem feed_combined_sequence {settings : Settings} {link : L} {surface : S}
    {tape : S → TapeSource} {events : List (Event L S)}
    (hrun : (start settings link surface tape).run events = .ok t)
    (hempty : t.ring.toList = []) (hboundary : t.engine.parser.AtBoundary)
    {group letter last : UInt8} {front back : List UInt8}
    (hcut : Parser.CutBody group letter last front back)
    (henq : Byte.enq ∉ front ++ back ∨ t.engine.settings.enqAck = false ∨
      (t.engine.channel.remote = true ∧ HostLink.Reliable t.engine.channel.link))
    (hkept : ∀ s ∈ t.feedTurns
      (Byte.esc :: Parser.sequenceBytes group (front ++ letter :: (back ++ [last]))),
      s.losesByte = false) :
    ∃ combined separate,
      t.feed (Byte.esc :: Parser.sequenceBytes group (front ++ letter :: (back ++ [last]))) =
        .ok combined ∧
      t.run [.feed (Byte.esc :: Parser.sequenceBytes group (front ++ [Byte.upper letter])),
        .feed (Byte.esc :: Parser.sequenceBytes group (back ++ [last]))] = .ok separate ∧
      combined.engine.screen = separate.engine.screen ∧
      combined.engine.graphics = separate.engine.graphics ∧
      combined.engine.surface = separate.engine.surface ∧
      combined.engine.alphaActive = separate.engine.alphaActive ∧
      combined.engine.parser.phase = separate.engine.parser.phase ∧
      combined.engine.parser.outlook = separate.engine.parser.outlook := by
  obtain ⟨opened, hopens⟩ := Engine.exists_opens hboundary
  obtain ⟨text, hwithin⟩ := hopens.parser
  obtain ⟨first, second, joined, whole, parts, hjoins, hwhole, hparts, hphase, houtlook⟩ :=
    hcut.unasked.feed text
  obtain ⟨hunasked, hcount⟩ := hcut.unasked_whole
  obtain ⟨hunasked', hcount'⟩ := hcut.unasked_parts
  rw [← hunasked, ← hwithin] at hwhole
  rw [← hunasked', ← hwithin] at hparts
  have hfilled := hkept _ (filled_mem_feedTurns t _ _)
  have hfilled' : (t.filled (Byte.esc ::
      Parser.sequenceBytes group (front ++ [Byte.upper letter]))).losesByte = false := by
    refine losesByte_filled_of_le hempty ?_ hfilled
    simp [Parser.sequenceBytes]
  obtain ⟨hoperates, hoperates', hoperatesWhole⟩ := hjoins.isOperation
  obtain ⟨combined, moments, hfeed, hoperated⟩ :=
    run_operated hempty hopens [] (List.append_nil _) hfilled fun action haction => by
      rw [hwhole] at haction
      rw [List.mem_singleton.1 haction]
      exact hoperatesWhole
  obtain ⟨separate, moments', hfeeds, hoperated'⟩ :=
    run_operated hempty hopens [Byte.esc :: Parser.sequenceBytes group (back ++ [last])]
      (congrArg (_ ++ ·) (List.append_nil _)) hfilled' fun action haction => by
      rw [hparts] at haction
      rcases List.mem_cons.1 haction with rfl | hsecond
      · exact hoperates
      · rw [List.mem_singleton.1 hsecond]
        exact hoperates'
  -- The enquiries of both cannot be told apart.
  have hdiscreet : (Parser.sequenceBytes group (front ++ letter :: (back ++ [last]))).count
      Byte.enq = 0 ∨ (opened.settings.enqAck = false ∧ opened.channel.ackPending = false) ∨
        opened.channel.Connected := by
    rcases henq with hnone | hanswered | ⟨hremote, hreliable⟩
    · exact .inl (hcount.trans (List.count_eq_zero.2 hnone))
    · rw [hopens.settings, hopens.ackPending]
      exact .inr (.inl ⟨hanswered, ackPending_of_run_start hrun hanswered⟩)
    · exact .inr (.inr (hopens.connected ⟨hremote, hreliable, lost_of_run_start hrun⟩))
  have hlook := Engine.looksLike_of_operated hopens.lost hoperated hoperated'
    (congrArg Prod.fst hwhole) (congrArg Prod.fst hparts) hjoins (hcount.trans hcount'.symm)
    hdiscreet
  have hparser : combined.engine.parser = whole :=
    (congrArg Engine.parser hoperated.eq).trans (congrArg Prod.snd hwhole)
  have hparser' : separate.engine.parser = parts :=
    (congrArg Engine.parser hoperated'.eq).trans (congrArg Prod.snd hparts)
  refine ⟨combined, separate, (run_singleton t _).symm.trans hfeed, hfeeds,
    (congrArg Engine.screen hlook).symm, (congrArg Engine.graphics hlook).symm,
    (congrArg Engine.surface hlook).symm, (congrArg Engine.alphaActive hlook).symm, ?_, ?_⟩
  · rw [hparser, hparser', hphase]
  · rw [hparser, hparser', houtlook]

/-- Line type and drawing mode in one sequence, and in two. -/
theorem feed_combined_sequence_recorded :
    ∃ combined separate,
      (recorded 8).feed (Byte.esc :: Parser.sequenceBytes 0x6D [0x32, 0x61, 0x33, 0x42]) =
        .ok combined ∧
      (recorded 8).run [.feed (Byte.esc :: Parser.sequenceBytes 0x6D [0x32, 0x41]),
        .feed (Byte.esc :: Parser.sequenceBytes 0x6D [0x33, 0x42])] = .ok separate ∧
      combined.engine.screen = separate.engine.screen ∧
      combined.engine.graphics = separate.engine.graphics ∧
      combined.engine.surface = separate.engine.surface ∧
      combined.engine.alphaActive = separate.engine.alphaActive ∧
      combined.engine.parser.phase = separate.engine.parser.phase ∧
      combined.engine.parser.outlook = separate.engine.parser.outlook := by
  have hcut : Parser.CutBody 0x6D 0x61 0x42 [0x32] [0x33] :=
    { group_eq := .inl rfl
      letter_small := by decide
      last_ends := by decide
      plain := by
        intro b hb
        rcases List.mem_cons.1 hb with rfl | hb
        · decide
        · rw [List.mem_singleton.1 hb]
          decide }
  have hkept : ((recorded 8).feedTurns (Byte.esc ::
      Parser.sequenceBytes 0x6D ([0x32] ++ 0x61 :: ([0x33] ++ [0x42])))).all
        (fun s => !s.losesByte) = true := by
    cbv
  have hrun : (start { Settings.standard with ringCapacity := 8 } RecordingLink.unlimited
      RecordingSurface.empty fun _ => .missing).run [] = .ok (recorded 8) := rfl
  refine feed_combined_sequence hrun rfl (.inl rfl) hcut (.inl (by decide)) fun s hs => ?_
  exact Bool.not_eq_true' _ ▸ List.all_eq_true.1 hkept s hs

/-- A terminal without a host acknowledges two enquiries of one sequence on its screen once,
and those of two sequences twice.  A click that is waited for takes the place of the last byte
of one sequence that fills the ring, and of no byte of two shorter sequences. -/
theorem enquiries_or_click_of_combined_sequence :
    let inLocal := (start { Settings.standard with remote := false, ringCapacity := 9 }
      RecordingLink.unlimited RecordingSurface.empty fun _ => .missing).run
    let withClick := fun events => (recorded 8).run
      ([.feed [Byte.esc, 0x2A, 0x73, 0x34, 0x5E],
        .surface (·.addClick ⟨⟨12, 34⟩, Click.left⟩)] ++ events)
    ((inLocal [.feed (Byte.esc :: Parser.sequenceBytes 0x6D
          [0x05, 0x31, 0x61, 0x05, 0x32, 0x42])]).map (·.engine.screen.cursor.column) = .ok 1 ∧
      (inLocal [.feed (Byte.esc :: Parser.sequenceBytes 0x6D [0x05, 0x31, 0x41]),
          .feed (Byte.esc :: Parser.sequenceBytes 0x6D [0x05, 0x32, 0x42])]).map
        (·.engine.screen.cursor.column) = .ok 2) ∧
    (withClick [.feed (Byte.esc :: Parser.sequenceBytes 0x6D [0x31, 0x61, 0x32, 0x42])]).map
        (·.engine.parser.phase) = .ok (.inGraphics (some .mode)) ∧
      (withClick [.feed (Byte.esc :: Parser.sequenceBytes 0x6D [0x31, 0x41]),
          .feed (Byte.esc :: Parser.sequenceBytes 0x6D [0x32, 0x42])]).map
        (·.engine.parser.phase) = .ok .idle := by
  refine ⟨⟨?_, ?_⟩, ?_, ?_⟩
  · cbv
  · cbv
  · cbv
  · cbv

end Terminal

end GraphicsTerminal
