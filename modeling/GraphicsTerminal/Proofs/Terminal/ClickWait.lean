import GraphicsTerminal.Proofs.Protocol.CombinedBodies
import GraphicsTerminal.Proofs.Protocol.Units
import GraphicsTerminal.Proofs.Terminal.Gate
import GraphicsTerminal.Proofs.Terminal.Memories
import GraphicsTerminal.Proofs.Terminal.Sequences

/-!
# The wait for a click

The wait for a click is a phase of the parser, and an escape byte leads from it into a
sequence, which ends outside of sequences.  So the wait lasts as long as no escape byte comes,
whatever the sequences behind it are, and a click that comes after such a byte is not taken.

Main definitions:

- {lit}`Terminal.parserAfter`: what a turn does to the parser.
- {lit}`Terminal.ReportsClick`: the next step sends the report of a click.

Main results:

- Theorem {lit}`Parser.phase_feed_awaitClick_iff`: the bytes that leave a parser waiting.
- Theorem {lit}`Terminal.parser_of_feedTurns`: the parser is the one that the turns lead to.
- Theorem {lit}`Terminal.awaitsClick_feed_iff`: a wait lasts, and a later click is reported,
  exactly when no escape byte comes.
-/

namespace GraphicsTerminal

namespace Parser

variable {p : Parser} {b : UInt8}

/-- Bytes alone do not begin a wait for a click. -/
theorem phase_feed_ne (h : p.phase ≠ .awaitClick) (bytes : List UInt8) :
    (p.feed bytes).2.phase ≠ .awaitClick := by
  induction bytes generalizing p with
  | nil => exact h
  | cons b rest ih => exact ih (phase_advance_ne h b)

/-- A parser that waits for a click goes on waiting as long as no escape byte comes. -/
theorem phase_feed_awaitClick_iff (h : p.phase = .awaitClick) (bytes : List UInt8) :
    (p.feed bytes).2.phase = .awaitClick ↔ Byte.esc ∉ bytes := by
  induction bytes generalizing p with
  | nil => exact iff_of_true h List.not_mem_nil
  | cons b rest ih =>
    rw [feed, List.mem_cons, not_or]
    by_cases hb : b = Byte.esc
    · subst hb
      refine iff_of_false (phase_feed_ne ?_ rest) fun hfree => hfree.1 rfl
      rw [advance_esc (.inr h)]
      exact Phase.noConfusion
    · have hwaits : (p.advance b).2.phase = .awaitClick := by
        rw [(advance_data (.inr h) hb).2]
        exact h
      rw [ih hwaits]
      exact (and_iff_right (Ne.symm hb)).symm

/-- The parser of a terminal goes on waiting, too. -/
theorem phase_foldl_next {bytes : List UInt8} (h : p.phase = .awaitClick)
    (hbytes : Byte.esc ∉ bytes) : (bytes.foldl next p).phase = .awaitClick := by
  induction bytes generalizing p with
  | nil => exact h
  | cons b rest ih =>
    obtain ⟨hb, hrest⟩ := List.ne_and_not_mem_of_not_mem_cons hbytes
    refine ih ?_ hrest
    unfold next
    split
    · rfl
    · rw [(advance_data (.inr h) (Ne.symm hb)).2]
      exact h

/-- While a click is waited for, no byte completes a control sequence. -/
theorem advance_ne_control (h : p.phase = .awaitClick) (command : ControlSequence) :
    (p.advance b).1 ≠ some (.control command) := by
  intro hcontrol
  rcases advance_outside (.inr h) hcontrol with hnot | hnot | hnot
  all_goals cases hnot

end Parser

/-- A byte moves the parser of an engine, unless it is an enquiry. -/
theorem Engine.parser_of_receive_unasked {L S : Type} [HostLink L] [Surface S]
    {e e' : Engine L S} {b : UInt8} (h : e.receive b = .ok e') :
    e'.parser = (Byte.unasked [b]).foldl Parser.next e.parser := by
  by_cases hb : b = Byte.enq
  · subst hb
    cases h
    rw [parser_reportLoss, answerEnquiry]
    split <;> rfl
  · rw [Byte.unasked_cons hb]
    exact parser_of_receive hb h

namespace Terminal

variable {L S : Type} [Surface S]

/-! ## The parser of each turn -/

/-- What a turn does to the parser.  After a click it takes the handshake, and else the byte
that is handed over, unless that is an enquiry. -/
def parserAfter (t : Terminal L S) (p : Parser) : Parser :=
  if t.takesClick then p.clickResolved.next Byte.dc1
  else (Byte.unasked t.handedOver).foldl Parser.next p

/-- In turns without a click the parser takes the bytes that are handed over. -/
theorem foldl_parserAfter {turns : List (Terminal L S)} (h : ∀ s ∈ turns, s.takesClick = false)
    (p : Parser) :
    turns.foldl (fun p t => t.parserAfter p) p =
      (Byte.unasked (delivered turns)).foldl Parser.next p := by
  induction turns generalizing p with
  | nil => rfl
  | cons t turns ih =>
    rw [List.foldl_cons, ih (fun s hs => h s (.tail t hs)), delivered_cons, Byte.unasked_append,
      List.foldl_append, parserAfter, if_neg (Bool.eq_false_iff.1 (h t (.head turns)))]

variable {t t' : Terminal L S}

/-- A poll that takes a click leaves the handshake in front. -/
theorem pop?_pollClick_of_true (h : t.takesClick = true) :
    ∃ ring, t.pollClick.ring.pop? = some (Byte.dc1, ring) := by
  rw [ring_pollClick_of_true h]
  exact t.ring.pop?_putBack Byte.dc1

/-- A poll that takes a click ends the wait. -/
theorem parser_pollClick_of_true (h : t.takesClick = true) :
    t.pollClick.engine.parser = t.engine.parser.clickResolved := by
  rw [engine_pollClick]
  unfold takesClick at h
  unfold Engine.pollClick at h ⊢
  split at h
  · next hwait =>
    rw [if_pos hwait]
    split at h
    · cases h
    · rfl
  · cases h

theorem parser_pollClick_of_takesClick (h : t.takesClick = false) :
    t.pollClick.engine.parser = t.engine.parser := by
  rw [engine_pollClick]
  exact Engine.parser_pollClick_of_false (Prod.ext h rfl)

variable [HostLink L]

/-- A turn does to the parser what is known of it. -/
theorem parser_of_step {more : Bool} (h : t.step = .ok (more, t')) :
    t'.engine.parser = t.parserAfter t.engine.parser := by
  simp only [step] at h
  cases hclick : t.takesClick with
  | true =>
    obtain ⟨ring, hpop⟩ := pop?_pollClick_of_true hclick
    rw [hpop] at h
    obtain ⟨engine, hreceive, hstepped⟩ := Fault.exists_of_map h
    cases hstepped
    rw [parserAfter, if_pos hclick, ← parser_pollClick_of_true hclick]
    exact Engine.parser_of_receive (by decide) hreceive
  | false =>
    rw [parserAfter, if_neg (Bool.eq_false_iff.1 hclick), handedOver,
      if_neg (Bool.eq_false_iff.1 hclick), ← parser_pollClick_of_takesClick hclick]
    cases hpop : t.pollClick.ring.pop? with
    | none =>
      rw [hpop] at h
      cases h
      exact Engine.parser_idle _
    | some taken =>
      obtain ⟨b, ring⟩ := taken
      rw [hpop] at h
      obtain ⟨engine, hreceive, hstepped⟩ := Fault.exists_of_map h
      cases hstepped
      exact Engine.parser_of_receive_unasked hreceive

theorem parser_of_runUntilIdle (h : t.runUntilIdle = .ok t') :
    t'.engine.parser = t.turns.foldl (fun p t => t.parserAfter p) t.engine.parser := by
  fun_induction runUntilIdle t with
  | case1 t fault hstep => cases h
  | case2 t idle hstep =>
    cases h
    rw [turns, hstep]
    exact parser_of_step hstep
  | case3 t next hstep ih =>
    rw [turns, hstep, List.foldl_cons, ← parser_of_step hstep]
    exact ih h

/-- While bytes are used, the turns lead from one parser to the other. -/
theorem parser_of_feedTurns {bytes : List UInt8} (h : t.feed bytes = .ok t') :
    t'.engine.parser = (t.feedTurns bytes).foldl (fun p t => t.parserAfter p) t.engine.parser := by
  fun_induction feed t bytes with
  | case1 t =>
    rw [feedTurns]
    exact parser_of_runUntilIdle h
  | case2 t b rest count ih =>
    obtain ⟨idle, hslice, hrest⟩ := Fault.exists_of_bind h
    have hturns : t.feedTurns (b :: rest) =
        (t.push ((b :: rest).take count)).2.turns ++
          idle.feedTurns ((b :: rest).drop count) := by
      rw [feedTurns]
      simp only [hslice, followed, count]
    rw [hturns, List.foldl_append]
    refine (ih idle hrest).trans ?_
    rw [parser_of_runUntilIdle hslice]
    rfl

/-! ## The report of a click -/

/-- The next step sends the report of a click, or shows it when there is no host. -/
def ReportsClick (t : Terminal L S) (click : Click) : Prop :=
  ∃ t' o, t.step = .ok (true, t') ∧ t.observe [.step] = .ok o ∧
    t'.engine.channel.pending = none ∧
    o.writes = (if t.engine.channel.remote then [Text.utf8 (Reply.clickReport click)] else []) ∧
    (t.engine.channel.remote = false →
      t'.engine.screen = t.engine.screen.putBytes (Text.utf8 (Reply.clickReport click)))

/-- A terminal that waits for a click reports one that has come. -/
theorem reportsClick_of_awaiting {click : Click} (hwait : t.engine.isAwaitingClick = true)
    (hclick : (Surface.takeClick t.engine.surface).1 = some click) : t.ReportsClick click := by
  have htakes : t.takesClick = true := by
    unfold takesClick Engine.pollClick
    rw [if_pos hwait]
    split
    · next hnone =>
      rw [hnone] at hclick
      cases hclick
    · rfl
  obtain ⟨ring, hpop⟩ := pop?_pollClick_of_true htakes
  have hopens : t.OpensGate := by
    refine ⟨?_, .inr (eq_of_beq hwait)⟩
    rw [nextByte?, hpop]
    rfl
  have hdue : t.due = some (Reply.clickReport click) := by
    rw [due, Engine.clickMoves, if_pos hwait, hclick]
    rfl
  exact t.obeysGate.sends hopens _ hdue

/-- A terminal that waits for nothing reports no click. -/
theorem not_reportsClick_of_idle {click : Click} (hempty : t.ring.toList = [])
    (hwait : t.engine.isAwaitingClick = false) : ¬ t.ReportsClick click := by
  rintro ⟨t', o, hstep, -⟩
  have hstill : t.engine.Still := if_neg (Bool.eq_false_iff.1 hwait)
  have hring : t.pollClick.ring.pop? = none := by
    rw [ring_pollClick_of_false (congrArg Prod.fst hstill), Ring.pop?_eq_none_iff]
    exact hempty
  simp only [step, hring] at hstep
  cases hstep

/-! ## How long a wait lasts -/

variable {bytes : List UInt8}

/-- Without a click all bytes are handed over, and the parser takes them. -/
theorem parser_of_feed (hempty : t.ring.toList = [])
    (hclicks : ∀ s ∈ t.feedTurns bytes, s.takesClick = false)
    (hquery : Action.status (some 4) ∉ (t.engine.parser.feed (Byte.unasked bytes)).1)
    (h : t.feed bytes = .ok t') :
    t'.engine.parser = (t.engine.parser.feed (Byte.unasked bytes)).2 := by
  have haccounts := accounts_of_feed hempty h
  have hnone : losses (t.feedTurns bytes) = 0 := by
    rw [losses, List.countP_eq_zero]
    intro s hs
    rw [losesByte, hclicks s hs, Bool.false_and]
    exact Bool.false_ne_true
  have hdelivered : delivered (t.feedTurns bytes) = bytes := by
    have hlength := haccounts.length
    rw [hnone] at hlength
    exact haccounts.sublist.eq_of_length hlength
  rw [parser_of_feedTurns h, foldl_parserAfter hclicks, hdelivered]
  exact Parser.foldl_next fun action haction heq => hquery (heq ▸ haction)

/-- A terminal that waits for a click takes any other byte than an escape byte, and goes on
waiting. -/
theorem step_of_awaiting (hwait : t.engine.parser.phase = .awaitClick)
    (hclick : t.takesClick = false) (hring : Byte.esc ∉ t.ring.toList) :
    ∃ more t', t.step = .ok (more, t') ∧ t'.engine.parser.phase = .awaitClick ∧
      Byte.esc ∉ t'.ring.toList := by
  cases hstep : t.step with
  | error fault =>
    obtain ⟨count, hrequested, -⟩ := (step_eq_error_iff t fault).1 hstep
    unfold requested? Engine.requested? at hrequested
    rw [parser_pollClick_of_takesClick hclick] at hrequested
    split at hrequested
    · cases hrequested
    · split at hrequested
      · cases hrequested
      · exact absurd hrequested (Parser.advance_ne_control hwait _)
  | ok stepped =>
    obtain ⟨more, t'⟩ := stepped
    have hhanded := (accounts_of_step hstep).handed
    rw [losesByte, hclick, Bool.false_and, if_neg Bool.false_ne_true] at hhanded
    rw [← hhanded, List.mem_append, not_or] at hring
    refine ⟨more, t', rfl, ?_, hring.2⟩
    rw [parser_of_step hstep, parserAfter, hclick, if_neg Bool.false_ne_true]
    exact Parser.phase_foldl_next hwait fun hesc => hring.1 (List.mem_of_mem_filter hesc)

theorem runUntilIdle_of_awaiting (hwait : t.engine.parser.phase = .awaitClick)
    (hclicks : ∀ s ∈ t.turns, s.takesClick = false) (hring : Byte.esc ∉ t.ring.toList) :
    ∃ t', t.runUntilIdle = .ok t' ∧ t'.engine.parser.phase = .awaitClick := by
  fun_induction turns t with
  | case1 t next hstep ih =>
    obtain ⟨more, t', hstepped, hwaits, hfree⟩ :=
      step_of_awaiting hwait (hclicks t (.head _)) hring
    rw [hstep] at hstepped
    cases hstepped
    rw [runUntilIdle_of_more hstep]
    exact ih hwaits (fun s hs => hclicks s (.tail t hs)) hfree
  | case2 t hlast =>
    obtain ⟨more, t', hstepped, hwaits, -⟩ :=
      step_of_awaiting hwait (hclicks t (List.mem_singleton_self t)) hring
    cases more with
    | true => exact absurd hstepped (hlast t')
    | false => exact ⟨t', runUntilIdle_of_idle hstepped, hwaits⟩

/-- A terminal that waits for a click takes bytes without an escape byte. -/
theorem exists_feed_of_awaiting (hempty : t.ring.toList = [])
    (hwait : t.engine.parser.phase = .awaitClick)
    (hclicks : ∀ s ∈ t.feedTurns bytes, s.takesClick = false) (hbytes : Byte.esc ∉ bytes) :
    ∃ t', t.feed bytes = .ok t' := by
  fun_induction feedTurns t bytes with
  | case1 t =>
    have hring : Byte.esc ∉ t.ring.toList := by
      rw [hempty]
      exact List.not_mem_nil
    obtain ⟨t', hidle, -⟩ := runUntilIdle_of_awaiting hwait hclicks hring
    rw [feed]
    exact ⟨t', hidle⟩
  | case2 t b rest count filled ih =>
    have hfits : ((b :: rest).take count).length ≤ t.ring.free := by
      have hroom := Ring.one_le_free hempty
      simp only [count, slice, List.length_take]
      omega
    have hfilled : filled.ring.toList = (b :: rest).take count := by
      have hextended := (Ring.extend_of_le_free hfits).1
      rw [hempty] at hextended
      exact hextended
    have hring : Byte.esc ∉ filled.ring.toList := by
      rw [hfilled]
      exact fun hesc => hbytes (List.mem_of_mem_take hesc)
    obtain ⟨idle, hslice, hwaits⟩ := runUntilIdle_of_awaiting (t := filled) hwait
      (fun s hs => hclicks s (List.mem_append_left _ hs)) hring
    have hlater : ∀ s ∈ idle.feedTurns ((b :: rest).drop count), s.takesClick = false := by
      intro s hs
      refine hclicks s (List.mem_append_right _ ?_)
      rw [hslice]
      exact hs
    obtain ⟨t', hrest⟩ := ih idle (accounts_of_runUntilIdle hslice).empty hwaits hlater
      fun hesc => hbytes (List.mem_of_mem_drop hesc)
    refine ⟨t', ?_⟩
    rw [feed]
    exact (congrArg (· >>= _) hslice).trans hrest

/-- A wait for a click lasts exactly as long as no escape byte comes, and then a click is
reported, whatever sequences the bytes hold. -/
theorem awaitsClick_feed_iff (hempty : t.ring.toList = [])
    (hwait : t.engine.isAwaitingClick = true)
    (hclicks : ∀ s ∈ t.feedTurns bytes, s.takesClick = false)
    (hquery : Action.status (some 4) ∉ (t.engine.parser.feed (Byte.unasked bytes)).1) :
    (Byte.esc ∉ bytes → ∃ t', t.feed bytes = .ok t') ∧
      ∀ t', t.feed bytes = .ok t' →
        (t'.engine.isAwaitingClick = true ↔ Byte.esc ∉ bytes) ∧
        ∀ change click, (Surface.takeClick (change t'.engine.surface)).1 = some click →
          ((t'.changeSurface change).ReportsClick click ↔ Byte.esc ∉ bytes) := by
  have hphase : t.engine.parser.phase = .awaitClick := eq_of_beq hwait
  refine ⟨exists_feed_of_awaiting hempty hphase hclicks, fun t' hfeed => ?_⟩
  have hwaits : t'.engine.isAwaitingClick = true ↔ Byte.esc ∉ bytes := by
    have hunasked : Byte.esc ∈ Byte.unasked bytes ↔ Byte.esc ∈ bytes :=
      List.mem_filter.trans (and_iff_left (by decide))
    rw [Engine.isAwaitingClick, beq_iff_eq, parser_of_feed hempty hclicks hquery hfeed,
      Parser.phase_feed_awaitClick_iff hphase, hunasked]
  refine ⟨hwaits, fun change click hclick => ?_⟩
  rw [← hwaits]
  constructor
  · intro hreports
    by_contra hidle
    exact not_reportsClick_of_idle (t := t'.changeSurface change)
      (accounts_of_feed hempty hfeed).empty (Bool.eq_false_iff.2 hidle) hreports
  · exact fun hawaits => reportsClick_of_awaiting hawaits hclick

/-- The wait that a query began lasts when a letter comes, and a later click is reported. -/
theorem awaitsClick_feed_iff_recorded :
    ∃ t t', (recorded 8).feed [Byte.esc, 0x2A, 0x73, 0x34, 0x5E] = .ok t ∧
      t.feed [0x61] = .ok t' ∧ t'.engine.isAwaitingClick = true ∧
        (t'.changeSurface (·.addClick ⟨⟨12, 34⟩, Click.left⟩)).ReportsClick
          ⟨⟨12, 34⟩, Click.left⟩ := by
  have hfacts : ((recorded 8).feed [Byte.esc, 0x2A, 0x73, 0x34, 0x5E]).map (fun t =>
      (t.ring.toList, t.engine.isAwaitingClick,
        (t.feedTurns [0x61]).all (fun s => !s.takesClick),
        (t.engine.parser.feed (Byte.unasked [0x61])).1,
        (t.feed [0x61]).map fun t' =>
          (t'.engine.surface.addClick ⟨⟨12, 34⟩, Click.left⟩).nextClick.1)) =
      .ok ([], true, true, [.data 0x61], .ok (some ⟨⟨12, 34⟩, Click.left⟩)) := by
    cbv
  obtain ⟨t, hqueried, hseen⟩ := Fault.exists_of_map hfacts
  simp only [Prod.mk.injEq] at hseen
  obtain ⟨hempty, hwait, hclicks, hactions, hsurface⟩ := hseen
  have hnone : ∀ s ∈ t.feedTurns [0x61], s.takesClick = false := fun s hs =>
    Bool.not_eq_true' _ ▸ List.all_eq_true.1 hclicks s hs
  have hquery : Action.status (some 4) ∉ (t.engine.parser.feed (Byte.unasked [0x61])).1 := by
    rw [hactions]
    decide
  obtain ⟨t', hfeed, hclick⟩ := Fault.exists_of_map hsurface
  obtain ⟨hwaits, hreports⟩ := (awaitsClick_feed_iff hempty hwait hnone hquery).2 t' hfeed
  exact ⟨t, t', hqueried, hfeed, hwaits.2 (by decide), (hreports _ _ hclick).2 (by decide)⟩

/-- The sequence that takes the cursor home ends the wait, although it is complete and neither
a reset nor another query, and the click that follows is not reported. -/
theorem awaitsClick_lost_by_homeUp :
    ((recorded 8).feed [Byte.esc, 0x2A, 0x73, 0x34, 0x5E]).map
        (·.engine.isAwaitingClick) = .ok true ∧
      ((recorded 8).run [.feed [Byte.esc, 0x2A, 0x73, 0x34, 0x5E], .feed [Byte.esc, 0x48]]).map
        (·.engine.isAwaitingClick) = .ok false ∧
      ((recorded 8).run [.feed [Byte.esc, 0x2A, 0x73, 0x34, 0x5E], .feed [Byte.esc, 0x48],
          .surface (·.addClick ⟨⟨12, 34⟩, Click.left⟩), .settle]).map
        (fun t => (t.engine.channel.pending, t.engine.channel.link.sent)) =
          .ok (none, #[]) := by
  refine ⟨?_, ?_, ?_⟩
  · cbv
  · cbv
  · cbv

end Terminal

end GraphicsTerminal
