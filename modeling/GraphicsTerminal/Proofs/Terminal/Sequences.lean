import GraphicsTerminal.Proofs.Engine.Drawing
import GraphicsTerminal.Proofs.Protocol.Framing
import GraphicsTerminal.Proofs.Terminal.Stream

/-!
# Sequences through a terminal

A terminal that is fed a sequence comes to the state that the parser and the calls of
the actions predict.  Polls do not get in the way: a sequence is opened by an escape
byte, and after that no click is waited for until an action begins a wait.

Main definitions:

- {lit}`Engine.Still`: a poll changes nothing.
- {lit}`Action.Calm`: an action that always succeeds and leaves the parser as it is.
- {lit}`Engine.Reached`: how far an engine has come with a stream.

Main results:

- Theorem {lit}`Engine.Reached.receive`: a byte takes the engine one step further.
- Theorem {lit}`Terminal.feed_sequence`: a stream that begins with an escape byte and
  asks for calm actions makes the calls of its actions.
- Theorem {lit}`Terminal.feed_framed`: a framed sequence makes the calls of its action.
-/

namespace GraphicsTerminal

namespace Parser

theorem phase_completeGraphics (p : Parser) (group : Option GraphicsGroup) :
    (p.completeGraphics group).2.phase ≠ .awaitClick := by
  rw [(completeGraphics_eq p group).2]
  split
  · exact Phase.noConfusion
  · exact Phase.noConfusion

/-- A byte does not begin a wait for a click; only an action can. -/
theorem phase_advance_ne {p : Parser} (h : p.phase ≠ .awaitClick) (b : UInt8) :
    (p.advance b).2.phase ≠ .awaitClick := by
  obtain ⟨phase, payload, text, swallow⟩ := p
  unfold advance
  dsimp only
  split
  · exact h
  · cases phase with
    | idle =>
      simp only [advanceIdle]
      split_ifs
      · exact Phase.noConfusion
      · exact h
      · exact h
      · exact h
    | awaitClick => exact absurd rfl h
    | inEscape =>
      simp only [advanceEscape]
      split <;> exact Phase.noConfusion
    | inBracket =>
      simp only [advanceBracket]
      split
      · exact Phase.noConfusion
      · exact h
    | inGraphics group =>
      simp only [advanceGraphics]
      split_ifs
      · exact Phase.noConfusion
      · exact Phase.noConfusion
      · exact phase_completeGraphics _ _
      · exact Phase.noConfusion
    | inDevice group =>
      simp only [advanceDevice]
      split
      · exact Phase.noConfusion
      · exact Phase.noConfusion
    | inCharset => exact Phase.noConfusion
    | graphicsText =>
      simp only [advanceText]
      split
      · rw [phase_takeText]
        exact Phase.noConfusion
      · exact h
    | graphicsLabel =>
      simp only [advanceLabel]
      split
      · rw [phase_takeText]
        exact Phase.noConfusion
      · exact h

end Parser

/-- In a stream without enquiries that completes certain actions only, no byte is an enquiry and
each byte completes one of these actions, if any. -/
theorem Terminal.AllowedAfter.of_feed {p : Parser} {asked : Action → Prop}
    {seen bytes : List UInt8} (henq : Byte.enq ∉ bytes)
    (h : ∀ action ∈ ((p.feed seen).2.feed bytes).1, asked action) :
    Terminal.AllowedAfter (fun seen b => b ≠ Byte.enq ∧
      ∀ action ∈ ((p.feed seen).2.advance b).1, asked action) seen bytes := by
  induction bytes generalizing seen with
  | nil => trivial
  | cons b rest ih =>
    obtain ⟨hne, hrest⟩ := List.ne_and_not_mem_of_not_mem_cons henq
    have htaken : (p.feed (seen ++ [b])).2 = ((p.feed seen).2.advance b).2 := by
      rw [Parser.feed_append, Parser.feed_singleton]
    rw [Parser.feed] at h
    refine ⟨⟨Ne.symm hne, fun action haction => h action ?_⟩,
      ih hrest fun action haction => h action ?_⟩
    · exact List.mem_append_left _ (Option.mem_toList.2 haction)
    · rw [htaken] at haction
      exact List.mem_append_right _ haction

/-- An action that succeeds on every engine and leaves the parser as it is. -/
def Action.Calm (L S : Type) [HostLink L] [Surface S] (action : Action) : Prop :=
  ∀ e : Engine L S, ∃ e', e.apply action = .ok e' ∧ e'.parser = e.parser

/-- A plot body is drawn as far as it goes, and never fails. -/
theorem Action.calm_plot (L S : Type) [HostLink L] [Surface S] (body : Payload) :
    (Action.plot body).Calm L S := by
  intro e
  refine ⟨_, rfl, ?_⟩
  unfold Engine.drawPlot
  induction (Plot.run body).1.calls generalizing e with
  | nil => rfl
  | cons call calls ih => exact ih (e.plotCall call)

/-- A recording surface that reports no click stays as it is. -/
theorem RecordingSurface.nextClick_of_none {surface : RecordingSurface}
    (h : surface.nextClick.1 = none) : surface.nextClick = (none, surface) := by
  unfold nextClick at h ⊢
  split at h
  · cases h
  · rfl

namespace Engine

variable {L S : Type} [Surface S] {e e' origin : Engine L S} {seen : List UInt8} {b : UInt8}

/-! ## Still engines -/

/-- A poll finds no click and changes nothing. -/
def Still (e : Engine L S) : Prop := e.pollClick = (false, e)

theorem still_of_phase (h : e.parser.phase ≠ .awaitClick) : e.Still := by
  have hwait : ¬ e.isAwaitingClick = true := by
    rw [isAwaitingClick, beq_iff_eq]
    exact h
  exact if_neg hwait

/-- A poll looks at the parser and the surface only. -/
theorem Still.congr (h : e.Still) (hparser : e'.parser = e.parser)
    (hsurface : e'.surface = e.surface) : e'.Still := by
  have hwait : e'.isAwaitingClick = e.isAwaitingClick := by
    rw [isAwaitingClick, isAwaitingClick, hparser]
  unfold Still pollClick at h ⊢
  rw [hwait, hsurface]
  split at h
  · rename_i hclick
    rw [if_pos hclick]
    split at h
    · rename_i surface htaken
      have hsame : surface = e.surface := congrArg Engine.surface (Prod.mk.inj h).2
      rw [hsame, ← hsurface]
    · cases h
  · rename_i hclick
    rw [if_neg hclick]

/-- An engine that finds no click on its recording surface is still. -/
theorem still_of_pollClick {e : Engine L RecordingSurface} (h : e.pollClick.1 = false) :
    e.Still := by
  unfold Still
  unfold pollClick at h ⊢
  split at h
  · rename_i hwait
    rw [if_pos hwait]
    split at h
    · rename_i surface htaken
      have hsame : Surface.takeClick e.surface = (none, e.surface) :=
        RecordingSurface.nextClick_of_none (congrArg Prod.fst htaken)
      obtain rfl : surface = e.surface := congrArg Prod.snd (htaken.symm.trans hsame)
      rfl
    · cases h
  · rename_i hwait
    rw [if_neg hwait]

/-! ## Streams of calm actions -/

/-- How far an engine has come with the bytes of a stream: the parser took them, and the
actions that they completed made their calls. -/
structure Reached (origin e : Engine L S) (seen : List UInt8) : Prop where
  parser_eq : e.parser = (origin.parser.feed seen).2
  draws : origin.Draws e (origin.graphics.callsOfAll Action.calls (origin.parser.feed seen).1)
  still : e.Still

theorem Reached.refl (h : origin.Still) : origin.Reached origin [] := ⟨rfl, ⟨rfl, rfl⟩, h⟩

variable [HostLink L]

/-- A byte that completes no other than a calm action, when certain bytes were taken
before. -/
structure Accepts (origin : Engine L S) (seen : List UInt8) (b : UInt8) : Prop where
  ne_enq : b ≠ Byte.enq
  calm : ∀ action ∈ ((origin.parser.feed seen).2.advance b).1, action.Calm L S
  phase_ne : ((origin.parser.feed seen).2.advance b).2.phase ≠ .awaitClick

omit [Surface S] in
theorem parser_idle (e : Engine L S) : e.idle.parser = e.parser := parser_reportLoss _

/-- A byte that completes a calm action, or none, is taken. -/
theorem interpret_of_calm (h : ∀ action ∈ (e.parser.advance b).1, action.Calm L S) :
    ∃ e', e.interpret b = .ok e' ∧ e'.parser = (e.parser.advance b).2 := by
  simp only [interpret]
  cases haction : (e.parser.advance b).1 with
  | none => exact ⟨{ e with parser := (e.parser.advance b).2 }, rfl, rfl⟩
  | some action => exact h action haction { e with parser := (e.parser.advance b).2 }

/-- A byte takes the engine one step further. -/
theorem Reached.receive (h : origin.Reached e seen) (hb : origin.Accepts seen b) :
    ∃ e', e.receive b = .ok e' ∧ origin.Reached e' (seen ++ [b]) := by
  have hcalm := hb.calm
  rw [← h.parser_eq] at hcalm
  obtain ⟨next, hnext, hparser⟩ := interpret_of_calm hcalm
  have hreceive : e.receive b = .ok next.reportLoss := by
    rw [Engine.receive, if_neg hb.ne_enq, hnext]
    rfl
  have hcalls : e.byteCalls b =
      e.graphics.callsOfAll Action.calls (e.parser.advance b).1.toList := by
    rw [byteCalls, if_neg hb.ne_enq]
    cases (e.parser.advance b).1 with
    | none => rfl
    | some action =>
      exact (GraphicsState.callsOfAll_singleton Action.calls e.graphics action).symm
  have hdraws := h.draws.trans (draws_of_receive hreceive)
  rw [hcalls, h.draws.graphics_eq, ← GraphicsState.callsOfAll_append, h.parser_eq] at hdraws
  have hphase : next.reportLoss.parser.phase ≠ .awaitClick := by
    rw [parser_reportLoss, hparser, h.parser_eq]
    exact hb.phase_ne
  refine ⟨_, hreceive, ?_, ?_, still_of_phase hphase⟩
  · rw [parser_reportLoss, hparser, h.parser_eq, Parser.feed_append, Parser.feed_singleton]
  · rw [Parser.feed_append, Parser.feed_singleton]
    exact hdraws

/-- An idle moment is not seen. -/
theorem Reached.idle (h : origin.Reached e seen) : origin.Reached e.idle seen where
  parser_eq := (parser_idle e).trans h.parser_eq
  draws := h.draws.keep (surface_idle e) (graphics_idle e)
  still := h.still.congr (parser_idle e) (surface_idle e)

/-- Inside a stream that completes calm actions only, every byte is accepted. -/
theorem accepts_all (hphase : (origin.parser.feed seen).2.phase ≠ .awaitClick)
    {bytes : List UInt8} (henq : Byte.enq ∉ bytes)
    (hcalm : ∀ action ∈ ((origin.parser.feed seen).2.feed bytes).1, action.Calm L S) :
    Terminal.AllowedAfter origin.Accepts seen bytes := by
  -- Each byte joins those before it; none begins a wait, so the phase condition goes on.
  induction bytes generalizing seen with
  | nil => trivial
  | cons b rest ih =>
    obtain ⟨hne, hrest⟩ := List.ne_and_not_mem_of_not_mem_cons henq
    have htaken : (origin.parser.feed (seen ++ [b])).2 =
        ((origin.parser.feed seen).2.advance b).2 := by
      rw [Parser.feed_append, Parser.feed_singleton]
    have hnext := Parser.phase_advance_ne hphase b
    rw [Parser.feed] at hcalm
    refine ⟨⟨Ne.symm hne, ?_, hnext⟩, ih ?_ hrest ?_⟩
    · exact fun action haction =>
        hcalm action (List.mem_append_left _ (Option.mem_toList.2 haction))
    · rw [htaken]
      exact hnext
    · rw [htaken]
      exact fun action haction => hcalm action (List.mem_append_right _ haction)

/-- A sequence is accepted from its escape byte on, even while a click is waited for. -/
theorem accepts_sequence
    (hphase : origin.parser.phase = .idle ∨ origin.parser.phase = .awaitClick)
    {bytes : List UInt8} (henq : Byte.enq ∉ bytes)
    (hcalm : ∀ action ∈ (origin.parser.feed (Byte.esc :: bytes)).1, action.Calm L S) :
    Terminal.AllowedAfter origin.Accepts [] (Byte.esc :: bytes) := by
  have hopened := Parser.advance_esc hphase
  have hinside : (origin.parser.feed [Byte.esc]).2.phase ≠ .awaitClick := by
    rw [Parser.feed_singleton, hopened]
    exact Phase.noConfusion
  refine ⟨⟨by decide, ?_, ?_⟩, accepts_all hinside henq ?_⟩
  · intro action haction
    rw [Parser.feed, hopened] at haction
    cases haction
  · rw [Parser.feed, hopened]
    exact Phase.noConfusion
  · intro action haction
    refine hcalm action ?_
    rw [← List.singleton_append, Parser.feed_append]
    exact List.mem_append_right _ haction

end Engine

namespace Terminal

variable {L S : Type} [HostLink L] [Surface S] {t : Terminal L S}

/-- A terminal follows the bytes of a stream as long as they are accepted. -/
theorem follows_accepted (origin : Engine L S) :
    Follows origin.Accepts (fun (_ : Unit) _ => pure ()) (fun seen e _ => origin.Reached e seen)
      (fun seen e _ => origin.Reached e seen) where
  busy_of_settled := fun h => h
  poll := by
    intro seen e _ h
    rw [h.still]
    exact ⟨rfl, h⟩
  receive := by
    intro seen e _ b hb h
    obtain ⟨e', hreceive, hreached⟩ := h.receive hb
    rw [hreceive]
    exact .ok hreached
  idle := fun h => h.idle

/-- A stream that begins with an escape byte and asks for calm actions is taken, and
makes the calls of its actions. -/
theorem feed_sequence (hring : t.ring.toList = [])
    (hphase : t.engine.parser.phase = .idle ∨ t.engine.parser.phase = .awaitClick)
    (hstill : t.engine.Still) {bytes : List UInt8} (henq : Byte.enq ∉ bytes)
    (hcalm : ∀ action ∈ (t.engine.parser.feed (Byte.esc :: bytes)).1, action.Calm L S) :
    ∃ t', t.feed (Byte.esc :: bytes) = .ok t' ∧ t'.ring.toList = [] ∧
      t.engine.Reached t'.engine (Byte.esc :: bytes) := by
  have hallowed := Engine.accepts_sequence hphase henq hcalm
  have hstart : t.engine.Reached t.engine [] := .refl hstill
  have hmatch := (follows_accepted t.engine).feed (m := ()) hring (Ring.one_le_free hring)
    hallowed hstart
  rw [List.nil_append, List.nil_append, List.foldlM_pure] at hmatch
  obtain ⟨t', hfeed, hempty, hreached⟩ := hmatch.ok_of_right
  exact ⟨t', hfeed, hempty, hreached⟩

/-- A framed sequence makes the calls of its action. -/
theorem feed_framed (hring : t.ring.toList = [])
    (hphase : t.engine.parser.phase = .idle ∨ t.engine.parser.phase = .awaitClick)
    (hstill : t.engine.Still) {bytes : List UInt8} {last : UInt8} {action : Action}
    {phase : Phase} (hframes : t.engine.parser.Frames bytes last action phase)
    (henq : Byte.enq ∉ bytes ++ [last]) (hcalm : action.Calm L S) :
    ∃ t', t.feed (Byte.esc :: (bytes ++ [last])) = .ok t' ∧ t'.ring.toList = [] ∧
      t'.engine.parser.phase = phase ∧
      t.engine.Draws t'.engine (action.calls t.engine.graphics) := by
  have hactions := hframes.feed_fst
  have hleaves := hframes.feed_phase
  rw [List.cons_append] at hactions hleaves
  obtain ⟨t', hfeed, hempty, hreached⟩ := feed_sequence hring hphase hstill henq (by
    rw [hactions]
    intro other hother
    rw [List.mem_singleton.1 hother]
    exact hcalm)
  have hdraws := hreached.draws
  rw [hactions, GraphicsState.callsOfAll_singleton] at hdraws
  exact ⟨t', hfeed, hempty, hreached.parser_eq ▸ hleaves, hdraws⟩

end Terminal

end GraphicsTerminal
