import GraphicsTerminal.Proofs.Protocol.CombinedBodies
import GraphicsTerminal.Proofs.Terminal.Memories

/-!
# Moments between operations

The operations of mode and display sequences change the picture, and of the screen only
whether its cursor is shown.  What an engine does when it is asked or comes to rest uses
the channel, which may write on the screen.  Neither sees the other, so they can be taken
in any order; and what is seen depends on the number of enquiries alone, unless
acknowledgements come at different times.

Main definitions:

- {lit}`Moment`, {lit}`Engine.attend`: an occasion to use the channel, and what is done.
- {lit}`Engine.operate`: the effect of a mode or display sequence.
- {lit}`Engine.LooksLike`: two engines that differ in what is not seen.

Main results:

- Theorem {lit}`Engine.looksLike_of_moments`: the same number of enquiries shows the same.
- Theorem {lit}`Engine.attend_foldl_operate`: moments and operations commute.
- Theorem {lit}`Engine.LooksLike.operate`: operations do the same to engines that look alike.
-/

namespace GraphicsTerminal

/-! ## The cursor is shown or hidden -/

namespace Screen

/-- Show the cursor, or hide it. -/
def showCursor (on : Bool) (s : Screen) : Screen :=
  s.modifyModes fun m => { m with cursorVisible := on }

/-- A line feed does not look at whether the cursor is shown. -/
theorem lineFeed_showCursor (on : Bool) (s : Screen) :
    (s.showCursor on).lineFeed = s.lineFeed.showCursor on := by
  simp only [lineFeed, apply_ite (showCursor on)]
  rfl

/-- The step after a character does not look at whether the cursor is shown. -/
theorem stepRight_showCursor (on : Bool) (s : Screen) :
    (s.showCursor on).stepRight = s.stepRight.showCursor on := by
  simp only [stepRight, apply_ite (showCursor on), ← lineFeed_showCursor]
  rfl

/-- A tab does not look at whether the cursor is shown. -/
theorem horizontalTab_showCursor (on : Bool) (s : Screen) :
    (s.showCursor on).horizontalTab = s.horizontalTab.showCursor on := by
  simp only [horizontalTab]
  split_ifs with hinsert hshown
  · rfl
  · exact absurd hinsert hshown
  · exact absurd ‹_› hinsert
  · rfl

/-- A character is stored alike whether the cursor is shown or not. -/
theorem print_showCursor (on : Bool) (s : Screen) (b : UInt8) :
    (s.showCursor on).print b = (s.print b).showCursor on := by
  have hput (s : Screen) : ((s.showCursor on).putCell (.written b s.cursor.style)).stepRight =
      ((s.putCell (.written b s.cursor.style)).stepRight).showCursor on :=
    stepRight_showCursor on (s.putCell (.written b s.cursor.style))
  simp only [print]
  split_ifs with hinsert hshown
  · exact hput (s.openGap 1)
  · exact absurd hinsert hshown
  · exact absurd ‹_› hinsert
  · exact hput s

/-- A byte is shown alike whether the cursor is shown or not. -/
theorem putByte_showCursor (on : Bool) (s : Screen) (b : UInt8) :
    (s.showCursor on).putByte b = (s.putByte b).showCursor on := by
  simp only [putByte, apply_ite (showCursor on), ← horizontalTab_showCursor,
    ← print_showCursor, ← lineFeed_showCursor]
  rfl

theorem putBytes_showCursor (on : Bool) (s : Screen) (bytes : List UInt8) :
    (s.showCursor on).putBytes bytes = (s.putBytes bytes).showCursor on :=
  List.foldl_hom (showCursor on) fun s b => putByte_showCursor on s b

end Screen

/-! ## Moments -/

/-- An occasion on which an engine uses its channel by itself. -/
inductive Moment where
  /-- An enquiry is answered. -/
  | ask
  /-- No input is left. -/
  | rest
deriving DecidableEq, Repr

namespace Channel

variable {L : Type} [HostLink L]

/-- What a channel writes on the screen is written alike whether the cursor is shown or not. -/
theorem sendBytes_showCursor (on : Bool) (c : Channel L) (screen : Screen)
    (bytes : List UInt8) :
    c.sendBytes (screen.showCursor on) bytes =
      ((c.sendBytes screen bytes).1, (c.sendBytes screen bytes).2.showCursor on) := by
  unfold sendBytes
  split
  · split
    · rfl
    · exact congrArg (Prod.mk _) (screen.putBytes_showCursor on _)
  · exact congrArg (Prod.mk c) (screen.putBytes_showCursor on bytes)

/-- What is done in a moment. -/
def attend (settings : Settings) (c : Channel L) (screen : Screen) :
    Moment → Channel L × Screen
  | .ask =>
    if settings.enqAck then (c.queueAck, screen)
    else c.sendText screen (Reply.answerback settings.answerback)
  | .rest => c.flushAck screen

/-- A moment does the same to the channel, and to the screen, whether the cursor is shown or
not. -/
theorem attend_showCursor (settings : Settings) (on : Bool) (c : Channel L) (screen : Screen)
    (m : Moment) :
    c.attend settings (screen.showCursor on) m =
      ((c.attend settings screen m).1, (c.attend settings screen m).2.showCursor on) := by
  cases m with
  | ask =>
    simp only [attend]
    split
    · rfl
    · exact sendBytes_showCursor on c screen _
  | rest =>
    simp only [attend, flushAck]
    split
    · exact sendBytes_showCursor on { c with ackPending := false } screen [Byte.ack]
    · rfl

end Channel

namespace Engine

variable {L S : Type}

/-- A report changes the channel and the events alone. -/
theorem reportLoss_eq (e : Engine L S) :
    e.reportLoss =
      { e with
        channel := { e.channel with lost := none }
        events := e.channel.lost.elim e.events fun reason =>
          e.events.push (.linkLost reason) } := by
  unfold reportLoss Channel.takeLoss report
  cases e.channel.lost with
  | none => rfl
  | some reason => rfl

variable [HostLink L]

/-- The engine after a moment. -/
def attend (e : Engine L S) (m : Moment) : Engine L S :=
  (e.useChannel fun c screen => c.attend e.settings screen m).reportLoss

/-- An enquiry is a moment. -/
theorem attend_ask (e : Engine L S) : e.answerEnquiry.reportLoss = e.attend .ask := by
  simp only [answerEnquiry, attend, sendText, useChannel, Channel.attend]
  split <;> rfl

/-- When no input is left, that is a moment. -/
theorem attend_rest (e : Engine L S) : e.idle = e.attend .rest := rfl

/-- A moment changes the channel, the screen and the events alone, and does not depend on
the picture. -/
theorem attend_eq (e : Engine L S) (m : Moment) :
    e.attend m =
      { e with
        channel := { (e.channel.attend e.settings e.screen m).1 with lost := none }
        screen := (e.channel.attend e.settings e.screen m).2
        events := (e.channel.attend e.settings e.screen m).1.lost.elim e.events fun reason =>
          e.events.push (.linkLost reason) } := reportLoss_eq _

/-! ## Engines that look alike -/

/-- What is seen of an engine, in front of what another one keeps to itself. -/
def backedBy (e other : Engine L S) : Engine L S :=
  { e with parser := other.parser, channel := other.channel, events := other.events }

/-- Two engines of which the same is seen. -/
def LooksLike (e e' : Engine L S) : Prop := e' = e.backedBy e'

/-! ### The same number of enquiries -/

/-- Of what is seen, moments change the screen alone. -/
theorem foldl_attend_eq (e : Engine L S) (moments : List Moment) :
    moments.foldl attend e =
      { e with screen := (moments.foldl attend e).screen }.backedBy (moments.foldl attend e) := by
  induction moments generalizing e with
  | nil => rfl
  | cons m moments ih =>
    rw [List.foldl_cons]
    refine (ih (e.attend m)).trans ?_
    rw [attend_eq]
    rfl

/-- An engine at rest, with nothing to tell, does nothing when no input is left. -/
theorem attend_rest_of_rested {e : Engine L S} (hlost : e.channel.lost = none)
    (hack : e.channel.ackPending = false) : e.attend .rest = e := idle_of_none hlost hack

/-- Coming to rest once is enough. -/
theorem attend_rest_of_rests {moments : List Moment} (h : ∀ m ∈ moments, m = .rest)
    (e : Engine L S) : (moments.foldl attend e).attend .rest = e.attend .rest := by
  induction moments generalizing e with
  | nil => rfl
  | cons m moments ih =>
    obtain ⟨rfl, hrests⟩ := List.forall_mem_cons.1 h
    have hsent : (e.attend .rest).channel.ackPending = false := by
      rw [attend_eq]
      simp only [Channel.attend, Channel.flushAck]
      split
      · exact Channel.ackPending_sendBytes _ _ _
      · exact Bool.eq_false_iff.2 ‹_›
    rw [List.foldl_cons, ih hrests]
    exact attend_rest_of_rested (lost_reportLoss _) hsent

/-- Answerbacks go out at once, so only the enquiries count. -/
theorem foldl_attend_answered {e : Engine L S} (hanswered : e.settings.enqAck = false)
    (hlost : e.channel.lost = none) (hack : e.channel.ackPending = false)
    (moments : List Moment) :
    moments.foldl attend e = (List.replicate (moments.count .ask) .ask).foldl attend e := by
  induction moments generalizing e with
  | nil => rfl
  | cons m moments ih =>
    cases m with
    | rest =>
      rw [List.foldl_cons, attend_rest_of_rested hlost hack, ih hanswered hlost hack]
      rfl
    | ask =>
      have hnext : (e.attend .ask).channel.ackPending = false := by
        rw [attend_eq]
        simp only [Channel.attend, hanswered]
        exact (Channel.ackPending_sendBytes _ _ _).trans hack
      have hsettings : (e.attend .ask).settings.enqAck = false := by
        rw [attend_eq]
        exact hanswered
      rw [List.count_cons_self, List.replicate_succ, List.foldl_cons, List.foldl_cons,
        ih hsettings (lost_reportLoss _) hnext]

/-- A connected channel does not write to the screen. -/
theorem screen_foldl_attend {e : Engine L S} (h : e.channel.Connected) (moments : List Moment) :
    (moments.foldl attend e).screen = e.screen := by
  induction moments generalizing e with
  | nil => rfl
  | cons m moments ih =>
    have hattended : (e.channel.attend e.settings e.screen m).1.Connected ∧
        (e.channel.attend e.settings e.screen m).2 = e.screen := by
      cases m with
      | ask =>
        simp only [Channel.attend]
        split
        · exact ⟨{ h with }, rfl⟩
        · exact h.sendBytes _ _
      | rest =>
        simp only [Channel.attend, Channel.flushAck]
        split
        · exact Channel.Connected.sendBytes (c := { e.channel with ackPending := false })
            { h with } _ _
        · exact ⟨h, rfl⟩
    rw [List.foldl_cons, ih ?_]
    · rw [attend_eq]
      exact hattended.2
    · rw [attend_eq]
      exact { hattended.1 with lost := rfl }

/-- At rest after the same number of enquiries engines look alike: if there are none, if
each one is answered at once, or if the channel is connected. -/
theorem looksLike_of_moments {e : Engine L S} {moments moments' : List Moment}
    (hlost : e.channel.lost = none) (hcount : moments.count .ask = moments'.count .ask)
    (h : moments.count .ask = 0 ∨
      (e.settings.enqAck = false ∧ e.channel.ackPending = false) ∨ e.channel.Connected) :
    LooksLike ((moments.foldl attend e).attend .rest)
      ((moments'.foldl attend e).attend .rest) := by
  have hfolded (moments : List Moment) :
      (moments.foldl attend e).attend .rest = (moments ++ [Moment.rest]).foldl attend e := by
    rw [List.foldl_append]
    rfl
  have hscreen : ((moments.foldl attend e).attend .rest).screen =
      ((moments'.foldl attend e).attend .rest).screen := by
    rcases h with hnone | ⟨hanswered, hack⟩ | hconnected
    · have hrests {moments : List Moment} (h : moments.count .ask = 0) :
          ∀ m ∈ moments, m = .rest := by
        intro m hm
        cases m with
        | rest => rfl
        | ask => exact absurd hm (List.count_eq_zero.1 h)
      rw [attend_rest_of_rests (hrests hnone),
        attend_rest_of_rests (hrests (hcount.symm.trans hnone))]
    · rw [hfolded, hfolded, foldl_attend_answered hanswered hlost hack,
        foldl_attend_answered hanswered hlost hack (moments' ++ _), List.count_append,
        List.count_append, hcount]
    · rw [hfolded, hfolded, screen_foldl_attend hconnected, screen_foldl_attend hconnected]
  have hleft := foldl_attend_eq e (moments ++ [Moment.rest])
  have hright := foldl_attend_eq e (moments' ++ [Moment.rest])
  rw [← hfolded] at hleft hright
  rw [← hscreen] at hright
  unfold LooksLike
  rw [hleft]
  exact hright

end Engine

/-! ## Operations -/

/-- An action of the mode or display group. -/
inductive Action.IsOperation : Action → Prop
  | drawing (ops : List ModeOp) : IsOperation (.drawing ops)
  | display (ops : List DisplayOp) : IsOperation (.display ops)

/-- Actions that join are operations, and so is the whole. -/
theorem Action.Joins.isOperation {first second joined : Action} (h : Joins first second joined) :
    first.IsOperation ∧ second.IsOperation ∧ joined.IsOperation := by
  cases h with
  | drawing ops ops' => exact ⟨.drawing _, .drawing _, .drawing _⟩
  | display ops ops' => exact ⟨.display _, .display _, .display _⟩

namespace Engine

variable {L S : Type} [Surface S]

/-- The effect of a mode or display sequence. -/
def operate (e : Engine L S) : Action → Engine L S
  | .drawing ops => ops.foldl applyMode e
  | .display ops => ops.foldl applyDisplay e
  | _ => e

/-- A mode or display sequence is never refused. -/
theorem apply_of_isOperation [HostLink L] {action : Action} (h : action.IsOperation)
    (e : Engine L S) : e.apply action = .ok (e.operate action) := by
  cases h with
  | drawing ops => rfl
  | display ops => rfl

/-- The whole sequence does what its parts do one after the other. -/
theorem operate_of_joins {first second joined : Action} (h : Action.Joins first second joined)
    (e : Engine L S) : e.operate joined = (e.operate first).operate second := by
  cases h with
  | drawing ops ops' => exact List.foldl_append
  | display ops ops' => exact List.foldl_append

/-- What commutes with each operation commutes with mode and display sequences. -/
theorem operate_hom {f : Engine L S → Engine L S}
    (hmode : ∀ e op, applyMode (f e) op = f (applyMode e op))
    (hdisplay : ∀ e op, applyDisplay (f e) op = f (applyDisplay e op)) (e : Engine L S)
    (action : Action) : (f e).operate action = f (e.operate action) := by
  cases action with
  | drawing ops => exact List.foldl_hom f hmode
  | display ops => exact List.foldl_hom f hdisplay
  | _ => rfl

/-- An operation does not look at the parser. -/
theorem operate_withParser (e : Engine L S) (p : Parser) (action : Action) :
    { e with parser := p }.operate action = { e.operate action with parser := p } := by
  refine operate_hom (f := fun e => { e with parser := p }) (fun e op => ?_) (fun e op => ?_) e _
  · cases op with
    | _ => rfl
  · cases op with
    | _ => rfl

/-- Operations do not look at the parser. -/
theorem foldl_operate_withParser (e : Engine L S) (p : Parser) (actions : List Action) :
    actions.foldl operate { e with parser := p } =
      { actions.foldl operate e with parser := p } :=
  List.foldl_hom (fun e : Engine L S => { e with parser := p }) fun e action =>
    operate_withParser e p action

/-! ### Moments between operations -/

section

variable [HostLink L]

/-- A moment and an operation can be taken in either order. -/
theorem attend_operate (m : Moment) (e : Engine L S) (action : Action) :
    (e.attend m).operate action = (e.operate action).attend m := by
  refine operate_hom (f := fun e => e.attend m) (fun e op => ?_) (fun e op => ?_) e action
  · rw [attend_eq, attend_eq]
    cases op with
    | _ => rfl
  · rw [attend_eq, attend_eq]
    cases op with
    | alphaCursorVisible on =>
      have hshown := e.channel.attend_showCursor e.settings on e.screen m
      simp only [applyDisplay, modifyScreen, Screen.showCursor] at hshown ⊢
      rw [hshown]
    | _ => rfl

/-- Moments and operations can be taken in any order. -/
theorem attend_foldl_operate (m : Moment) (e : Engine L S) (actions : List Action) :
    (actions.foldl operate e).attend m = actions.foldl operate (e.attend m) :=
  (List.foldl_hom (fun e : Engine L S => e.attend m) (attend_operate m)).symm

end

/-! ### Operations of engines that look alike -/

/-- An operation acts on what is seen alone. -/
theorem operate_backedBy (e other : Engine L S) (action : Action) :
    (e.backedBy other).operate action = (e.operate action).backedBy other := by
  refine operate_hom (f := fun e => e.backedBy other) (fun e op => ?_) (fun e op => ?_) e action
  · cases op with
    | _ => rfl
  · cases op with
    | _ => rfl

/-- An operation does not use the channel. -/
theorem channel_operate (e : Engine L S) (action : Action) :
    (e.operate action).channel = e.channel := by
  have hsame := congrArg Engine.channel (operate_backedBy e e action)
  exact hsame

/-- Operations do the same to engines that look alike. -/
theorem LooksLike.operate {e e' : Engine L S} (h : LooksLike e e') (action : Action) :
    LooksLike (e.operate action) (e'.operate action) := by
  have hkept := operate_backedBy e' e' action
  calc
    e'.operate action = (e.backedBy e').operate action := congrArg (fun e => e.operate action) h
    _ = (e.operate action).backedBy e' := operate_backedBy e e' action
    _ = (e.operate action).backedBy ((e'.operate action).backedBy e') := rfl
    _ = (e.operate action).backedBy (e'.operate action) :=
      congrArg (e.operate action).backedBy hkept.symm

end Engine

end GraphicsTerminal
