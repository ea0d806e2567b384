import GraphicsTerminal.Proofs.Protocol.Units
import GraphicsTerminal.Proofs.Terminal.Memories
import GraphicsTerminal.Proofs.Terminal.Refusal

/-!
# Independence of the two memories

A unit that only draws can be inserted between any two units of a stream without a trace
on the screen, and a unit that does not draw without a trace in the picture.  The terminal
has to be remote over a link that accepts every write, and its surface may not report a
click.  One slip limits this: an insertion of blanks that is refused ends the session, and
whether it is refused depends on what was written before.

Main results:

- Theorem {lit}`Engine.screen_of_inserted`: a drawing unit leaves no trace on the screen.
- Theorem {lit}`Engine.picture_of_inserted`: a writing unit leaves none in the picture.
- Theorem {lit}`Terminal.observe_feeds_inserted`: both for streams in pieces, with the
  exact condition for the slip.
- Theorem {lit}`Terminal.fails_of_inserted`: a short stream that meets the slip.
-/

namespace GraphicsTerminal

namespace Engine

variable {L S : Type} [HostLink L] [Surface S] {e : Engine L S}

/-! ## Units through an engine -/

/-- A byte that completes a graphic action, or none, is taken, and only the picture
changes. -/
theorem receive_of_graphic (hlost : e.channel.lost = none) {b : UInt8} (hb : b ≠ Byte.enq)
    (hgraphic : ∀ action ∈ (e.parser.advance b).1, action.IsGraphic) :
    ∃ e', e.receive b = .ok e' ∧
      DrawsOnly { e with parser := (e.parser.advance b).2 } e' := by
  have happly (e : Engine L S) {action : Action} (h : action.IsGraphic) :
      ∃ e', e.apply action = .ok e' ∧ e.DrawsOnly e' := by
    cases action with
    | drawing ops => exact ⟨_, rfl, .foldl drawsOnly_applyMode e ops⟩
    | textPen pen => exact ⟨_, rfl, ⟨rfl⟩⟩
    | plot body => exact ⟨_, rfl, e.drawsOnly_drawPlot body⟩
    | graphicsText text => exact ⟨_, rfl, ⟨rfl⟩⟩
    | inert payload => exact ⟨e, rfl, ⟨rfl⟩⟩
    | _ => exact h.elim
  have hinterpret : ∃ e', e.interpret b = .ok e' ∧
      DrawsOnly { e with parser := (e.parser.advance b).2 } e' := by
    simp only [interpret]
    cases haction : (e.parser.advance b).1 with
    | none => exact ⟨_, rfl, ⟨rfl⟩⟩
    | some action => exact happly _ (hgraphic action haction)
  obtain ⟨e', hok, hdraws⟩ := hinterpret
  have hquiet : e'.channel.lost = none := by
    rw [hdraws.eq]
    exact hlost
  refine ⟨e', ?_, hdraws⟩
  rw [receive, if_neg hb, hok, Except.map, reportLoss_of_none hquiet]

/-- A byte string that completes graphic actions only is taken, and only the picture
changes. -/
theorem foldlM_of_graphic (hlost : e.channel.lost = none) {bytes : List UInt8}
    (hbytes : Byte.enq ∉ bytes)
    (hgraphic : ∀ action ∈ (e.parser.feed bytes).1, action.IsGraphic) :
    ∃ e', bytes.foldlM receive e = .ok e' ∧
      DrawsOnly { e with parser := (e.parser.feed bytes).2 } e' := by
  induction bytes generalizing e with
  | nil => exact ⟨e, rfl, ⟨rfl⟩⟩
  | cons b rest ih =>
    obtain ⟨hb, hrest⟩ := List.ne_and_not_mem_of_not_mem_cons hbytes
    obtain ⟨n, hn, hdraws⟩ := receive_of_graphic hlost (Ne.symm hb) fun action haction =>
      hgraphic action (List.mem_append_left _ (Option.mem_toList.2 haction))
    have hn' := hdraws.eq
    generalize n.surface = surface, n.graphics = graphics at hn'
    subst hn'
    have hlater := @ih { e with
      parser := (e.parser.advance b).2, surface := surface, graphics := graphics } hlost hrest
    obtain ⟨e', he', hdraws'⟩ := hlater fun action haction =>
      hgraphic action (List.mem_append_right _ haction)
    refine ⟨e', ?_, ⟨hdraws'.eq⟩⟩
    rw [List.foldlM_cons, hn]
    exact he'

/-- A byte string that completes silent actions only makes no call. -/
theorem draws_of_silent {e' : Engine L S} {bytes : List UInt8} (hbytes : Byte.enq ∉ bytes)
    (hsilent : ∀ action ∈ (e.parser.feed bytes).1, action.IsSilent)
    (h : bytes.foldlM receive e = .ok e') : e.Draws e' [] := by
  induction bytes generalizing e with
  | nil =>
    cases h
    exact ⟨rfl, rfl⟩
  | cons b rest ih =>
    obtain ⟨hb, hrest⟩ := List.ne_and_not_mem_of_not_mem_cons hbytes
    rw [List.foldlM_cons] at h
    rcases Fault.exists_of_bind h with ⟨n, hn, hlater⟩
    have hnow : ∀ action ∈ (e.parser.advance b).1, action.IsSilent := fun action haction =>
      hsilent action (List.mem_append_left _ (Option.mem_toList.2 haction))
    have hcalls : e.byteCalls b = [] := by
      rw [byteCalls, if_neg (Ne.symm hb)]
      cases haction : (e.parser.advance b).1 with
      | none => rfl
      | some action => exact hnow action haction e.graphics
    have hparser : n.parser = (e.parser.advance b).2 := by
      rw [parser_of_receive (Ne.symm hb) hn]
      exact if_neg fun hquery => (hnow _ hquery).ne_clickQuery rfl
    have hdraws := draws_of_receive hn
    rw [hcalls] at hdraws
    refine hdraws.trans (ih hrest ?_ hlater)
    rw [hparser]
    exact fun action haction => hsilent action (List.mem_append_right _ haction)

/-! ## The rest of a stream -/

/-- Bytes that do not begin with a line feed of a label are taken as if no label had
ended. -/
theorem foldlM_pastLabel {bytes : List UInt8} (hbytes : Byte.enq ∉ bytes)
    (hline : e.parser.swallowLineFeed = true → bytes.head? ≠ some Byte.lf) :
    Matches (fun n n' => n' = { n with parser := n'.parser }) (bytes.foldlM receive e)
      (bytes.foldlM receive { e with parser := e.parser.pastLabel }) := by
  cases bytes with
  | nil => exact .ok rfl
  | cons b rest =>
    obtain ⟨hb, -⟩ := List.ne_and_not_mem_of_not_mem_cons hbytes
    have hadvance : e.parser.pastLabel.advance b = e.parser.advance b :=
      Parser.advance_pastLabel fun hswallow heq => hline hswallow (congrArg some heq)
    have hreceive : receive { e with parser := e.parser.pastLabel } b = e.receive b := by
      rw [receive, receive, if_neg (Ne.symm hb), if_neg (Ne.symm hb), interpret, interpret]
      rw [hadvance]
    rw [List.foldlM_cons, List.foldlM_cons, hreceive]
    cases e.receive b >>= rest.foldlM receive with
    | error fault => exact .error fault
    | ok n => exact .ok rfl

section

variable {e' : Engine L S} {front back : List UInt8} (hfront : Byte.enq ∉ front)
  (h : front.foldlM receive e = .ok e') (hcut : e.parser.IsBetween front back)
include hfront h hcut

/-- Between two units the outlook of the parser is that of a new one. -/
theorem outlook_of_isBetween : e'.parser.pastLabel.outlook = Parser.initial := by
  rw [parser_of_foldlM hfront h]
  exact Parser.outlook_pastLabel hcut.outside

theorem line_of_isBetween : e'.parser.swallowLineFeed = true → back.head? ≠ some Byte.lf := by
  rw [parser_of_foldlM hfront h]
  exact hcut.line

end

/-! ## Insertions -/

section

variable {front inserted back : List UInt8} (hfront : Byte.enq ∉ front)
  (hinserted : Byte.enq ∉ inserted) (hback : Byte.enq ∉ back)
include hfront hinserted hback

/-- A drawing unit leaves no trace on the screen. -/
theorem screen_of_inserted (hcut : e.parser.IsBetween front back)
    (hconnected : e.channel.Connected) (hdrawing : IsDrawing inserted) :
    ((front ++ back).foldlM receive e).map screen =
      ((front ++ inserted ++ back).foldlM receive e).map screen := by
  have hself : SameText e e := ⟨rfl, rfl, rfl, hconnected, hconnected, rfl⟩
  have hstart := hself.foldlM hfront
  rw [List.foldlM_append, List.append_assoc, List.foldlM_append]
  cases hm : front.foldlM receive e with
  | error fault => rfl
  | ok m =>
    rw [hm] at hstart
    obtain ⟨_, ⟨⟩, hkept⟩ := hstart.of_ok
    have htakes := hdrawing.takes hcut.outside
    have hcut' := hcut.append htakes fun _ => Action.IsGraphic.ne_clickQuery
    rw [← parser_of_foldlM hfront hm] at htakes
    obtain ⟨n, hn, hdraws⟩ := foldlM_of_graphic hkept.connected.lost hinserted htakes.actions
    have hunseen : Byte.enq ∉ front ++ inserted := List.not_mem_append hfront hinserted
    have hboth : (front ++ inserted).foldlM receive e = .ok n := by
      rw [List.foldlM_append, hm]
      exact hn
    -- Both engines stand between two units, so their parsers have the same outlook.
    have hsame : SameText { m with parser := m.parser.pastLabel }
        { n with parser := n.parser.pastLabel } := by
      have houtlook : m.parser.pastLabel.outlook = n.parser.pastLabel.outlook := by
        rw [outlook_of_isBetween hfront hm hcut, outlook_of_isBetween hunseen hboth hcut']
      refine ⟨?_, ?_, ?_, hkept.connected, ?_, houtlook⟩
      · rw [hdraws.eq]
      · rw [hdraws.eq]
      · rw [hdraws.eq]
      · rw [hdraws.eq]
        exact hkept.connected
    have hpast := foldlM_pastLabel hback (line_of_isBetween hfront hm hcut)
    have hpast' := foldlM_pastLabel hback (line_of_isBetween hunseen hboth hcut')
    have hscreen {a b : Engine L S} (h : b = { a with parser := b.parser }) :
        a.screen = b.screen := by
      rw [h]
    calc (back.foldlM receive m).map screen
        = (back.foldlM receive { m with parser := m.parser.pastLabel }).map screen :=
          hpast.map_eq fun _ _ => hscreen
      _ = (back.foldlM receive { n with parser := n.parser.pastLabel }).map screen :=
          (hsame.foldlM hback).map_eq fun _ _ hnext => hnext.screen
      _ = (back.foldlM receive n).map screen :=
          (hpast'.map_eq fun _ _ => hscreen).symm
      _ = ((inserted ++ back).foldlM receive m).map screen := by
          rw [List.foldlM_append, hn]
          rfl

/-- A writing unit leaves no trace in the picture. -/
theorem picture_of_inserted {e x y : Engine L (LoggedSurface S)}
    (hcut : e.parser.IsBetween front back) (hwriting : IsWriting inserted)
    (hx : (front ++ back).foldlM receive e = .ok x)
    (hy : (front ++ inserted ++ back).foldlM receive e = .ok y) :
    x.graphics = y.graphics ∧ x.surface.calls = y.surface.calls := by
  have hunseen : Byte.enq ∉ front ++ inserted := List.not_mem_append hfront hinserted
  rw [List.foldlM_append] at hx hy
  obtain ⟨m, hm, hx⟩ := Fault.exists_of_bind hx
  obtain ⟨n, hboth, hy⟩ := Fault.exists_of_bind hy
  have hn : inserted.foldlM receive m = .ok n := by
    rw [List.foldlM_append, hm] at hboth
    exact hboth
  have htakes := hwriting.takes hcut.outside
  have hcut' := hcut.append htakes fun _ => Action.IsSilent.ne_clickQuery
  rw [← parser_of_foldlM hfront hm] at htakes
  have hdraws := draws_of_silent hinserted htakes.actions hn
  have hsame : SamePicture { m with parser := m.parser.pastLabel }
      { n with parser := n.parser.pastLabel } := by
    refine ⟨hdraws.graphics_eq.symm, congrArg LoggedSurface.calls hdraws.surface_eq.symm, ?_⟩
    change m.parser.pastLabel.outlook = n.parser.pastLabel.outlook
    rw [outlook_of_isBetween hfront hm hcut, outlook_of_isBetween hunseen hboth hcut']
  have hpast := foldlM_pastLabel hback (line_of_isBetween hfront hm hcut)
  have hpast' := foldlM_pastLabel hback (line_of_isBetween hunseen hboth hcut')
  rw [hx] at hpast
  rw [hy] at hpast'
  obtain ⟨x', hx', hsamex⟩ := hpast.of_ok
  obtain ⟨y', hy', hsamey⟩ := hpast'.of_ok
  have hend := hsame.of_foldlM hback hx' hy'
  rw [hsamex, hsamey] at hend
  exact ⟨hend.graphics, hend.calls⟩

end

end Engine

namespace Terminal

variable {L S : Type} [HostLink L] [Surface S]

/-- A run comes to an end exactly when no turn of it inserts a full row of blanks at the
first cell. -/
theorem exists_observe_iff (t : Terminal L S) (events : List (Event L S)) :
    (∃ o, t.observe events = .ok o) ↔ ∀ s ∈ t.runTurns events, ¬ s.InsertsAtFirstCell := by
  have hview := t.map_view_observe events
  have hrefused (fault : Fault) :
      t.run events = .error fault ↔ ∃ s ∈ t.runTurns events, s.step = .error fault :=
    run_eq_error_iff events
  simp only [step_eq_error_iff] at hrefused
  cases hobserve : t.observe events with
  | error fault =>
    rw [hobserve] at hview
    cases hrun : t.run events with
    | ok last =>
      rw [hrun] at hview
      cases hview
    | error refusal =>
      obtain ⟨s, hs, hinserts⟩ := (hrefused refusal).1 hrun
      constructor
      · rintro ⟨o, ho⟩
        cases ho
      · intro hnone
        exact absurd hinserts (hnone s hs)
  | ok o =>
    refine ⟨fun _ s hs hinserts => ?_, fun _ => ⟨o, rfl⟩⟩
    rw [hobserve, (hrefused .shiftBeforeMemory).2 ⟨s, hs, hinserts⟩] at hview
    cases hview

/-- The two memories do not interfere.  Between two units of a stream, a unit that draws
can be inserted without a trace on the screen; and one that does not draw without a trace
in the picture, exactly as long as no insertion of blanks is refused. -/
theorem observe_feeds_inserted {settings : Settings} {link : L} {surface : S}
    {tape : S → TapeSource} {events : List (Event L S)} {t : Terminal L S}
    (hrun : (start settings link surface tape).run events = .ok t)
    (hremote : t.engine.channel.remote = true) (hlink : HostLink.Reliable t.engine.channel.link)
    (hquiet : Surface.Quiet t.engine.tape t.engine.surface) (hroom : 0 < t.ring.free)
    {chunks chunks' : List (List UInt8)} (hchunks : chunks ≠ []) (hchunks' : chunks' ≠ [])
    {front inserted back : List UInt8}
    (hstream : (t.stream chunks).filter (· ≠ Byte.enq) = front ++ back)
    (hstream' : (t.stream chunks').filter (· ≠ Byte.enq) = front ++ inserted ++ back)
    (hcut : t.engine.parser.IsBetween front back) :
    (IsDrawing inserted →
      (t.observe (chunks.map .feed)).map (·.view.screen) =
        (t.observe (chunks'.map .feed)).map (·.view.screen)) ∧
    (IsWriting inserted →
      ((∃ o o', t.observe (chunks.map .feed) = .ok o ∧ t.observe (chunks'.map .feed) = .ok o' ∧
          o.view.graphics = o'.view.graphics ∧ o.calls = o'.calls) ↔
        ∀ s ∈ t.runTurns (chunks.map .feed) ++ t.runTurns (chunks'.map .feed),
          ¬ s.InsertsAtFirstCell)) := by
  have hlost := lost_of_run_start hrun
  have hack := ackPending_of_run_start hrun
  have hseen := observe_feeds_answered hremote hlost hlink hack hquiet hroom hchunks
  have hseen' := observe_feeds_answered hremote hlost hlink hack hquiet hroom hchunks'
  rw [hstream] at hseen
  rw [hstream'] at hseen'
  have hclean : Byte.enq ∉ front ++ inserted ++ back := by
    rw [← hstream']
    exact fun henq => of_decide_eq_true (List.mem_filter.1 henq).2 rfl
  simp only [List.mem_append, not_or] at hclean
  obtain ⟨⟨hfront, hinserted⟩, hback⟩ := hclean
  refine ⟨fun hdrawing => ?_, fun hwriting => ⟨?_, fun hnone => ?_⟩⟩
  · have hconnected : t.logged.engine.channel.Connected :=
      ⟨hremote, LoggedLink.reliable hlink, hlost⟩
    have hscreen (x : Except Fault (Engine (LoggedLink L) (LoggedSurface S))) :
        (x.map Engine.observation).map (·.view.screen) = x.map Engine.screen := by
      cases x with
      | error fault => rfl
      | ok e => rfl
    rw [hseen.map_eq fun _ _ h => congrArg View.screen h.view,
      hseen'.map_eq fun _ _ h => congrArg View.screen h.view, hscreen, hscreen]
    exact Engine.screen_of_inserted hfront hinserted hback hcut hconnected hdrawing
  · rintro ⟨o, o', ho, ho', -⟩ s hs
    rcases List.mem_append.1 hs with hs | hs
    · exact (exists_observe_iff t _).1 ⟨o, ho⟩ s hs
    · exact (exists_observe_iff t _).1 ⟨o', ho'⟩ s hs
  · obtain ⟨o, ho⟩ := (exists_observe_iff t _).2 fun s hs => hnone s (List.mem_append_left _ hs)
    obtain ⟨o', ho'⟩ := (exists_observe_iff t _).2 fun s hs => hnone s (List.mem_append_right _ hs)
    rw [ho] at hseen
    rw [ho'] at hseen'
    obtain ⟨_, hplain, henquired⟩ := hseen.of_ok
    obtain ⟨_, hplain', henquired'⟩ := hseen'.of_ok
    obtain ⟨x, hx, rfl⟩ := Fault.exists_of_map hplain
    obtain ⟨y, hy, rfl⟩ := Fault.exists_of_map hplain'
    obtain ⟨hgraphics, hcalls⟩ :=
      Engine.picture_of_inserted hfront hinserted hback hcut hwriting hx hy
    refine ⟨o, o', ho, ho', ?_, ?_⟩
    · rw [henquired.view, henquired'.view]
      exact hgraphics
    · rw [henquired.calls, henquired'.calls]
      exact hcalls

/-- A character, and a stroke to a point. -/
def letterAndStroke : List UInt8 :=
  [0x41, Byte.esc, 0x2A, 0x70, 0x66, 0x31, 0x2C, 0x32, 0x5A]

/-- A label before the stroke is not seen on the screen, and five blanks that are inserted
there are not seen in the picture. -/
theorem observe_feeds_inserted_recorded :
    ((recorded 8).observe [.feed letterAndStroke]).map (·.view.screen) =
        ((recorded 8).observe [.feed ([0x41] ++ [Byte.esc, 0x2A, 0x6C, 0x42, Byte.cr, Byte.lf] ++
          letterAndStroke.tail)]).map (·.view.screen) ∧
      ∃ o o', (recorded 8).observe [.feed letterAndStroke] = .ok o ∧
        (recorded 8).observe [.feed ([0x41] ++ [Byte.esc, 0x5B, 0x35, 0x40] ++
          letterAndStroke.tail)] = .ok o' ∧
        o.view.graphics = o'.view.graphics ∧ o.calls = o'.calls := by
  have hrun : (recorded 8).run [] = .ok (recorded 8) := rfl
  have hlink : HostLink.Reliable (recorded 8).engine.channel.link :=
    RecordingLink.reliable rfl rfl
  have hquiet : Surface.Quiet (recorded 8).engine.tape (recorded 8).engine.surface :=
    RecordingSurface.quiet .missing rfl
  have hroom : 0 < (recorded 8).ring.free := by decide
  have hcut : (recorded 8).engine.parser.IsBetween [0x41] letterAndStroke.tail :=
    ⟨Or.inl rfl, fun hswallow => Bool.noConfusion hswallow⟩
  have hlabel : IsDrawing [Byte.esc, 0x2A, 0x6C, 0x42, Byte.cr, Byte.lf] :=
    @IsDrawing.label [0x42] _ (by simp [Byte.cr, Byte.lf]) (Or.inr rfl)
  have hblanks : IsWriting [Byte.esc, 0x5B, 0x35, 0x40] :=
    @IsWriting.control [0x35] 0x40 (by simp [Parser.isFinal]) rfl
  have hends : ∀ events : List (Event RecordingLink RecordingSurface),
      ((recorded 8).observe events).map (fun _ => ()) = .ok () →
        ∀ s ∈ (recorded 8).runTurns events, ¬ s.InsertsAtFirstCell := by
    intro events hok
    obtain ⟨o, ho, -⟩ := Fault.exists_of_map hok
    exact (exists_observe_iff _ events).1 ⟨o, ho⟩
  have hplain : ((recorded 8).observe [.feed letterAndStroke]).map (fun _ => ()) = .ok () := by
    cbv
  have hinserts : ((recorded 8).observe [.feed ([0x41] ++ [Byte.esc, 0x5B, 0x35, 0x40] ++
      letterAndStroke.tail)]).map (fun _ => ()) = .ok () := by
    cbv
  refine ⟨?_, ?_⟩
  · exact (observe_feeds_inserted hrun rfl hlink hquiet hroom (List.cons_ne_nil _ [])
      (List.cons_ne_nil _ []) rfl rfl hcut).1 hlabel
  · refine ((observe_feeds_inserted hrun rfl hlink hquiet hroom (List.cons_ne_nil _ [])
      (List.cons_ne_nil _ []) rfl rfl hcut).2 hblanks).2 fun s hs => ?_
    rcases List.mem_append.1 hs with hs | hs
    · exact hends _ hplain s hs
    · exact hends _ hinserts s hs

/-- Eighty blanks that are inserted at the home position before a stroke make the session
fail, which comes to its end without them. -/
theorem fails_of_inserted :
    (recorded 8).run [.feed ([Byte.esc, 0x5B, 0x38, 0x30, 0x40] ++ letterAndStroke.tail)] =
        .error .shiftBeforeMemory ∧
      ((recorded 8).run [.feed letterAndStroke.tail]).map (·.engine.surface.calls) =
        .ok #[.screenSize 512 390, .moveTo ⟨1, 2⟩] := by
  constructor
  · cbv
  · cbv

end Terminal

end GraphicsTerminal
