import Mathlib
import GraphicsTerminal.Protocol.Parser

/-!
# Framing of sequences

Inside a sequence the parser is known from the bytes that followed the escape
byte: they are its payload, and the first byte after the opening one selects the
group.  A byte that does not end the sequence extends them, and the byte that
ends it gives an action that depends on nothing else.  So the parser is back
outside of sequences after exactly one action, whatever came before.

Main definitions:

- {lit}`Parser.within`: the parser in a sequence.
- {lit}`Parser.Frames`: a byte string completes one action, with its last byte.

Main results:

- Theorem {lit}`Parser.feed_within`: bytes that do not end a sequence are
  collected.
- Theorems {lit}`Parser.frames_control`, {lit}`Parser.frames_device` and
  {lit}`Parser.frames_graphics`: the three kinds of sequences.
- Theorem {lit}`Parser.framing`: all of them.
- Theorem {lit}`Parser.Frames.feed_fst`: a framed byte string gives one action
  in all.
-/

namespace GraphicsTerminal

theorem Payload.ofList_push (bytes : List UInt8) (b : UInt8) :
    (ofList bytes).push b = ofList (bytes ++ [b]) := by
  simp [ofList, push]

/-- The body of a sequence begins behind the byte that names the group. -/
theorem Payload.rest_seek (opener group : UInt8) {body : List UInt8} (h : body ≠ []) :
    ((ofList (opener :: group :: body)).seek 2).rest = body := by
  have hlength := List.length_pos_of_ne_nil h
  have hinside : 2 < (ofList (opener :: group :: body)).bytes.size := by
    simp only [ofList, List.size_toArray, List.length_cons]
    omega
  rw [seek, if_pos hinside]
  rfl

/-- The bytes that an action without effect reports. -/
def Action.reported? : Action → Option (List UInt8)
  | .inert payload => some payload
  | .unrecognized payload => some payload
  | _ => none

namespace Parser

/-- The parser in a sequence, when the given bytes followed the escape byte. -/
def within (text : Array UInt8) (phase : Phase) (bytes : List UInt8) : Parser :=
  ⟨phase, Payload.ofList bytes, text, false⟩

/-- The action of a complete control sequence. -/
def controlAction (payload : Payload) : Action :=
  (ControlSequence.decode? payload).1.elim (.unrecognized payload.toList) .control

/-- After an escape byte, the bytes complete no action, and the last byte after
them completes one. -/
structure Frames (p : Parser) (bytes : List UInt8) (last : UInt8) (action : Action)
    (phase : Phase) : Prop where
  quiet : (p.feed (Byte.esc :: bytes)).1 = []
  completes : ((p.feed (Byte.esc :: bytes)).2.advance last).1 = some action
  leaves : ((p.feed (Byte.esc :: bytes)).2.advance last).2.phase = phase
  reports : ∀ payload ∈ action.reported?, payload = bytes ++ [last]

variable {p : Parser} {text : Array UInt8} {body : List UInt8} {last : UInt8}

/-- Handing a text over does not change the phase. -/
theorem phase_takeText (p : Parser) : p.takeText.2.phase = p.phase := by
  unfold takeText
  split
  · rfl
  · rfl

/-- A stream of one byte is that byte. -/
theorem feed_singleton (p : Parser) (b : UInt8) :
    p.feed [b] = ((p.advance b).1.toList, (p.advance b).2) := by
  simp only [feed, List.append_nil]

/-- A framed byte string gives one action in all. -/
theorem Frames.feed_fst {bytes : List UInt8} {action : Action} {phase : Phase}
    (h : p.Frames bytes last action phase) :
    (p.feed (Byte.esc :: bytes ++ [last])).1 = [action] := by
  rw [feed_append, h.quiet, feed_singleton, h.completes]
  rfl

/-- And it leads to its phase. -/
theorem Frames.feed_phase {bytes : List UInt8} {action : Action} {phase : Phase}
    (h : p.Frames bytes last action phase) :
    (p.feed (Byte.esc :: bytes ++ [last])).2.phase = phase := by
  rw [feed_append, feed_singleton]
  exact h.leaves

/-! ## Opening -/

/-- Outside of sequences an escape byte begins one, with no byte collected. -/
theorem advance_esc (h : p.phase = .idle ∨ p.phase = .awaitClick) :
    p.advance Byte.esc = (none, within p.text .inEscape []) := by
  have hline : (Byte.esc == Byte.lf) = false := rfl
  rcases h with hidle | hwait
  · simp [advance, hidle, hline, advanceIdle, beginEscape, within, Payload.ofList, Payload.empty]
  · simp [advance, hwait, hline, advanceIdle, beginEscape, within, Payload.ofList, Payload.empty]

/-- Outside of sequences a byte completes no action but its own. -/
theorem advance_outside (h : p.phase = .idle ∨ p.phase = .awaitClick) {b : UInt8} {action : Action}
    (haction : (p.advance b).1 = some action) :
    action = .handshake ∨ action = .bell ∨ action = .data b := by
  have hidle : ∀ q : Parser, (q.advanceIdle b).1 = some action →
      action = .handshake ∨ action = .bell ∨ action = .data b := by
    intro q hq
    unfold advanceIdle at hq
    split_ifs at hq
    · exact .inl (Option.some.inj hq).symm
    · exact .inr (.inl (Option.some.inj hq).symm)
    · exact .inr (.inr (Option.some.inj hq).symm)
  simp only [advance] at haction
  split at haction
  · cases haction
  · rcases h with hphase | hphase
    · rw [hphase] at haction
      exact hidle _ haction
    · rw [hphase] at haction
      exact hidle _ haction

/-- Between two units: outside of sequences and labels. -/
def AtBoundary (p : Parser) : Prop :=
  p.phase = .idle ∨ p.phase = .awaitClick ∨ p.phase = .graphicsText

/-- Between two units an escape byte begins a sequence, and hands over the text before
it. -/
theorem AtBoundary.advance_esc {p : Parser} (h : p.AtBoundary) :
    ∃ text, (p.advance Byte.esc).2 = within text .inEscape [] ∧
      ∀ action ∈ (p.advance Byte.esc).1, ∃ told, action = .graphicsText told := by
  have hidle (houtside : p.phase = .idle ∨ p.phase = .awaitClick) :
      ∃ text, (p.advance Byte.esc).2 = within text .inEscape [] ∧
        ∀ action ∈ (p.advance Byte.esc).1, ∃ told, action = .graphicsText told := by
    rw [Parser.advance_esc houtside]
    exact ⟨p.text, rfl, fun action h => (Option.not_mem_none action h).elim⟩
  rcases h with houtside | houtside | htext
  · exact hidle (.inl houtside)
  · exact hidle (.inr houtside)
  · have hadvanced : p.advance Byte.esc =
        { p.beginEscape with swallowLineFeed := false }.takeText := by
      have hline : (p.swallowLineFeed && Byte.esc == Byte.lf) = false := Bool.and_false _
      rw [advance, hline]
      simp only [htext]
      rfl
    rw [hadvanced, takeText]
    split
    · exact ⟨p.text, rfl, fun action h => (Option.not_mem_none action h).elim⟩
    · exact ⟨#[], rfl, fun action h => ⟨_, (Option.mem_some.1 h).symm⟩⟩

/-! ## Collecting -/

/-- Bytes that do not end a sequence are collected.  The phase is a function of
the bytes after the opening one. -/
theorem feed_within {opener : UInt8} (phaseOf : List UInt8 → Phase)
    (quiet : List UInt8 → UInt8 → Prop)
    (hstep : ∀ collected b, quiet collected b →
      (within text (phaseOf collected) (opener :: collected)).advance b =
        (none, within text (phaseOf (collected ++ [b])) (opener :: (collected ++ [b]))))
    (collected body : List UInt8)
    (hbody : ∀ front b back, body = front ++ b :: back → quiet (collected ++ front) b) :
    (within text (phaseOf collected) (opener :: collected)).feed body =
      ([], within text (phaseOf (collected ++ body)) (opener :: (collected ++ body))) := by
  -- The bytes collected so far determine the phase, so they vary in the induction.
  induction body generalizing collected with
  | nil => simp [feed]
  | cons b rest ih =>
    have hb : quiet collected b := by
      have hfirst := hbody [] b rest rfl
      rwa [List.append_nil] at hfirst
    have hrest : ∀ front c back, rest = front ++ c :: back →
        quiet (collected ++ [b] ++ front) c := by
      intro front c back heq
      rw [List.append_assoc]
      apply hbody ([b] ++ front) c back
      rw [heq]
      rfl
    simp only [feed, hstep collected b hb, ih (collected ++ [b]) hrest, Option.toList_none,
      List.nil_append, List.append_assoc, List.singleton_append]

/-- A sequence whose opening byte, body and end are understood is framed. -/
theorem frames_of {opener : UInt8} {action : Action} {phase : Phase}
    (phaseOf : List UInt8 → Phase) (quiet : List UInt8 → UInt8 → Prop)
    (hphase : p.phase = .idle ∨ p.phase = .awaitClick)
    (hopen : (within p.text .inEscape []).advance opener =
      (none, within p.text (phaseOf []) [opener]))
    (hstep : ∀ collected b, quiet collected b →
      (within p.text (phaseOf collected) (opener :: collected)).advance b =
        (none, within p.text (phaseOf (collected ++ [b])) (opener :: (collected ++ [b]))))
    (hbody : ∀ front b back, body = front ++ b :: back → quiet front b)
    (hlast : ((within p.text (phaseOf body) (opener :: body)).advance last).1 = some action ∧
      ((within p.text (phaseOf body) (opener :: body)).advance last).2.phase = phase)
    (hreports : ∀ payload ∈ action.reported?, payload = opener :: body ++ [last]) :
    p.Frames (opener :: body) last action phase := by
  have hcollected : p.feed (Byte.esc :: opener :: body) =
      ([], within p.text (phaseOf body) (opener :: body)) := by
    have hwithin := feed_within phaseOf quiet hstep [] body hbody
    rw [List.nil_append] at hwithin
    simp only [feed, advance_esc hphase, hopen, hwithin, Option.toList_none, List.nil_append]
  exact
    { quiet := by
        rw [hcollected]
      completes := by
        rw [hcollected]
        exact hlast.1
      leaves := by
        rw [hcollected]
        exact hlast.2
      reports := hreports }

/-! ## Control sequences -/

/-- A control sequence collects its bytes up to the final one, which completes it. -/
theorem advance_within_bracket (bytes : List UInt8) (b : UInt8) :
    (within text .inBracket bytes).advance b =
      if isFinal b then
        (some (controlAction (.ofList (bytes ++ [b]))), within text .idle (bytes ++ [b]))
      else (none, within text .inBracket (bytes ++ [b])) := by
  change (within text .inBracket bytes).advanceBracket b = _
  simp only [advanceBracket, within, collect, goto, Payload.ofList_push, controlAction]

/-- A control sequence without a meaning is reported with all its bytes. -/
theorem reported_controlAction (payload : Payload) :
    ∀ bytes ∈ (controlAction payload).reported?, bytes = payload.toList := by
  intro bytes hbytes
  unfold controlAction at hbytes
  cases hdecode : (ControlSequence.decode? payload).1 with
  | none =>
    rw [hdecode] at hbytes
    exact (Option.some.inj hbytes).symm
  | some command =>
    rw [hdecode] at hbytes
    cases hbytes

/-- A control sequence is framed by its final byte. -/
theorem frames_control (hphase : p.phase = .idle ∨ p.phase = .awaitClick)
    (hbody : ∀ b ∈ body, isFinal b = false) (hlast : isFinal last = true) :
    p.Frames (0x5B :: body) last (controlAction (.ofList (0x5B :: body ++ [last]))) .idle := by
  apply frames_of (fun _ => .inBracket) (fun _ b => isFinal b = false) hphase
  · rfl
  · intro collected b hb
    simp [advance_within_bracket, hb]
  · intro front b back heq
    apply hbody
    simp [heq]
  · rw [advance_within_bracket, if_pos hlast]
    exact ⟨rfl, rfl⟩
  · exact reported_controlAction _

/-! ## Device sequences -/

/-- A device sequence collects its bytes up to the terminator; the first one names the
group. -/
theorem advance_within_device (collected : List UInt8) (b : UInt8) :
    (within text (.inDevice (collected.head?.map .ofByte)) (0x26 :: collected)).advance b =
      if isTerminator b then
        (some (deviceAction (.ofByte (collected.headD b)) (.ofList (0x26 :: collected ++ [b])) b),
          within text .idle (0x26 :: collected ++ [b]))
      else
        (none, within text (.inDevice ((collected ++ [b]).head?.map .ofByte))
          (0x26 :: (collected ++ [b]))) := by
  cases collected with
  | nil =>
    change (within text (.inDevice none) [0x26]).advanceDevice none b = _
    simp only [advanceDevice, within, collect, goto, Payload.ofList_push]
    rfl
  | cons first rest =>
    change (within text (.inDevice (some (.ofByte first)))
      (0x26 :: first :: rest)).advanceDevice (some (.ofByte first)) b = _
    simp only [advanceDevice, within, collect, goto, Payload.ofList_push]
    rfl

/-- A device sequence without a meaning is reported with all its bytes. -/
theorem reported_deviceAction (group : DeviceGroup) (payload : Payload) (b : UInt8) :
    ∀ bytes ∈ (deviceAction group payload b).reported?, bytes = payload.toList := by
  intro bytes hbytes
  cases group with
  | enhancements =>
    simp only [deviceAction] at hbytes
    cases hcodes : Enhancement.codesOfFinal? b with
    | none =>
      rw [hcodes] at hbytes
      exact (Option.some.inj hbytes).symm
    | some codes =>
      rw [hcodes] at hbytes
      cases hbytes
  | pageMode => exact (Option.some.inj hbytes).symm
  | other b => exact (Option.some.inj hbytes).symm
  | _ => cases hbytes

/-- A device sequence is framed by its terminator. -/
theorem frames_device (hphase : p.phase = .idle ∨ p.phase = .awaitClick)
    (hbody : ∀ b ∈ body, isTerminator b = false) (hlast : isTerminator last = true) :
    p.Frames (0x26 :: body) last
      (deviceAction (.ofByte (body.headD last)) (.ofList (0x26 :: body ++ [last])) last)
      .idle := by
  apply frames_of (fun collected => .inDevice (collected.head?.map .ofByte))
    (fun _ b => isTerminator b = false) hphase
  · rfl
  · intro collected b hb
    rw [advance_within_device, if_neg (Bool.eq_false_iff.1 hb)]
  · intro front b back heq
    apply hbody
    simp [heq]
  · rw [advance_within_device, if_pos hlast]
    exact ⟨rfl, rfl⟩
  · exact reported_deviceAction _ _ _

/-! ## Graphics sequences -/

/-- A graphics sequence collects its bytes, and the first one names the group, unless it
begins a label. -/
theorem advance_within_graphics (collected : List UInt8) (b : UInt8) (hesc : b ≠ Byte.esc)
    (hlabel : collected = [] → b ≠ 0x6C) (hb : isTerminator b = false) :
    (within text (.inGraphics (collected.head?.map .ofByte)) (0x2A :: collected)).advance b =
      (none, within text (.inGraphics ((collected ++ [b]).head?.map .ofByte))
        (0x2A :: (collected ++ [b]))) := by
  cases collected with
  | nil =>
    change (within text (.inGraphics none) [0x2A]).advanceGraphics none b = _
    simp only [advanceGraphics, within, collect, goto, Payload.ofList_push, hesc, hlabel rfl, hb]
    rfl
  | cons first rest =>
    change (within text (.inGraphics (some (.ofByte first)))
      (0x2A :: first :: rest)).advanceGraphics (some (.ofByte first)) b = _
    simp only [advanceGraphics, within, collect, goto, Payload.ofList_push, hesc, hb]
    rfl

/-- A complete graphics sequence leads outside, unless it switches to graphics text. -/
theorem completeGraphics_eq (p : Parser) (group : Option GraphicsGroup) :
    (p.completeGraphics group).1 = graphicsAction group p.payload ∧
      (p.completeGraphics group).2.phase =
        if entersGraphicsText (graphicsAction group p.payload) then .graphicsText else .idle := by
  unfold completeGraphics
  simp only
  split
  · exact ⟨rfl, rfl⟩
  · exact ⟨rfl, rfl⟩

/-- A terminator belongs to the sequence that it completes. -/
theorem terminate_within_graphics (text : Array UInt8) (first : UInt8) (rest : List UInt8)
    (b : UInt8) (hb : isTerminator b = true) :
    (within text (.inGraphics (some (.ofByte first))) (0x2A :: first :: rest)).advance b =
      let done := (within text (.inGraphics (some (.ofByte first)))
        (0x2A :: first :: rest ++ [b])).completeGraphics (some (.ofByte first))
      (some done.1, done.2) := by
  have hesc : b ≠ Byte.esc := by
    rintro rfl
    cases hb
  change (within text (.inGraphics (some (.ofByte first)))
    (0x2A :: first :: rest)).advanceGraphics (some (.ofByte first)) b = _
  simp only [advanceGraphics, within, collect, Payload.ofList_push, hesc, hb]
  rfl

/-- A graphics sequence without a meaning is reported with all its bytes. -/
theorem reported_graphicsAction (group : Option GraphicsGroup) (payload : Payload) :
    ∀ bytes ∈ (graphicsAction group payload).reported?, bytes = payload.toList := by
  intro bytes hbytes
  cases group with
  | none => exact (Option.some.inj hbytes).symm
  | some group =>
    cases group with
    | display => cases hbytes
    | mode => cases hbytes
    | plot => cases hbytes
    | text =>
      simp only [graphicsAction] at hbytes
      split at hbytes
      · cases hbytes
      · exact (Option.some.inj hbytes).symm
    | status =>
      simp only [graphicsAction] at hbytes
      split at hbytes
      · cases hbytes
      · exact (Option.some.inj hbytes).symm
    | _ => exact (Option.some.inj hbytes).symm

/-- A graphics sequence is framed by its terminator. -/
theorem frames_graphics (hphase : p.phase = .idle ∨ p.phase = .awaitClick)
    (hnonempty : body ≠ []) (hlabel : body.head? ≠ some 0x6C)
    (hbody : ∀ b ∈ body, isTerminator b = false ∧ b ≠ Byte.esc)
    (hlast : isTerminator last = true) :
    p.Frames (0x2A :: body) last
      (graphicsAction (body.head?.map .ofByte) (.ofList (0x2A :: body ++ [last])))
      (if entersGraphicsText
          (graphicsAction (body.head?.map .ofByte) (.ofList (0x2A :: body ++ [last]))) then
        .graphicsText else .idle) := by
  apply frames_of (fun collected => .inGraphics (collected.head?.map .ofByte))
    (fun collected b => isTerminator b = false ∧ b ≠ Byte.esc ∧ (collected = [] → b ≠ 0x6C))
    hphase
  · rfl
  · rintro collected b ⟨hb, hesc, hfirst⟩
    exact advance_within_graphics collected b hesc hfirst hb
  · intro front b back heq
    obtain ⟨hb, hesc⟩ := hbody b (by simp [heq])
    refine ⟨hb, hesc, ?_⟩
    rintro rfl rfl
    apply hlabel
    rw [heq]
    rfl
  · cases body with
    | nil => exact absurd rfl hnonempty
    | cons first rest =>
      have hend := terminate_within_graphics p.text first rest last hlast
      obtain ⟨haction, hleaves⟩ := completeGraphics_eq
        (within p.text (.inGraphics (some (.ofByte first))) (0x2A :: first :: rest ++ [last]))
        (some (.ofByte first))
      constructor
      · exact (congrArg Prod.fst hend).trans (congrArg some haction)
      · exact (congrArg (fun r => r.2.phase) hend).trans hleaves
  · exact reported_graphicsAction _ _

/-! ## All sequences -/

/-- An action switches to graphics text when it is a display action that says
so. -/
theorem entersGraphicsText_iff (action : Action) :
    entersGraphicsText action = true ↔
      ∃ ops, action = .display ops ∧ DisplayOp.enterGraphicsText ∈ ops := by
  cases action with
  | display ops => simp [entersGraphicsText]
  | _ => simp [entersGraphicsText]

/-- A control sequence ends with its first final byte, a device sequence and a
graphics sequence with its first terminator.  Nothing else of the parser before
the sequence has an effect on the action. -/
theorem framing (p : Parser) (hphase : p.phase = .idle ∨ p.phase = .awaitClick)
    (body : List UInt8) (last : UInt8) :
    ((∀ b ∈ body, isFinal b = false) → isFinal last = true →
        p.Frames (0x5B :: body) last
          ((ControlSequence.decode? (.ofList (0x5B :: body ++ [last]))).1.elim
            (.unrecognized (0x5B :: body ++ [last])) .control) .idle) ∧
      ((∀ b ∈ body, isTerminator b = false) → isTerminator last = true →
        p.Frames (0x26 :: body) last
          (deviceAction (.ofByte (body.headD last)) (.ofList (0x26 :: body ++ [last])) last)
          .idle) ∧
      (body ≠ [] → body.head? ≠ some 0x6C →
        (∀ b ∈ body, isTerminator b = false ∧ b ≠ Byte.esc) → isTerminator last = true →
        ∃ action phase, p.Frames (0x2A :: body) last action phase ∧
          action = graphicsAction (body.head?.map .ofByte) (.ofList (0x2A :: body ++ [last])) ∧
          (phase = .idle ∨ phase = .graphicsText) ∧
          (phase = .graphicsText ↔
            ∃ ops, action = .display ops ∧ DisplayOp.enterGraphicsText ∈ ops)) := by
  refine ⟨frames_control hphase, frames_device hphase, ?_⟩
  intro hnonempty hlabel hbody hlast
  refine ⟨_, _, frames_graphics hphase hnonempty hlabel hbody hlast, rfl, ?_, ?_⟩
  · split
    · exact Or.inr rfl
    · exact Or.inl rfl
  · rw [← entersGraphicsText_iff]
    split
    · rename_i henters
      exact ⟨fun _ => henters, fun _ => rfl⟩
    · rename_i hstays
      constructor
      · intro h
        cases h
      · intro henters
        exact absurd henters hstays

/-- One sequence of each kind: a page is erased, a page-mode sequence is inert,
and while a click is awaited a display sequence switches to graphics text. -/
theorem framing_initial :
    Parser.initial.Frames [0x5B, 0x32] 0x4A (.control (.eraseInDisplay 2)) .idle ∧
      Parser.initial.Frames [0x26, 0x73, 0x31] 0x41 (.inert [0x26, 0x73, 0x31, 0x41]) .idle ∧
      Parser.initial.awaitClick.Frames [0x2A, 0x64, 0x61] 0x53
        (.display [.clear none, .enterGraphicsText]) .graphicsText := by
  refine ⟨?_, ?_, ?_⟩
  · exact (framing Parser.initial (Or.inl rfl) [0x32] 0x4A).1 (by simp [isFinal]) rfl
  · exact (framing Parser.initial (Or.inl rfl) [0x73, 0x31] 0x41).2.1
      (by simp [isTerminator, Byte.isUpper, Byte.cr, Byte.lf]) rfl
  · obtain ⟨action, phase, hframes, haction, -, hphase⟩ :=
      (framing Parser.initial.awaitClick (Or.inr rfl) [0x64, 0x61] 0x53).2.2 (by simp) (by simp)
        (by simp [isTerminator, Byte.isUpper, Byte.cr, Byte.lf, Byte.esc]) rfl
    have hops : action = .display [.clear none, .enterGraphicsText] := by
      rw [haction]
      cbv
    have hentered : phase = .graphicsText := hphase.2 ⟨_, hops, by decide⟩
    rwa [hops, hentered] at hframes

end Parser

end GraphicsTerminal
