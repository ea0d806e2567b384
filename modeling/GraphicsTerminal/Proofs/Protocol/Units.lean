import GraphicsTerminal.Proofs.Engine.Drawing
import GraphicsTerminal.Proofs.Protocol.Framing
import GraphicsTerminal.Proofs.Protocol.Outlook

/-!
# Units of one memory

Some units of the host stream only draw, and some do not draw at all.  A parser outside
of sequences takes each of them as a whole, and is outside of sequences afterwards.

Main definitions:

- {lit}`Parser.Takes`: a byte string that a parser outside of sequences takes as a whole.
- {lit}`IsDrawing`: plot bodies, mode and text-pen sequences, and labels.
- {lit}`IsWriting`: data, control and device sequences, character sets, and commands of
  one letter but for the resets.

Main results:

- Theorems {lit}`IsDrawing.takes` and {lit}`IsWriting.takes`: such units change the
  picture alone, or make no call.
- Theorem {lit}`Parser.IsBetween.append`: a cut between two units stays one after one more
  unit.
-/

namespace GraphicsTerminal

/-! ## Kinds of actions -/

namespace Action

/-- An action that changes nothing but the picture. -/
def IsGraphic : Action → Prop
  | drawing _ => True
  | textPen _ => True
  | plot _ => True
  | graphicsText _ => True
  | inert _ => True
  | _ => False

/-- An action that makes no call. -/
def IsSilent (action : Action) : Prop := ∀ g, action.calls g = []

variable {action : Action}

/-- What only draws does not ask for a click. -/
theorem IsGraphic.ne_clickQuery (h : action.IsGraphic) : action ≠ .status (some 4) := by
  rintro rfl
  exact h

/-- What makes no call does not ask for a click: the query shows the graphics cursor. -/
theorem IsSilent.ne_clickQuery (h : action.IsSilent) : action ≠ .status (some 4) := by
  rintro rfl
  cases h (.initial 0 0)

/-- What makes no call hands no text over. -/
theorem IsSilent.ne_graphicsText (h : action.IsSilent) (text : String) :
    action ≠ .graphicsText text := by
  rintro rfl
  cases h (.initial 0 0)

end Action

namespace Parser

/-! ## Units that are taken as a whole -/

/-- A byte string that a parser outside of sequences takes as a whole: it asks for
actions of a kind only, and afterwards the parser is outside of sequences again. -/
structure Takes (p : Parser) (bytes : List UInt8) (kind : Action → Prop) : Prop where
  actions : ∀ action ∈ (p.feed bytes).1, kind action
  outside : (p.feed bytes).2.phase = .idle ∨ (p.feed bytes).2.phase = .awaitClick
  line : (p.feed bytes).2.swallowLineFeed = true → bytes = []

/-- Handing a text over starts and ends no wait for a line feed. -/
theorem swallowLineFeed_takeText (p : Parser) :
    p.takeText.2.swallowLineFeed = p.swallowLineFeed := by
  unfold takeText
  split <;> rfl

/-- Completing a graphics sequence starts and ends no wait for a line feed. -/
theorem swallowLineFeed_completeGraphics (p : Parser) (group : Option GraphicsGroup) :
    (p.completeGraphics group).2.swallowLineFeed = p.swallowLineFeed := by
  unfold completeGraphics
  dsimp only
  split <;> rfl

/-- Interrupting a sequence starts and ends no wait for a line feed. -/
theorem swallowLineFeed_capitalizeLast (p : Parser) :
    p.capitalizeLast.swallowLineFeed = p.swallowLineFeed := by
  unfold capitalizeLast
  split <;> rfl

/-- Only a label that ends makes the parser wait for its line feed. -/
theorem swallowLineFeed_advance {p : Parser} {b : UInt8} (h : p.phase ≠ .graphicsLabel) :
    (p.advance b).2.swallowLineFeed = false := by
  obtain ⟨phase, payload, text, swallow⟩ := p
  unfold advance
  dsimp only
  split
  · rfl
  · cases phase with
    | idle | awaitClick =>
      simp only [advanceIdle]
      split_ifs <;> rfl
    | inEscape =>
      simp only [advanceEscape]
      split <;> rfl
    | inBracket =>
      simp only [advanceBracket]
      split <;> rfl
    | inGraphics group =>
      simp only [advanceGraphics]
      split_ifs
      · exact (swallowLineFeed_completeGraphics _ _).trans (swallowLineFeed_capitalizeLast _)
      · rfl
      · exact swallowLineFeed_completeGraphics _ _
      · rfl
    | inDevice group =>
      simp only [advanceDevice]
      split <;> rfl
    | inCharset => rfl
    | graphicsText =>
      simp only [advanceText]
      split
      · exact swallowLineFeed_takeText _
      · rfl
    | graphicsLabel => exact absurd rfl h

/-- A parser in graphics text or in a label completes its text, or nothing. -/
theorem advance_of_text {p : Parser} {b : UInt8} {action : Action}
    (h : p.phase = .graphicsText ∨ p.phase = .graphicsLabel)
    (haction : (p.advance b).1 = some action) : ∃ text, action = .graphicsText text := by
  obtain ⟨phase, payload, text, swallow⟩ := p
  unfold advance at haction
  dsimp only at haction
  split at haction
  · cases haction
  · rcases h with rfl | rfl
    · simp only [advanceText, takeText] at haction
      split_ifs at haction
      exact ⟨_, (Option.some.inj haction).symm⟩
    · simp only [advanceLabel, takeText] at haction
      split_ifs at haction
      exact ⟨_, (Option.some.inj haction).symm⟩

/-- A sequence that switches to graphics text begins an empty one. -/
theorem text_completeGraphics {p : Parser} {group : Option GraphicsGroup} :
    (p.completeGraphics group).2.phase = .graphicsText →
      (p.completeGraphics group).2.text = #[] := by
  unfold completeGraphics
  dsimp only
  split
  · exact fun _ => rfl
  · intro hto
    cases hto

/-- A switch to graphics text begins an empty text. -/
theorem text_advance {p : Parser} {b : UInt8} (hfrom : p.phase ≠ .graphicsText) :
    (p.advance b).2.phase = .graphicsText → (p.advance b).2.text = #[] := by
  obtain ⟨phase, payload, text, swallow⟩ := p
  unfold advance
  dsimp only
  split
  · exact fun hto => absurd hto hfrom
  · cases phase with
    | idle | awaitClick =>
      simp only [advanceIdle]
      split_ifs <;> (intro hto; cases hto)
    | inEscape =>
      simp only [advanceEscape]
      split <;> (intro hto; cases hto)
    | inBracket =>
      simp only [advanceBracket]
      split <;> (intro hto; cases hto)
    | inGraphics group =>
      simp only [advanceGraphics]
      split_ifs
      · intro hto
        cases hto
      · intro hto
        cases hto
      · exact text_completeGraphics
      · intro hto
        cases hto
    | inDevice group =>
      simp only [advanceDevice]
      split <;> (intro hto; cases hto)
    | inCharset =>
      intro hto
      cases hto
    | graphicsText => exact absurd rfl hfrom
    | graphicsLabel =>
      simp only [advanceLabel]
      split
      · rw [phase_takeText]
        intro hto
        cases hto
      · intro hto
        cases hto

variable {p : Parser} {kind : Action → Prop}

section

variable {bytes : List UInt8} {last : UInt8} {action : Action} {phase : Phase}
  (h : p.Frames bytes last action phase) (htext : ∀ text, action ≠ .graphicsText text)
include h htext

/-- The last byte of a framed sequence is no part of a text. -/
theorem Frames.not_in_text :
    (p.feed (Byte.esc :: bytes)).2.phase ≠ .graphicsText ∧
      (p.feed (Byte.esc :: bytes)).2.phase ≠ .graphicsLabel := by
  constructor
  · intro hphase
    obtain ⟨text, heq⟩ := advance_of_text (.inl hphase) h.completes
    exact htext text heq
  · intro hphase
    obtain ⟨text, heq⟩ := advance_of_text (.inr hphase) h.completes
    exact htext text heq

/-- Behind a framed sequence no line feed is waited for. -/
theorem Frames.swallowLineFeed :
    (p.feed (Byte.esc :: bytes ++ [last])).2.swallowLineFeed = false := by
  rw [feed_append, feed_singleton]
  exact swallowLineFeed_advance (h.not_in_text htext).2

/-- After a framed sequence the outlook is known from the phase. -/
theorem Frames.outlook_eq (hphase : phase = .idle ∨ phase = .graphicsText) :
    (p.feed (Byte.esc :: bytes ++ [last])).2.outlook = ⟨phase, .empty, #[], false⟩ := by
  have hleaves := h.feed_phase
  have hswallow := h.swallowLineFeed htext
  have hentered : phase = .graphicsText →
      (p.feed (Byte.esc :: bytes ++ [last])).2.text = #[] := by
    rw [feed_append, feed_singleton]
    exact fun hto => text_advance (h.not_in_text htext).1 (h.leaves.trans hto)
  generalize (p.feed (Byte.esc :: bytes ++ [last])).2 = q at hleaves hswallow hentered
  obtain ⟨phase', payload, text, swallow⟩ := q
  obtain rfl : phase' = phase := hleaves
  obtain rfl : swallow = false := hswallow
  rcases hphase with rfl | rfl
  · rfl
  · obtain rfl : text = #[] := hentered rfl
    rfl

end

/-- A framed sequence that leads out of sequences is taken as a whole. -/
theorem Frames.takes {bytes : List UInt8} {last : UInt8} {action : Action}
    (h : p.Frames bytes last action .idle) (htext : ∀ text, action ≠ .graphicsText text)
    (hkind : kind action) : p.Takes (Byte.esc :: bytes ++ [last]) kind where
  actions := by
    intro other hother
    rw [h.feed_fst, List.mem_singleton] at hother
    rw [hother]
    exact hkind
  outside := Or.inl h.feed_phase
  line := by
    rw [h.swallowLineFeed htext]
    exact fun hswallow => Bool.noConfusion hswallow

/-- A stream that is cut between two units is still cut there after one more unit. -/
theorem IsBetween.append {front back unit : List UInt8} (h : p.IsBetween front back)
    (htakes : (front.foldl next p).Takes unit kind)
    (hkind : ∀ action, kind action → action ≠ .status (some 4)) :
    p.IsBetween (front ++ unit) back := by
  have hunit : (front ++ unit).foldl next p = ((front.foldl next p).feed unit).2 := by
    rw [List.foldl_append]
    exact foldl_next fun action haction => hkind action (htakes.actions action haction)
  refine ⟨?_, ?_⟩
  · rw [hunit]
    exact htakes.outside
  · rw [hunit]
    intro hswallow
    rw [htakes.line hswallow] at hswallow
    exact h.line hswallow

/-! ### Labels -/

/-- The bytes that a phase collects make up its text. -/
theorem feed_collected {phase : Phase} {payload : Payload} {quiet : UInt8 → Prop}
    (hstep : ∀ (collected : Array UInt8) (b : UInt8), quiet b →
      (Parser.mk phase payload collected false).advance b =
        (none, ⟨phase, payload, collected.push b, false⟩))
    (collected : Array UInt8) {bytes : List UInt8} (hbytes : ∀ b ∈ bytes, quiet b) :
    (Parser.mk phase payload collected false).feed bytes =
      ([], ⟨phase, payload, collected ++ bytes.toArray, false⟩) := by
  induction bytes generalizing collected with
  | nil => simp [feed]
  | cons b rest ih =>
    rw [feed, hstep collected b (hbytes b (.head rest)),
      ih (collected.push b) fun c hc => hbytes c (.tail b hc)]
    simp

/-- The characters of a label are collected. -/
theorem feed_label (payload : Payload) (collected : Array UInt8) {text : List UInt8}
    (htext : ∀ b ∈ text, b ≠ Byte.cr ∧ b ≠ Byte.lf) :
    (Parser.mk .graphicsLabel payload collected false).feed text =
      ([], ⟨.graphicsLabel, payload, collected ++ text.toArray, false⟩) := by
  refine feed_collected (fun collected b hb => ?_) collected htext
  change Parser.advanceLabel _ b = _
  rw [advanceLabel, if_neg fun hend => hend.elim hb.1 hb.2]

/-- A text is handed over to be drawn. -/
theorem isGraphic_takeText (p : Parser) : ∀ action ∈ p.takeText.1, action.IsGraphic := by
  intro action haction
  unfold takeText at haction
  split at haction
  · cases haction
  · cases haction
    trivial

/-- A line feed that belongs to a label is taken without an action. -/
theorem advance_swallowed (h : p.swallowLineFeed = true) :
    p.advance Byte.lf = (none, { p with swallowLineFeed := false }) := by
  unfold advance
  rw [h]
  rfl

/-- The end of a label hands its text over, if there is any. -/
theorem takes_label_end (payload : Payload) (collected : Array UInt8) {ending : List UInt8}
    (hending : ending = [Byte.lf] ∨ ending = [Byte.cr, Byte.lf]) :
    (Parser.mk .graphicsLabel payload collected false).Takes ending Action.IsGraphic := by
  rcases hending with rfl | rfl
  · have hlast : (Parser.mk .graphicsLabel payload collected false).feed [Byte.lf] =
        ((takeText ⟨.idle, payload, collected, false⟩).1.toList,
          (takeText ⟨.idle, payload, collected, false⟩).2) := feed_singleton _ _
    refine ⟨?_, ?_, ?_⟩
    · rw [hlast]
      exact fun action haction => isGraphic_takeText _ action (Option.mem_toList.1 haction)
    · rw [hlast]
      exact Or.inl (phase_takeText _)
    · rw [hlast]
      intro hswallow
      cases (swallowLineFeed_takeText _).symm.trans hswallow
  · have hswallow : (takeText ⟨.idle, payload, collected, true⟩).2.swallowLineFeed = true :=
      swallowLineFeed_takeText _
    have hlast : (Parser.mk .graphicsLabel payload collected false).feed [Byte.cr, Byte.lf] =
        ((takeText ⟨.idle, payload, collected, true⟩).1.toList,
          { (takeText ⟨.idle, payload, collected, true⟩).2 with swallowLineFeed := false }) := by
      have hfirst : (Parser.mk .graphicsLabel payload collected false).advance Byte.cr =
          takeText ⟨.idle, payload, collected, true⟩ := rfl
      rw [feed, hfirst, feed_singleton, advance_swallowed hswallow]
      exact congrArg (·, _) (List.append_nil _)
    refine ⟨?_, ?_, ?_⟩
    · rw [hlast]
      exact fun action haction => isGraphic_takeText _ action (Option.mem_toList.1 haction)
    · rw [hlast]
      exact Or.inl (phase_takeText _)
    · rw [hlast]
      exact fun hfalse => Bool.noConfusion hfalse

/-- A label begins with an empty text. -/
theorem feed_label_start (hphase : p.phase = .idle ∨ p.phase = .awaitClick) :
    p.feed [Byte.esc, 0x2A, 0x6C] =
      ([], ⟨.graphicsLabel, Payload.ofList [0x2A], #[], false⟩) := by
  rw [feed, advance_esc hphase]
  rfl

/-! ### Data -/

/-- Outside of sequences every other byte than the escape byte is a unit that makes no
call. -/
theorem advance_data {b : UInt8} (hphase : p.phase = .idle ∨ p.phase = .awaitClick)
    (hb : b ≠ Byte.esc) :
    (∀ action ∈ (p.advance b).1, action.IsSilent) ∧
      (p.advance b).2 = { p with swallowLineFeed := false } := by
  have hidle : (∀ action ∈ ({ p with swallowLineFeed := false }.advanceIdle b).1,
        action.IsSilent) ∧
      ({ p with swallowLineFeed := false }.advanceIdle b).2 =
        { p with swallowLineFeed := false } := by
    unfold advanceIdle
    rw [if_neg hb]
    split_ifs
    all_goals
      refine ⟨?_, rfl⟩
      rintro action ⟨⟩
      exact fun g => rfl
  unfold advance
  dsimp only
  split
  · refine ⟨?_, rfl⟩
    rintro action ⟨⟩
  · rcases hphase with hphase | hphase
    · simpa only [hphase] using hidle
    · simpa only [hphase] using hidle

/-- Bytes without an escape byte are taken outside of sequences, one after another. -/
theorem takes_data {bytes : List UInt8} (hphase : p.phase = .idle ∨ p.phase = .awaitClick)
    (hbytes : Byte.esc ∉ bytes) : p.Takes bytes Action.IsSilent := by
  induction bytes generalizing p with
  | nil =>
    refine ⟨?_, hphase, fun _ => rfl⟩
    intro action haction
    cases haction
  | cons b rest ih =>
    obtain ⟨hb, hrest⟩ := List.ne_and_not_mem_of_not_mem_cons hbytes
    obtain ⟨hsilent, hnext⟩ := advance_data hphase (Ne.symm hb)
    have hlater : (p.advance b).2.Takes rest Action.IsSilent := by
      refine ih ?_ hrest
      rw [hnext]
      exact hphase
    refine ⟨?_, hlater.outside, ?_⟩
    · intro action haction
      rcases List.mem_append.1 haction with hnow | hafter
      · exact hsilent action (Option.mem_toList.1 hnow)
      · exact hlater.actions action hafter
    · intro hswallow
      -- The first byte has ended the wait for a line feed already.
      have hnil : rest = [] := hlater.line hswallow
      subst hnil
      have hclear : (p.advance b).2.swallowLineFeed = true := hswallow
      rw [hnext] at hclear
      cases hclear

/-! ### Short sequences -/

/-- A character set is designated by one byte. -/
theorem takes_charset (hphase : p.phase = .idle ∨ p.phase = .awaitClick) (b : UInt8) :
    p.Takes [Byte.esc, 0x29, b] Action.IsSilent := by
  have htaken : p.feed [Byte.esc, 0x29, b] =
      ([.charset (.ofDesignator b)], within p.text .idle [0x29, b]) := by
    rw [feed, advance_esc hphase]
    rfl
  refine ⟨?_, ?_, ?_⟩
  · rw [htaken]
    intro action haction
    rw [List.mem_singleton.1 haction]
    exact fun g => rfl
  · rw [htaken]
    exact Or.inl rfl
  · rw [htaken]
    exact fun hfalse => Bool.noConfusion hfalse

/-- A command of one letter is no reset, and does not open a longer sequence. -/
structure IsCommand (b : UInt8) : Prop where
  opens_nothing : Byte.char b ∉ ['[', '*', '&', ')']
  ne_hardReset : SingleCommand.decode? b ≠ some .hardReset
  ne_softReset : SingleCommand.decode? b ≠ some .softReset

/-- A command of one letter is a unit of two bytes. -/
theorem takes_command (hphase : p.phase = .idle ∨ p.phase = .awaitClick) {b : UInt8}
    (hb : IsCommand b) : p.Takes [Byte.esc, b] Action.IsSilent := by
  have hadvanced : (within p.text .inEscape []).advance b =
      (some ((SingleCommand.decode? b).elim (.unrecognized [b]) .single),
        within p.text .idle [b]) := by
    have hopens := hb.opens_nothing
    change (within p.text .inEscape []).advanceEscape b = _
    unfold advanceEscape
    dsimp only
    split
    case h_5 => rfl
    all_goals
      rename_i hchar
      exact absurd (by rw [hchar]; decide) hopens
  have htaken : p.feed [Byte.esc, b] =
      ([(SingleCommand.decode? b).elim (.unrecognized [b]) .single],
        within p.text .idle [b]) := by
    rw [feed, advance_esc hphase, feed_singleton, hadvanced]
    rfl
  refine ⟨?_, ?_, ?_⟩
  · rw [htaken]
    intro action haction g
    rw [List.mem_singleton.1 haction]
    cases hcommand : SingleCommand.decode? b with
    | none => rfl
    | some command =>
      cases command with
      | hardReset => exact absurd hcommand hb.ne_hardReset
      | softReset => exact absurd hcommand hb.ne_softReset
      | _ => rfl
  · rw [htaken]
    exact Or.inl rfl
  · rw [htaken]
    exact fun hfalse => Bool.noConfusion hfalse

end Parser

/-! ## Units of one memory -/

/-- A unit that only draws: a plot body, a mode sequence, a text-pen sequence, or a label
with its line end. -/
inductive IsDrawing : List UInt8 → Prop
  | sequence {group last : UInt8} {body : List UInt8}
      (hgroup : group = 0x70 ∨ group = 0x6D ∨ group = 0x6E)
      (hbody : ∀ b ∈ body, Parser.isTerminator b = false ∧ b ≠ Byte.esc)
      (hlast : Parser.isTerminator last = true) :
      IsDrawing (Byte.esc :: 0x2A :: group :: body ++ [last])
  | label {text ending : List UInt8} (htext : ∀ b ∈ text, b ≠ Byte.cr ∧ b ≠ Byte.lf)
      (hending : ending = [Byte.lf] ∨ ending = [Byte.cr, Byte.lf]) :
      IsDrawing ([Byte.esc, 0x2A, 0x6C] ++ text ++ ending)

/-- A unit that does not draw: data, a control sequence, a device sequence, a character
set, or a command of one letter but for the resets. -/
inductive IsWriting : List UInt8 → Prop
  | data {bytes : List UInt8} (hbytes : Byte.esc ∉ bytes) : IsWriting bytes
  | control {body : List UInt8} {last : UInt8} (hbody : ∀ b ∈ body, Parser.isFinal b = false)
      (hlast : Parser.isFinal last = true) : IsWriting (Byte.esc :: 0x5B :: body ++ [last])
  | device {body : List UInt8} {last : UInt8}
      (hbody : ∀ b ∈ body, Parser.isTerminator b = false)
      (hlast : Parser.isTerminator last = true) : IsWriting (Byte.esc :: 0x26 :: body ++ [last])
  | charset (b : UInt8) : IsWriting [Byte.esc, 0x29, b]
  | command {b : UInt8} (hb : Parser.IsCommand b) : IsWriting [Byte.esc, b]

/-- The sequences of three groups ask for graphic actions. -/
theorem isGraphic_graphicsAction {group : UInt8} (h : group = 0x70 ∨ group = 0x6D ∨ group = 0x6E)
    (payload : Payload) :
    (Parser.graphicsAction (some (.ofByte group)) payload).IsGraphic := by
  rcases h with rfl | rfl | rfl
  · trivial
  · trivial
  · change (Parser.graphicsAction (some .text) payload).IsGraphic
    unfold Parser.graphicsAction
    dsimp only
    split <;> trivial

/-- What only draws does not switch to graphics text. -/
theorem entersGraphicsText_of_isGraphic {action : Action} (h : action.IsGraphic) :
    Parser.entersGraphicsText action = false := by
  cases action with
  | display ops => exact h.elim
  | _ => rfl

/-- No graphics sequence hands a text over. -/
theorem graphicsAction_ne_graphicsText (group : Option GraphicsGroup) (payload : Payload)
    (text : String) : Parser.graphicsAction group payload ≠ .graphicsText text := by
  unfold Parser.graphicsAction
  split
  case h_5 | h_6 =>
    split
    · exact Action.noConfusion
    · exact Action.noConfusion
  all_goals exact Action.noConfusion

/-- Control sequences make no call. -/
theorem isSilent_controlAction (payload : Payload) :
    (Parser.controlAction payload).IsSilent := by
  unfold Parser.controlAction
  cases (ControlSequence.decode? payload).1 with
  | none => exact fun g => rfl
  | some command => exact fun g => rfl

/-- Device sequences make no call. -/
theorem isSilent_deviceAction (group : DeviceGroup) (payload : Payload) (last : UInt8) :
    (Parser.deviceAction group payload last).IsSilent := by
  cases group with
  | enhancements =>
    unfold Parser.deviceAction
    dsimp only
    cases Enhancement.codesOfFinal? last with
    | none => exact fun g => rfl
    | some codes => exact fun g => rfl
  | _ => exact fun g => rfl

/-- Drawing units ask for graphic actions. -/
theorem IsDrawing.takes {p : Parser} {bytes : List UInt8} (h : IsDrawing bytes)
    (hphase : p.phase = .idle ∨ p.phase = .awaitClick) : p.Takes bytes Action.IsGraphic := by
  cases h with
  | @sequence group last body hgroup hbody hlast =>
    have hnext : ∀ b ∈ group :: body, Parser.isTerminator b = false ∧ b ≠ Byte.esc := by
      intro b hb
      rcases List.mem_cons.1 hb with rfl | hlater
      · rcases hgroup with rfl | rfl | rfl <;> decide
      · exact hbody b hlater
    have hlabel : (group :: body).head? ≠ some 0x6C := by
      rcases hgroup with rfl | rfl | rfl <;> exact of_decide_eq_true rfl
    have hframes := Parser.frames_graphics hphase (List.cons_ne_nil group body) hlabel hnext hlast
    have hgraphic := isGraphic_graphicsAction hgroup (.ofList (0x2A :: (group :: body) ++ [last]))
    have hstays := entersGraphicsText_of_isGraphic hgraphic
    have htext := graphicsAction_ne_graphicsText (some (.ofByte group))
      (.ofList (0x2A :: (group :: body) ++ [last]))
    rw [List.head?_cons, Option.map_some, hstays] at hframes
    exact hframes.takes htext hgraphic
  | @label text ending htext hending =>
    have hstart := Parser.feed_label_start hphase
    have hopened := Parser.feed_label (Payload.ofList [0x2A]) #[] htext
    have hend := Parser.takes_label_end (Payload.ofList [0x2A]) (#[] ++ text.toArray) hending
    have hfeed : p.feed ([Byte.esc, 0x2A, 0x6C] ++ text ++ ending) =
        (Parser.mk .graphicsLabel (Payload.ofList [0x2A]) (#[] ++ text.toArray) false).feed
          ending := by
      rw [Parser.feed_append, Parser.feed_append, hstart, hopened]
      rfl
    refine ⟨?_, ?_, ?_⟩
    · rw [hfeed]
      exact hend.actions
    · rw [hfeed]
      exact hend.outside
    · rw [hfeed]
      intro hswallow
      have hnil := hend.line hswallow
      rcases hending with rfl | rfl <;> cases hnil

/-- Writing units make no call. -/
theorem IsWriting.takes {p : Parser} {bytes : List UInt8} (h : IsWriting bytes)
    (hphase : p.phase = .idle ∨ p.phase = .awaitClick) : p.Takes bytes Action.IsSilent := by
  cases h with
  | data hbytes => exact Parser.takes_data hphase hbytes
  | control hbody hlast =>
    exact (Parser.frames_control hphase hbody hlast).takes
      (isSilent_controlAction _).ne_graphicsText (isSilent_controlAction _)
  | device hbody hlast =>
    exact (Parser.frames_device hphase hbody hlast).takes
      (isSilent_deviceAction _ _ _).ne_graphicsText (isSilent_deviceAction _ _ _)
  | charset b => exact Parser.takes_charset hphase b
  | command hb => exact Parser.takes_command hphase hb

end GraphicsTerminal
