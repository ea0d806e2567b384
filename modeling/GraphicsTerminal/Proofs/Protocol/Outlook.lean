import Mathlib.Tactic.SplitIfs
import GraphicsTerminal.Protocol.Parser

/-!
# What later bytes can depend on

A parser keeps more than it needs: outside of sequences the bytes of the last sequence,
and outside of graphics text the last text.  What later bytes can depend on is its
outlook.  Parsers with the same outlook complete the same actions, so after a complete
unit it does not matter which unit it was.

Main definitions:

- {lit}`Parser.outlook`: what later bytes can depend on.
- {lit}`Parser.next`: the parser of a terminal after a byte.
- {lit}`Parser.IsBetween`: a stream is cut between two units.

Main results:

- Theorems {lit}`Parser.advance_fst_eq` and {lit}`Parser.outlook_next`: parsers with the
  same outlook complete the same action, and have the same outlook again.
- Theorem {lit}`Parser.outlook_pastLabel`: between units the outlook is that of a new
  parser.
-/

namespace GraphicsTerminal

namespace Parser

/-! ## Outlooks -/

/-- What later bytes can depend on. -/
def outlook (p : Parser) : Parser :=
  match p.phase with
  | .idle => { p with payload := .empty, text := #[] }
  | .awaitClick => { p with phase := .idle, payload := .empty, text := #[] }
  | .graphicsText => { p with payload := .empty }
  | .graphicsLabel => { p with payload := .empty }
  | _ => { p with text := #[] }

@[simp]
theorem swallowLineFeed_outlook (p : Parser) : p.outlook.swallowLineFeed = p.swallowLineFeed := by
  unfold outlook
  split <;> rfl

/-- Two results of a byte that later bytes cannot tell apart. -/
def SameAhead (x y : Option Action × Parser) : Prop := x.1 = y.1 ∧ x.2.outlook = y.2.outlook

variable (payload : Payload) (text : Array UInt8) (swallow : Bool) (b : UInt8)

/-- Outside of sequences neither payload nor text is looked at. -/
theorem sameAhead_advanceIdle {phase : Phase} (h : phase = .idle ∨ phase = .awaitClick) :
    SameAhead (advanceIdle ⟨.idle, .empty, #[], swallow⟩ b)
      (advanceIdle ⟨phase, payload, text, swallow⟩ b) := by
  rcases h with rfl | rfl
  · unfold advanceIdle
    split_ifs <;> exact ⟨rfl, rfl⟩
  · unfold advanceIdle
    split_ifs <;> exact ⟨rfl, rfl⟩

/-- Behind an escape byte the text is not looked at. -/
theorem sameAhead_advanceEscape :
    SameAhead (advanceEscape ⟨.inEscape, payload, #[], swallow⟩ b)
      (advanceEscape ⟨.inEscape, payload, text, swallow⟩ b) := by
  unfold advanceEscape
  dsimp only [collect]
  split <;> exact ⟨rfl, rfl⟩

/-- In a control sequence the text is not looked at. -/
theorem sameAhead_advanceBracket :
    SameAhead (advanceBracket ⟨.inBracket, payload, #[], swallow⟩ b)
      (advanceBracket ⟨.inBracket, payload, text, swallow⟩ b) := by
  unfold advanceBracket
  dsimp only [collect]
  split_ifs <;> exact ⟨rfl, rfl⟩

/-- A complete sequence does not see the last text. -/
theorem completeGraphics_ahead (phase : Phase) (group : Option GraphicsGroup) :
    (completeGraphics ⟨phase, payload, #[], swallow⟩ group).1 =
        (completeGraphics ⟨phase, payload, text, swallow⟩ group).1 ∧
      (completeGraphics ⟨phase, payload, #[], swallow⟩ group).2.outlook =
        (completeGraphics ⟨phase, payload, text, swallow⟩ group).2.outlook ∧
      (completeGraphics ⟨phase, payload, #[], swallow⟩ group).2.beginEscape.outlook =
        (completeGraphics ⟨phase, payload, text, swallow⟩ group).2.beginEscape.outlook := by
  unfold completeGraphics
  dsimp only
  split_ifs <;> exact ⟨rfl, rfl, rfl⟩

/-- In a graphics sequence the text is not looked at, and none is left when it ends. -/
theorem sameAhead_advanceGraphics (group : Option GraphicsGroup) :
    SameAhead (advanceGraphics ⟨.inGraphics group, payload, #[], swallow⟩ group b)
      (advanceGraphics ⟨.inGraphics group, payload, text, swallow⟩ group b) := by
  have hcapital (text : Array UInt8) :
      capitalizeLast ⟨.inGraphics group, payload, text, swallow⟩ =
        ⟨.inGraphics group,
          (capitalizeLast ⟨.inGraphics group, payload, #[], swallow⟩).payload, text, swallow⟩ := by
    unfold capitalizeLast
    dsimp only
    split <;> rfl
  unfold advanceGraphics
  dsimp only [collect]
  split_ifs
  · rw [hcapital text, hcapital #[]]
    obtain ⟨haction, -, hopened⟩ := completeGraphics_ahead
      (capitalizeLast ⟨.inGraphics group, payload, #[], swallow⟩).payload text swallow
      (.inGraphics group) group
    exact ⟨congrArg some haction, hopened⟩
  · exact ⟨rfl, rfl⟩
  · obtain ⟨haction, hdone, -⟩ := completeGraphics_ahead (payload.push b) text swallow
      (.inGraphics group) (some (group.getD (.ofByte b)))
    exact ⟨congrArg some haction, hdone⟩
  · exact ⟨rfl, rfl⟩

/-- In a device sequence the text is not looked at. -/
theorem sameAhead_advanceDevice (group : Option DeviceGroup) :
    SameAhead (advanceDevice ⟨.inDevice group, payload, #[], swallow⟩ group b)
      (advanceDevice ⟨.inDevice group, payload, text, swallow⟩ group b) := by
  unfold advanceDevice
  dsimp only [collect]
  split_ifs <;> exact ⟨rfl, rfl⟩

/-- In graphics text the payload is not looked at. -/
theorem sameAhead_advanceText :
    SameAhead (advanceText ⟨.graphicsText, .empty, text, swallow⟩ b)
      (advanceText ⟨.graphicsText, payload, text, swallow⟩ b) := by
  unfold advanceText
  split_ifs
  · exact ⟨rfl, rfl⟩
  · exact ⟨rfl, rfl⟩

/-- In a label the payload is not looked at. -/
theorem sameAhead_advanceLabel :
    SameAhead (advanceLabel ⟨.graphicsLabel, .empty, text, swallow⟩ b)
      (advanceLabel ⟨.graphicsLabel, payload, text, swallow⟩ b) := by
  unfold advanceLabel takeText
  dsimp only
  split_ifs <;> exact ⟨rfl, rfl⟩

variable {payload text swallow}

/-- A parser and its outlook cannot be told apart. -/
theorem sameAhead_outlook (p : Parser) : SameAhead (p.outlook.advance b) (p.advance b) := by
  obtain ⟨phase, payload, text, swallow⟩ := p
  unfold advance
  rw [swallowLineFeed_outlook]
  dsimp only
  split
  · cases phase with
    | _ => exact ⟨rfl, rfl⟩
  · cases phase with
    | idle => exact sameAhead_advanceIdle payload text false b (.inl rfl)
    | awaitClick => exact sameAhead_advanceIdle payload text false b (.inr rfl)
    | inEscape => exact sameAhead_advanceEscape payload text false b
    | inBracket => exact sameAhead_advanceBracket payload text false b
    | inGraphics group => exact sameAhead_advanceGraphics payload text false b group
    | inDevice group => exact sameAhead_advanceDevice payload text false b group
    | inCharset => exact ⟨rfl, rfl⟩
    | graphicsText => exact sameAhead_advanceText payload text false b
    | graphicsLabel => exact sameAhead_advanceLabel payload text false b

/-! ## Parsers with the same outlook -/

section

variable {p q : Parser} (h : p.outlook = q.outlook)
include h

/-- Parsers with the same outlook complete the same action. -/
theorem advance_fst_eq : (p.advance b).1 = (q.advance b).1 := by
  rw [← (sameAhead_outlook b p).1, h, (sameAhead_outlook b q).1]

/-- Parsers with the same outlook have the same one after a byte. -/
theorem outlook_advance : (p.advance b).2.outlook = (q.advance b).2.outlook := by
  rw [← (sameAhead_outlook b p).2, h, (sameAhead_outlook b q).2]

omit b in
/-- Parsers with the same outlook complete the same actions from then on. -/
theorem feed_fst_eq (bytes : List UInt8) : (p.feed bytes).1 = (q.feed bytes).1 := by
  induction bytes generalizing p q with
  | nil => rfl
  | cons b rest ih => rw [feed, feed, advance_fst_eq b h, ih (outlook_advance b h)]

omit b in
/-- Waiting for a click looks at neither payload nor text. -/
theorem outlook_awaitClick : p.awaitClick.outlook = q.awaitClick.outlook := by
  have hswallow := congrArg swallowLineFeed h
  rw [swallowLineFeed_outlook, swallowLineFeed_outlook] at hswallow
  exact congrArg (Parser.mk .idle .empty #[]) hswallow

end

/-! ## The parser of a terminal -/

/-- The parser of a terminal after a byte.  The query that asks for a click makes it
wait for one. -/
def next (p : Parser) (b : UInt8) : Parser :=
  if (p.advance b).1 = some (.status (some 4)) then (p.advance b).2.awaitClick
  else (p.advance b).2

/-- Parsers with the same outlook have the same outlook after a byte. -/
theorem outlook_next {p q : Parser} (h : p.outlook = q.outlook) :
    (p.next b).outlook = (q.next b).outlook := by
  unfold next
  rw [advance_fst_eq b h]
  split_ifs
  · exact outlook_awaitClick (outlook_advance b h)
  · exact outlook_advance b h

/-- Without such a query the parser of the terminal is the one that takes the bytes. -/
theorem foldl_next {p : Parser} {bytes : List UInt8}
    (h : ∀ action ∈ (p.feed bytes).1, action ≠ .status (some 4)) :
    bytes.foldl next p = (p.feed bytes).2 := by
  induction bytes generalizing p with
  | nil => rfl
  | cons b rest ih =>
    have hb : (p.advance b).1 ≠ some (.status (some 4)) := by
      intro hquery
      refine h _ ?_ rfl
      rw [feed, hquery]
      exact List.mem_append_left _ (List.mem_singleton_self _)
    have hnext : p.next b = (p.advance b).2 := if_neg hb
    rw [List.foldl_cons, hnext, feed]
    refine ih fun action haction => h action ?_
    rw [feed]
    exact List.mem_append_right _ haction

/-! ## Between two units -/

/-- A stream is cut between two units: the first part leaves the parser outside of
sequences, and what follows does not begin with a line feed that belongs to the label
before it. -/
structure IsBetween (p : Parser) (front back : List UInt8) : Prop where
  outside : (front.foldl next p).phase = .idle ∨ (front.foldl next p).phase = .awaitClick
  line : (front.foldl next p).swallowLineFeed = true → back.head? ≠ some Byte.lf

/-- The parser that no longer waits for the line feed of a label. -/
def pastLabel (p : Parser) : Parser := { p with swallowLineFeed := false }

/-- A byte that is no line feed of a label is taken as if no label had ended. -/
theorem advance_pastLabel {p : Parser} {b : UInt8}
    (h : p.swallowLineFeed = true → b ≠ Byte.lf) : p.pastLabel.advance b = p.advance b := by
  have hswallowed : ¬ (p.swallowLineFeed && b == Byte.lf) = true := by
    rw [Bool.and_eq_true, beq_iff_eq]
    exact fun hboth => h hboth.1 hboth.2
  unfold advance
  rw [if_neg hswallowed]
  rfl

/-- Outside of sequences the outlook is that of a new parser. -/
theorem outlook_pastLabel {p : Parser} (h : p.phase = .idle ∨ p.phase = .awaitClick) :
    p.pastLabel.outlook = initial := by
  obtain ⟨phase, payload, text, swallow⟩ := p
  rcases h with rfl | rfl
  · rfl
  · rfl

end Parser

end GraphicsTerminal
