import GraphicsTerminal.Proofs.Protocol.CombinedBodies

/-!
# Reached parsers

Whatever stream a parser has taken, only graphics text and labels leave a text behind, and
behind an escape byte nothing is left of what came before.  So from there on a sequence is
taken as if it were the first.

Main definitions:

- {lit}`Parser.Reached`: the parsers that a stream can lead to.
- {lit}`Parser.Tidy`: what every reached parser keeps.
- {lit}`Parser.IsClosed`: the last byte of a sequence ends it, and no other byte does.

Main results:

- Theorem {lit}`Parser.Reached.tidy`: every reached parser is tidy.
- Theorems {lit}`Parser.feed_device`, {lit}`Parser.feed_graphics` and
  {lit}`Parser.feed_graphics_esc`: what a sequence asks for that is closed, or that an escape
  byte interrupts.
-/

namespace GraphicsTerminal

/-- Bytes with the last one made a capital letter. -/
def Byte.capitalizeLast (bytes : List UInt8) : List UInt8 :=
  bytes.dropLast ++ (bytes.getLast?.map upper).toList

namespace Parser

/-! ## Reached parsers -/

/-- The parsers that a stream can lead to.  A status query can make the parser wait for a
click, and a click ends the wait. -/
inductive Reached : Parser → Prop
  | initial : Reached initial
  | advance {p : Parser} (b : UInt8) (h : Reached p) : Reached (p.advance b).2
  | awaitClick {p : Parser} {b : UInt8} {query : Option Int} (h : Reached p)
      (hquery : (p.advance b).1 = some (.status query)) : Reached (p.advance b).2.awaitClick
  | clickResolved {p : Parser} (h : Reached p) : Reached p.clickResolved

/-- Only graphics text and labels have a text, the bytes of a sequence are read from the
first, and a sequence begins without bytes. -/
structure Tidy (p : Parser) : Prop where
  text_eq : p.phase ≠ .graphicsText → p.phase ≠ .graphicsLabel → p.text = #[]
  index_eq : p.payload.index = 0
  opened : p.phase = .inEscape → p.payload = .empty ∧ p.swallowLineFeed = false

/-- A tidy parser without a text. -/
structure Settled (p : Parser) : Prop extends Tidy p where
  text_empty : p.text = #[]

variable {p : Parser} {b letter : UInt8} {group : Option GraphicsGroup}

/-- A new parser is tidy: it has neither text nor bytes. -/
theorem tidy_initial : initial.Tidy := ⟨fun _ _ => rfl, rfl, fun h => nomatch h⟩

/-- A tidy parser at the start of a sequence. -/
theorem Tidy.eq_within (h : p.Tidy) (hphase : p.phase = .inEscape) :
    p = within #[] .inEscape [] := by
  have htext := h.text_eq (by simp [hphase]) (by simp [hphase])
  obtain ⟨hpayload, hswallow⟩ := h.opened hphase
  obtain ⟨phase, payload, text, swallow⟩ := p
  subst hphase hpayload htext hswallow
  rfl

/-! ### One byte -/

/-- A sequence begins without a byte, and here without a text. -/
theorem settled_beginEscape (htext : p.text = #[]) (hswallow : p.swallowLineFeed = false) :
    p.beginEscape.Settled :=
  ⟨⟨fun _ _ => htext, rfl, fun _ => ⟨rfl, hswallow⟩⟩, htext⟩

/-- Outside of an escape byte a parser is settled if it reads its payload from the first
byte and has no text. -/
theorem settled_of_ne (htext : p.text = #[]) (hindex : p.payload.index = 0)
    (hphase : p.phase ≠ .inEscape) : p.Settled :=
  ⟨⟨fun _ _ => htext, hindex, fun h => absurd h hphase⟩, htext⟩

/-- A text that is handed over is gone from the parser. -/
theorem text_takeText (p : Parser) : p.takeText.2.text = #[] := by
  unfold takeText
  split
  · rename_i h
    simpa using h
  · rfl

/-- Handing a text over does not touch the bytes of a sequence. -/
theorem payload_takeText (p : Parser) : p.takeText.2.payload = p.payload := by
  unfold takeText
  split <;> rfl

/-- A complete sequence leaves no text and does not begin a sequence. -/
theorem settled_completeGraphics (htext : p.text = #[]) (hindex : p.payload.index = 0)
    (group : Option GraphicsGroup) : (p.completeGraphics group).2.Settled := by
  unfold completeGraphics
  dsimp only
  split
  · exact settled_of_ne rfl hindex (by simp)
  · exact settled_of_ne htext hindex (by simp [goto])

/-- So an interrupted one begins the next sequence without a text. -/
theorem text_completeGraphics_of_empty (htext : p.text = #[]) (group : Option GraphicsGroup) :
    (p.completeGraphics group).2.text = #[] := by
  unfold completeGraphics
  dsimp only
  split
  · rfl
  · exact htext

/-- The letter that stands for an interruption is no part of a text. -/
theorem text_capitalizeLast (p : Parser) : p.capitalizeLast.text = p.text := by
  unfold capitalizeLast
  split <;> rfl

section

variable {payload : Payload} (hindex : payload.index = 0) (b : UInt8)
include hindex

/-- Between sequences a byte is data, a control or the start of a sequence, and none of
these is kept. -/
theorem settled_advanceIdle {phase : Phase} (h : phase = .idle ∨ phase = .awaitClick) :
    (advanceIdle ⟨phase, payload, #[], false⟩ b).2.Settled := by
  have hstays : (Parser.mk phase payload #[] false).Settled :=
    settled_of_ne rfl hindex (by rcases h with rfl | rfl <;> simp)
  unfold advanceIdle
  split_ifs
  · exact settled_beginEscape rfl rfl
  · exact hstays
  · exact hstays
  · exact hstays

/-- The byte behind an escape byte completes a sequence or chooses its kind. -/
theorem settled_advanceEscape : (advanceEscape ⟨.inEscape, payload, #[], false⟩ b).2.Settled := by
  unfold advanceEscape
  dsimp only
  split <;> exact settled_of_ne rfl hindex (by simp [goto])

/-- A byte of a control sequence is collected or completes it. -/
theorem settled_advanceBracket :
    (advanceBracket ⟨.inBracket, payload, #[], false⟩ b).2.Settled := by
  unfold advanceBracket
  dsimp only
  split <;> exact settled_of_ne rfl hindex (by simp [goto, collect])

/-- A byte of a graphics sequence is collected, completes or interrupts it, or begins a
label without a text. -/
theorem settled_advanceGraphics (group : Option GraphicsGroup) :
    (advanceGraphics ⟨.inGraphics group, payload, #[], false⟩ group b).2.Settled := by
  unfold advanceGraphics
  dsimp only
  split_ifs
  · refine settled_beginEscape (text_completeGraphics_of_empty (text_capitalizeLast _) _) ?_
    rw [swallowLineFeed_completeGraphics, swallowLineFeed_capitalizeLast]
  · exact settled_of_ne rfl hindex (by simp)
  · exact settled_completeGraphics rfl hindex _
  · exact settled_of_ne rfl hindex (by simp [goto])

/-- A byte of a device sequence is collected or completes it. -/
theorem settled_advanceDevice (group : Option DeviceGroup) :
    (advanceDevice ⟨.inDevice group, payload, #[], false⟩ group b).2.Settled := by
  unfold advanceDevice
  dsimp only
  split <;> exact settled_of_ne rfl hindex (by simp [goto])

/-- Graphics text goes on with its text, or is handed over where the next sequence begins. -/
theorem tidy_advanceText (text : Array UInt8) :
    (advanceText ⟨.graphicsText, payload, text, false⟩ b).2.Tidy := by
  unfold advanceText
  split
  · refine ⟨fun _ _ => text_takeText _, ?_, fun _ => ⟨?_, ?_⟩⟩
    · rw [payload_takeText]
      rfl
    · rw [payload_takeText]
      rfl
    · rw [swallowLineFeed_takeText]
      rfl
  · exact ⟨fun h => absurd rfl h, hindex, fun h => nomatch h⟩

/-- A label goes on with its text, or is handed over at its end. -/
theorem tidy_advanceLabel (text : Array UInt8) :
    (advanceLabel ⟨.graphicsLabel, payload, text, false⟩ b).2.Tidy := by
  unfold advanceLabel
  split
  · refine (settled_of_ne (text_takeText _) ?_ ?_).toTidy
    · rw [payload_takeText, hindex]
    · rw [phase_takeText]
      simp
  · exact ⟨fun _ h => absurd rfl h, hindex, fun h => nomatch h⟩

end

/-- Outside of graphics text and labels a byte leaves no text. -/
theorem Tidy.settled_advance (h : p.Tidy) (hgraphics : p.phase ≠ .graphicsText)
    (hlabel : p.phase ≠ .graphicsLabel) (b : UInt8) : (p.advance b).2.Settled := by
  obtain ⟨phase, payload, text, swallow⟩ := p
  obtain ⟨htext, hindex, hopened⟩ := h
  obtain rfl : text = #[] := htext hgraphics hlabel
  unfold Parser.advance
  dsimp only at hindex hopened ⊢
  split
  · exact ⟨⟨htext, hindex, fun hphase => ⟨(hopened hphase).1, rfl⟩⟩, rfl⟩
  · cases phase with
    | idle => exact settled_advanceIdle hindex b (.inl rfl)
    | awaitClick => exact settled_advanceIdle hindex b (.inr rfl)
    | inEscape => exact settled_advanceEscape hindex b
    | inBracket => exact settled_advanceBracket hindex b
    | inGraphics group => exact settled_advanceGraphics hindex b group
    | inDevice group => exact settled_advanceDevice hindex b group
    | inCharset => exact settled_of_ne rfl hindex (by simp [advanceCharset, goto])
    | graphicsText => exact absurd rfl hgraphics
    | graphicsLabel => exact absurd rfl hlabel

/-- Every byte leaves a tidy parser. -/
theorem Tidy.advance (h : p.Tidy) (b : UInt8) : (p.advance b).2.Tidy := by
  by_cases hgraphics : p.phase = .graphicsText
  · obtain ⟨phase, payload, text, swallow⟩ := p
    subst hgraphics
    unfold Parser.advance
    dsimp only
    split
    · exact ⟨h.text_eq, h.index_eq, fun hphase => nomatch hphase⟩
    · exact tidy_advanceText h.index_eq b text
  by_cases hlabel : p.phase = .graphicsLabel
  · obtain ⟨phase, payload, text, swallow⟩ := p
    subst hlabel
    unfold Parser.advance
    dsimp only
    split
    · exact ⟨h.text_eq, h.index_eq, fun hphase => nomatch hphase⟩
    · exact tidy_advanceLabel h.index_eq b text
  exact (h.settled_advance hgraphics hlabel b).toTidy

/-- A status query leaves no text, so the parser can wait for a click. -/
theorem Tidy.awaitClick (h : p.Tidy) {query : Option Int}
    (hquery : (p.advance b).1 = some (.status query)) : (p.advance b).2.awaitClick.Tidy := by
  have houtside : p.phase ≠ .graphicsText ∧ p.phase ≠ .graphicsLabel := by
    rw [← not_or]
    intro htext
    obtain ⟨text, heq⟩ := advance_of_text htext hquery
    cases heq
  have hsettled := h.settled_advance houtside.1 houtside.2 b
  exact ⟨fun _ _ => hsettled.text_empty, hsettled.index_eq, fun hphase => nomatch hphase⟩

/-- The end of a wait leads between sequences, where nothing is kept. -/
theorem Tidy.clickResolved (h : p.Tidy) : p.clickResolved.Tidy := by
  unfold Parser.clickResolved
  split
  · rename_i hphase
    have htext := h.text_eq (by simp [hphase]) (by simp [hphase])
    exact ⟨fun _ _ => htext, h.index_eq, fun hopened => nomatch hopened⟩
  · exact h

/-- Every reached parser is tidy. -/
theorem Reached.tidy (h : p.Reached) : p.Tidy := by
  induction h with
  | initial => exact tidy_initial
  | advance b _ ih => exact ih.advance b
  | awaitClick _ hquery ih => exact ih.awaitClick hquery
  | clickResolved _ ih => exact ih.clickResolved

/-- The parser behind the first escape byte of a stream is reached. -/
theorem reached_opened : (initial.advance Byte.esc).2.Reached := .advance Byte.esc .initial

/-- What a reached parser leads to is reached, by induction over the stream. -/
theorem Reached.feed (h : p.Reached) (bytes : List UInt8) : (p.feed bytes).2.Reached := by
  induction bytes generalizing p with
  | nil => exact h
  | cons b rest ih => exact ih (h.advance b)

/-! ## One byte of a graphics sequence -/

/-- Inside a graphics sequence every byte but a line feed, which may be swallowed, is a byte
of the sequence. -/
theorem advance_of_inGraphics (hphase : p.phase = .inGraphics group) (hb : b ≠ Byte.lf) :
    p.advance b = { p with swallowLineFeed := false }.advanceGraphics group b := by
  have hline : ¬ (p.swallowLineFeed && b == Byte.lf) = true := by simp [hb]
  unfold Parser.advance
  rw [if_neg hline]
  simp only [hphase]

/-- The letter that was collected last is the one that is made a capital one. -/
theorem capitalizeLast_push (hindex : p.payload.index = 0) (letter : UInt8) :
    { p with payload := p.payload.push letter }.capitalizeLast =
      { p with payload := p.payload.push (Byte.upper letter) } := by
  obtain ⟨phase, ⟨bytes, index⟩, text, swallow⟩ := p
  obtain rfl : index = 0 := hindex
  simp [capitalizeLast, Payload.last?, Payload.push, Payload.dropLast]

/-- A complete sequence is followed by an escape byte as an interrupted one is: the switch to
graphics text, if there was one, has no effect. -/
theorem advance_completeGraphics (htext : p.text = #[]) (hswallow : p.swallowLineFeed = false)
    (group : Option GraphicsGroup) :
    (p.completeGraphics group).2.beginEscape = within #[] .inEscape [] ∧
      (p.completeGraphics group).2.advance Byte.esc = (none, within #[] .inEscape []) := by
  obtain ⟨phase, payload, text, swallow⟩ := p
  subst htext hswallow
  unfold completeGraphics
  dsimp only
  split
  · exact ⟨rfl, rfl⟩
  · exact ⟨rfl, rfl⟩

/-- A byte that neither ends the sequence nor opens a label is collected. -/
theorem advanceGraphics_of_inside (hesc : b ≠ Byte.esc) (hlabel : ¬ (group = none ∧ b = 0x6C))
    (hb : isTerminator b = false) :
    p.advanceGraphics group b =
      (none, (p.collect b).goto (.inGraphics (some (group.getD (.ofByte b))))) := by
  simp [advanceGraphics, hesc, hlabel, hb]

/-- A terminator completes the sequence. -/
theorem advanceGraphics_of_terminator (hb : isTerminator b = true) :
    p.advanceGraphics group b =
      (some ((p.collect b).completeGraphics (some (group.getD (.ofByte b)))).1,
        ((p.collect b).completeGraphics (some (group.getD (.ofByte b)))).2) := by
  have hesc : b ≠ Byte.esc := by
    rintro rfl
    cases hb
  have hlabel : ¬ (group = none ∧ b = 0x6C) := by
    rintro ⟨-, rfl⟩
    cases hb
  simp [advanceGraphics, hesc, hlabel, hb]

/-- A collected sequence is interrupted as if its last letter had been a capital one. -/
theorem capitalizeLast_within (text : Array UInt8) (phase : Phase) (b : UInt8)
    (bytes : List UInt8) :
    (within text phase (b :: bytes)).capitalizeLast =
      within text phase (Byte.capitalizeLast (b :: bytes)) := by
  obtain ⟨last, hlast⟩ : ∃ last, (b :: bytes).getLast? = some last :=
    ⟨_, List.getLast?_eq_some_getLast (List.cons_ne_nil b bytes)⟩
  simp [within, capitalizeLast, Payload.last?, Payload.ofList, Payload.dropLast, Payload.push,
    Byte.capitalizeLast, hlast]

/-! ## Sequences behind an escape byte -/

/-- The last byte of a sequence ends it, and no other byte does. -/
structure IsClosed (bytes : List UInt8) : Prop where
  inner : ∀ b ∈ bytes.dropLast, isTerminator b = false
  last : ∃ b ∈ bytes.getLast?, isTerminator b = true

/-- A closed sequence is its inner bytes and the one that ends it. -/
theorem IsClosed.exists_concat {bytes : List UInt8} (h : IsClosed bytes) :
    ∃ inner last, bytes = inner ++ [last] ∧ (∀ b ∈ inner, isTerminator b = false) ∧
      isTerminator last = true := by
  obtain ⟨last, hlast, hends⟩ := h.last
  exact ⟨bytes.dropLast, last, (List.dropLast_append_getLast? last hlast).symm, h.inner, hends⟩

/-- A closed sequence has at least the byte that ends it. -/
theorem IsClosed.ne_nil {bytes : List UInt8} (h : IsClosed bytes) : bytes ≠ [] := by
  rintro rfl
  obtain ⟨b, hb, -⟩ := h.last
  cases hb

/-- Only the back of a sequence can close it. -/
theorem isClosed_append {front back : List UInt8} (hback : back ≠ []) :
    IsClosed (front ++ back) ↔ (∀ b ∈ front, isTerminator b = false) ∧ IsClosed back := by
  constructor
  · rintro ⟨hinner, hlast⟩
    rw [List.dropLast_append_of_ne_nil hback] at hinner
    rw [List.getLast?_append_of_ne_nil _ hback] at hlast
    exact ⟨fun b hb => hinner b (List.mem_append_left _ hb),
      fun b hb => hinner b (List.mem_append_right _ hb), hlast⟩
  · rintro ⟨hfront, hinner, hlast⟩
    refine ⟨fun b hb => ?_, ?_⟩
    · rw [List.dropLast_append_of_ne_nil hback] at hb
      exact (List.mem_append.1 hb).elim (hfront b) (hinner b)
    · rwa [List.getLast?_append_of_ne_nil _ hback]

/-- A byte that ends nothing can be put in front. -/
theorem IsClosed.cons {bytes : List UInt8} (hb : isTerminator b = false) (h : IsClosed bytes) :
    IsClosed (b :: bytes) :=
  have hopened : IsClosed ([b] ++ bytes) :=
    (isClosed_append h.ne_nil).2 ⟨List.forall_mem_singleton.2 hb, h⟩
  hopened

section

variable {selector : UInt8} {body : List UInt8} (hp : p.Reached) (hphase : p.phase = .inEscape)
include hp hphase

/-- A device sequence that is closed asks for one action. -/
theorem feed_device (hclosed : IsClosed (selector :: body)) :
    ∃ last, (p.feed (0x26 :: selector :: body)).1 =
      [deviceAction (.ofByte selector) (.ofList (0x26 :: selector :: body)) last] := by
  obtain ⟨inner, last, hbytes, hinner, hlast⟩ := hclosed.exists_concat
  have hselector : inner.headD last = selector := by
    cases inner with
    | nil => exact (List.head_eq_of_cons_eq hbytes).symm
    | cons first more => exact (List.head_eq_of_cons_eq hbytes).symm
  have hcollected : (within #[] (.inDevice none) [0x26]).feed inner =
      ([], within #[] (.inDevice (inner.head?.map .ofByte)) (0x26 :: inner)) :=
    feed_within (fun collected => .inDevice (collected.head?.map .ofByte))
      (fun _ b => isTerminator b = false)
      (fun collected b hb => by rw [advance_within_device, if_neg (Bool.eq_false_iff.1 hb)])
      [] inner (fun front b back heq => hinner b (by simp [heq]))
  have hopened : p.advance 0x26 = (none, within #[] (.inDevice none) [0x26]) := by
    rw [hp.tidy.eq_within hphase]
    rfl
  refine ⟨last, ?_⟩
  rw [hbytes, feed, hopened, feed_append, hcollected, feed_singleton, advance_within_device,
    if_pos hlast, hselector]
  rfl

/-- The bytes of a graphics sequence are collected, and the first names the group. -/
theorem feed_graphics_inside {bytes : List UInt8} (hlabel : bytes.head? ≠ some 0x6C)
    (hinside : ∀ b ∈ bytes, isTerminator b = false) (hesc : Byte.esc ∉ bytes) :
    p.feed (0x2A :: bytes) =
      ([], within #[] (.inGraphics (bytes.head?.map .ofByte)) (0x2A :: bytes)) := by
  have hquiet : ∀ front b back, bytes = front ++ b :: back →
      isTerminator b = false ∧ b ≠ Byte.esc ∧ (front = [] → b ≠ 0x6C) := by
    intro front b back heq
    refine ⟨hinside b (by simp [heq]), ?_, ?_⟩
    · rintro rfl
      exact hesc (by simp [heq])
    · rintro rfl rfl
      exact hlabel (by simp [heq])
  have hcollected : (within #[] (.inGraphics none) [0x2A]).feed bytes =
      ([], within #[] (.inGraphics (bytes.head?.map .ofByte)) (0x2A :: bytes)) :=
    feed_within (fun collected => .inGraphics (collected.head?.map .ofByte))
      (fun collected b => isTerminator b = false ∧ b ≠ Byte.esc ∧ (collected = [] → b ≠ 0x6C))
      (fun collected b ⟨hb, hesc, hfirst⟩ => advance_within_graphics collected b hesc hfirst hb)
      [] bytes hquiet
  have hopened : p.advance 0x2A = (none, within #[] (.inGraphics none) [0x2A]) := by
    rw [hp.tidy.eq_within hphase]
    rfl
  rw [feed, hopened, hcollected]
  rfl

/-- A graphics sequence that is closed asks for one action. -/
theorem feed_graphics (hlabel : selector ≠ 0x6C) (hclosed : IsClosed (selector :: body))
    (hesc : Byte.esc ∉ selector :: body) :
    (p.feed (0x2A :: selector :: body)).1 = [sequenceAction selector body] := by
  obtain ⟨inner, last, hbytes, hinner, hlast⟩ := hclosed.exists_concat
  have hfirst : inner.head? ≠ some 0x6C := by
    intro hhead
    obtain ⟨more, rfl⟩ := List.head?_eq_some_iff.1 hhead
    exact hlabel (List.head_eq_of_cons_eq hbytes)
  have hgroup : (inner.head?.map GraphicsGroup.ofByte).getD (.ofByte last) = .ofByte selector := by
    cases inner with
    | nil => exact congrArg GraphicsGroup.ofByte (List.head_eq_of_cons_eq hbytes).symm
    | cons first more => exact congrArg GraphicsGroup.ofByte (List.head_eq_of_cons_eq hbytes).symm
  have hcollected := feed_graphics_inside hp hphase hfirst hinner
    (fun hmem => hesc (by rw [hbytes]; exact List.mem_append_left _ hmem))
  have hadvanced : (within #[] (.inGraphics (inner.head?.map .ofByte)) (0x2A :: inner)).advance
      last = (within #[] (.inGraphics (inner.head?.map .ofByte)) (0x2A :: inner)).advanceGraphics
        (inner.head?.map .ofByte) last := rfl
  have hwhole : (0x2A :: selector :: body : List UInt8) = (0x2A :: inner) ++ [last] := by
    rw [hbytes]
    rfl
  rw [hwhole, feed_append, hcollected, feed_singleton, hadvanced,
    advanceGraphics_of_terminator hlast, hgroup, (completeGraphics_eq _ _).1, sequenceAction,
    sequenceBytes, hwhole, ← Payload.ofList_push]
  rfl

/-- A graphics sequence that an escape byte interrupts asks for one action, with the last byte
made a capital letter. -/
theorem feed_graphics_esc (hlabel : selector ≠ 0x6C)
    (hinside : ∀ b ∈ selector :: body, isTerminator b = false)
    (hesc : Byte.esc ∉ selector :: body) :
    (p.feed (0x2A :: selector :: (body ++ [Byte.esc]))).1 =
      [graphicsAction (some (.ofByte selector))
        (.ofList (Byte.capitalizeLast (0x2A :: selector :: body)))] := by
  have hfirst : (selector :: body).head? ≠ some 0x6C := fun heq => hlabel (Option.some.inj heq)
  have hcollected := feed_graphics_inside hp hphase hfirst hinside hesc
  have hadvanced : (within #[] (.inGraphics (some (.ofByte selector)))
      (0x2A :: selector :: body)).advance Byte.esc =
      (within #[] (.inGraphics (some (.ofByte selector)))
        (0x2A :: selector :: body)).advanceGraphics (some (.ofByte selector)) Byte.esc := rfl
  have hwhole : (0x2A :: selector :: (body ++ [Byte.esc]) : List UInt8) =
      (0x2A :: selector :: body) ++ [Byte.esc] := rfl
  rw [advanceGraphics, if_pos rfl, capitalizeLast_within] at hadvanced
  rw [hwhole, feed_append, hcollected, feed_singleton]
  simp only [List.head?_cons, Option.map_some, hadvanced, (completeGraphics_eq _ _).1]
  rfl

end

end Parser

end GraphicsTerminal
