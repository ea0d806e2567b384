import GraphicsTerminal.Proofs.Protocol.Units

/-!
# Captured texts

Graphics text and labels are collected byte by byte, whatever the bytes are, up to the byte that
ends them.  That byte hands the whole text over, and then the parser is as it would be without
the text: an escape byte opens the next sequence, and behind a label only a line feed that
follows a carriage return at once still belongs to it.

Main definitions:

- {lit}`Parser.captured?`: the action of a collected text.
- {lit}`Parser.CapturesText`: graphics text is captured whole.
- {lit}`Parser.CapturesLabel`: a label is captured whole.

Main results:

- Theorems {lit}`Parser.feed_text` and {lit}`Parser.advance_textEnd`: the bytes of graphics text,
  and its end.
- Theorem {lit}`Parser.feed_labelEnd`: the end of a label.
- Theorem {lit}`Parser.AtBoundary.captures`: both kinds of texts between two units.
-/

namespace GraphicsTerminal

namespace Parser

/-- The action of a collected text; an empty one has none. -/
def captured? (text : List UInt8) : Option Action :=
  if text = [] then none else some (.graphicsText (Text.ofBytes text))

/-- The sequence that begins graphics text. -/
def textStart : List UInt8 := [Byte.esc, 0x2A, 0x64, 0x53]

/-- The sequence that begins a label. -/
def labelStart : List UInt8 := [Byte.esc, 0x2A, 0x6C]

/-- Graphics text is captured whole.  Behind the display action its bytes complete nothing, and
the next escape byte hands over the text and opens a sequence, as it does in a new parser. -/
structure CapturesText (p : Parser) (text : List UInt8) : Prop where
  quiet : ∀ front, front <+: text →
    (p.feed (textStart ++ front)).1 =
        (p.advance Byte.esc).1.toList ++ [.display [.enterGraphicsText]] ∧
      (p.feed (textStart ++ front)).2.phase = .graphicsText
  handsOver : (p.feed (textStart ++ text ++ [Byte.esc])).1 =
    (p.advance Byte.esc).1.toList ++ [.display [.enterGraphicsText]] ++ (captured? text).toList
  opens : (p.feed (textStart ++ text ++ [Byte.esc])).2 = (initial.advance Byte.esc).2

/-- A label is captured whole.  Its bytes complete nothing, and a line feed, a carriage return,
or both of them hand over the text and end the label.  A line feed behind a carriage return
belongs to the label, and everything else behind its end is taken as by a new parser. -/
structure CapturesLabel (p : Parser) (text : List UInt8) : Prop where
  quiet : ∀ front, front <+: text →
    (p.feed (labelStart ++ front)).1 = (p.advance Byte.esc).1.toList ∧
      (p.feed (labelStart ++ front)).2.phase = .graphicsLabel
  handsOver : ∀ ending ∈ [[Byte.lf], [Byte.cr], [Byte.cr, Byte.lf]],
    (p.feed (labelStart ++ text ++ ending)).1 =
        (p.advance Byte.esc).1.toList ++ (captured? text).toList ∧
      (p.feed (labelStart ++ text ++ ending)).2.phase = .idle
  passes : ∀ ending ∈ [[Byte.lf], [Byte.cr, Byte.lf]], ∀ rest,
    ((p.feed (labelStart ++ text ++ ending)).2.feed rest).1 = (initial.feed rest).1
  passes_cr : ∀ b ≠ Byte.lf, ∀ rest,
    ((p.feed (labelStart ++ text ++ [Byte.cr])).2.feed (b :: rest)).1 =
      (initial.feed (b :: rest)).1

/-! ## Handing over -/

/-- A collected text is handed over whole. -/
theorem takeText_eq (p : Parser) : p.takeText = (captured? p.text.toList, { p with text := #[] }) := by
  obtain ⟨phase, payload, text, swallow⟩ := p
  unfold takeText captured?
  by_cases hempty : text = #[]
  · subst hempty
    rfl
  · have hlist : ¬ text.toList = [] := fun hnil => hempty (Array.toList_eq_nil_iff.1 hnil)
    have hsome : ¬ text.isEmpty = true := fun hnone => hempty (Array.isEmpty_iff.1 hnone)
    rw [if_neg hlist, if_neg hsome]

/-! ## Graphics text -/

/-- The bytes of graphics text are collected. -/
theorem feed_text (payload : Payload) {text : List UInt8} (htext : Byte.esc ∉ text) :
    (Parser.mk .graphicsText payload #[] false).feed text =
      ([], ⟨.graphicsText, payload, text.toArray, false⟩) := by
  have hquiet : ∀ b ∈ text, b ≠ Byte.esc := fun b hb heq => htext (heq ▸ hb)
  have hstep (collected : Array UInt8) (b : UInt8) (hb : b ≠ Byte.esc) :
      (Parser.mk .graphicsText payload collected false).advance b =
        (none, ⟨.graphicsText, payload, collected.push b, false⟩) := if_neg hb
  rw [feed_collected hstep #[] hquiet, Array.empty_append]

/-- An escape byte ends graphics text and opens a sequence. -/
theorem advance_textEnd (payload : Payload) (text : List UInt8) :
    (Parser.mk .graphicsText payload text.toArray false).advance Byte.esc =
      (captured? text, (initial.advance Byte.esc).2) := by
  change (beginEscape ⟨.graphicsText, payload, text.toArray, false⟩).takeText = _
  rw [takeText_eq]
  rfl

/-- The sequence that begins graphics text completes the display action. -/
theorem feed_textStart (text : Array UInt8) :
    (within text .inEscape []).feed [0x2A, 0x64, 0x53] =
      ([.display [.enterGraphicsText]],
        ⟨.graphicsText, Payload.ofList [0x2A, 0x64, 0x53], #[], false⟩) := by
  cbv

/-! ## Labels -/

/-- A line end ends a label; only a carriage return makes the parser wait for a line feed. -/
theorem advance_labelEnd (payload : Payload) (text : List UInt8) {b : UInt8}
    (hb : b = Byte.cr ∨ b = Byte.lf) :
    (Parser.mk .graphicsLabel payload text.toArray false).advance b =
      (captured? text, ⟨.idle, payload, #[], b == Byte.cr⟩) := by
  have hadvanced : (Parser.mk .graphicsLabel payload text.toArray false).advance b =
      takeText ⟨.idle, payload, text.toArray, b == Byte.cr⟩ := if_pos hb
  rw [hadvanced, takeText_eq]

/-- The end of a label hands it over.  Only behind a carriage return alone a line feed may still
belong to it. -/
theorem feed_labelEnd (payload : Payload) (text : List UInt8) {ending : List UInt8}
    (hending : ending ∈ [[Byte.lf], [Byte.cr], [Byte.cr, Byte.lf]]) :
    (Parser.mk .graphicsLabel payload text.toArray false).feed ending =
      ((captured? text).toList, ⟨.idle, payload, #[], ending == [Byte.cr]⟩) := by
  have hline {b : UInt8} (hb : b = Byte.cr ∨ b = Byte.lf) :
      (Parser.mk .graphicsLabel payload text.toArray false).feed [b] =
        ((captured? text).toList, ⟨.idle, payload, #[], b == Byte.cr⟩) := by
    rw [feed_singleton, advance_labelEnd _ _ hb]
  simp only [List.mem_cons, List.not_mem_nil, or_false] at hending
  rcases hending with rfl | rfl | rfl
  · exact hline (.inr rfl)
  · exact hline (.inl rfl)
  · have hsplit : [Byte.cr, Byte.lf] = [Byte.cr] ++ [Byte.lf] := rfl
    rw [hsplit, feed_append, hline (.inl rfl), feed_singleton, advance_swallowed rfl]
    exact congrArg (·, _) (List.append_nil _)

/-- Behind the end of a label the actions are those of a new parser. -/
theorem feed_idle (payload : Payload) (rest : List UInt8) :
    ((Parser.mk .idle payload #[] false).feed rest).1 = (initial.feed rest).1 := by
  have houtlook : (Parser.mk .idle payload #[] false).outlook = initial.outlook := rfl
  exact feed_fst_eq houtlook rest

/-- Behind a carriage return this holds unless a line feed comes next. -/
theorem feed_swallow (payload : Payload) {b : UInt8} (hb : b ≠ Byte.lf) (rest : List UInt8) :
    ((Parser.mk .idle payload #[] true).feed (b :: rest)).1 = (initial.feed (b :: rest)).1 := by
  have hpast : (Parser.mk .idle payload #[] true).pastLabel.advance b =
      (Parser.mk .idle payload #[] true).advance b := advance_pastLabel fun _ => hb
  rw [feed, ← hpast]
  exact feed_idle payload (b :: rest)

/-! ## Between two units -/

variable {p : Parser} {text : List UInt8}

/-- Between two units graphics text is captured whole. -/
theorem AtBoundary.capturesText (h : p.AtBoundary) (htext : Byte.esc ∉ text) :
    p.CapturesText text := by
  obtain ⟨earlier, hopened, -⟩ := h.advance_esc
  have hstart (front : List UInt8) (hfront : Byte.esc ∉ front) :
      p.feed (textStart ++ front) =
        ((p.advance Byte.esc).1.toList ++ [.display [.enterGraphicsText]],
          ⟨.graphicsText, Payload.ofList [0x2A, 0x64, 0x53], front.toArray, false⟩) := by
    rw [feed_append, textStart, feed, hopened, feed_textStart, feed_text _ hfront, List.append_nil]
  have hend := hstart text htext
  exact
    { quiet := by
        intro front hfront
        rw [hstart front fun hmem => htext (hfront.subset hmem)]
        exact ⟨rfl, rfl⟩
      handsOver := by
        rw [feed_append, hend, feed_singleton, advance_textEnd]
      opens := by
        rw [feed_append, hend, feed_singleton, advance_textEnd] }

/-- Between two units a label is captured whole. -/
theorem AtBoundary.capturesLabel (h : p.AtBoundary)
    (htext : ∀ b ∈ text, b ≠ Byte.cr ∧ b ≠ Byte.lf) : p.CapturesLabel text := by
  obtain ⟨earlier, hopened, -⟩ := h.advance_esc
  have hbegin : (within earlier .inEscape []).feed [0x2A, 0x6C] =
      ([], ⟨.graphicsLabel, Payload.ofList [0x2A], #[], false⟩) := rfl
  have hstart (front : List UInt8) (hfront : ∀ b ∈ front, b ≠ Byte.cr ∧ b ≠ Byte.lf) :
      p.feed (labelStart ++ front) = ((p.advance Byte.esc).1.toList,
        ⟨.graphicsLabel, Payload.ofList [0x2A], front.toArray, false⟩) := by
    rw [feed_append, labelStart, feed, hopened, hbegin, feed_label _ _ hfront, List.append_nil,
      List.append_nil, Array.empty_append]
  have hend {ending : List UInt8} (hending : ending ∈ [[Byte.lf], [Byte.cr], [Byte.cr, Byte.lf]]) :
      p.feed (labelStart ++ text ++ ending) =
        ((p.advance Byte.esc).1.toList ++ (captured? text).toList,
          ⟨.idle, .ofList [0x2A], #[], ending == [Byte.cr]⟩) := by
    rw [feed_append, hstart text htext, feed_labelEnd _ _ hending]
  exact
    { quiet := by
        intro front hfront
        rw [hstart front fun b hb => htext b (hfront.subset hb)]
        exact ⟨rfl, rfl⟩
      handsOver := by
        intro ending hending
        rw [hend hending]
        exact ⟨rfl, rfl⟩
      passes := by
        intro ending hending rest
        rcases List.mem_pair.1 hending with rfl | rfl
        · rw [hend (.head _)]
          exact feed_idle _ rest
        · rw [hend (.tail _ (.tail _ (.head _)))]
          exact feed_idle _ rest
      passes_cr := by
        intro b hb rest
        rw [hend (.tail _ (.head _))]
        exact feed_swallow _ hb rest }

/-- Between two units texts are captured whole, whatever bytes they hold.  The escape byte that
begins the sequence hands over the text before it, if there is one. -/
theorem AtBoundary.captures (h : p.AtBoundary) (text label : List UInt8) :
    (p.advance Byte.esc).1 =
        (if p.phase = .graphicsText then captured? p.text.toList else none) ∧
      (Byte.esc ∉ text → p.CapturesText text) ∧
      ((∀ b ∈ label, b ≠ Byte.cr ∧ b ≠ Byte.lf) → p.CapturesLabel label) := by
  refine ⟨?_, h.capturesText, h.capturesLabel⟩
  obtain ⟨phase, payload, earlier, swallow⟩ := p
  have hline : (swallow && Byte.esc == Byte.lf) = false := Bool.and_false _
  rcases h with rfl | rfl | rfl
  · rw [Parser.advance_esc (.inl rfl)]
    rfl
  · rw [Parser.advance_esc (.inr rfl)]
    rfl
  · rw [advance, hline, if_pos rfl]
    change (takeText _).1 = _
    rw [takeText_eq]
    rfl

/-- Texts that look like commands, behind graphics text that has not ended yet. -/
theorem AtBoundary.captures_commands :
    let p : Parser := ⟨.graphicsText, .empty, #[0x41], true⟩
    p.AtBoundary ∧ (p.advance Byte.esc).1 = captured? [0x41] ∧
      Byte.esc ∉ [Byte.lf, 0x5B, 0x4A, Byte.dc1] ∧
      p.CapturesText [Byte.lf, 0x5B, 0x4A, Byte.dc1] ∧
      (∀ b ∈ [Byte.esc, 0x5B, 0x4A], b ≠ Byte.cr ∧ b ≠ Byte.lf) ∧
      p.CapturesLabel [Byte.esc, 0x5B, 0x4A] := by
  intro p
  have hboundary : p.AtBoundary := .inr (.inr rfl)
  have hescape : Byte.esc ∉ [Byte.lf, 0x5B, 0x4A, Byte.dc1] := by decide
  have hline : ∀ b ∈ [Byte.esc, 0x5B, 0x4A], b ≠ Byte.cr ∧ b ≠ Byte.lf := by
    simp only [List.forall_mem_cons, List.not_mem_nil, IsEmpty.forall_iff, implies_true, and_true]
    decide
  obtain ⟨hearlier, htext, hlabel⟩ :=
    AtBoundary.captures hboundary [Byte.lf, 0x5B, 0x4A, Byte.dc1] [Byte.esc, 0x5B, 0x4A]
  exact ⟨hboundary, hearlier, hescape, htext hescape, hline, hlabel hline⟩

end Parser

end GraphicsTerminal
