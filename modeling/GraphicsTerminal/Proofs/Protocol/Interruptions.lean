import GraphicsTerminal.Proofs.Protocol.Reached

/-!
# Interrupted sequences

An escape byte inside a graphics sequence ends it, and opens the next one.  The letter in
front of it stands for the missing end: the sequence does what it does when that letter is a
capital one.  It makes no difference that a complete sequence may switch to graphics text
and an interrupted one does not: the text is empty when the escape byte arrives.

Main results:

- Theorem {lit}`Parser.Tidy.advance_interrupted`: the letter in front of an escape byte, and
  the capital letter in its place.
- Theorem {lit}`Parser.feed_interrupted`: an interrupted sequence.
-/

namespace GraphicsTerminal

namespace Parser

variable {p : Parser} {b letter : UInt8} {group : Option GraphicsGroup}

/-! ## The letter in front of an escape byte -/

/-- A small letter that stays inside a graphics sequence was taken inside of one. -/
theorem exists_inGraphics (hletter : Byte.isLower letter = true)
    (hinside : (p.advance letter).2.phase = .inGraphics group) :
    ∃ earlier, p.phase = .inGraphics earlier := by
  obtain ⟨phase, payload, text, swallow⟩ := p
  unfold Parser.advance at hinside
  dsimp only at hinside
  split at hinside
  · exact ⟨group, hinside⟩
  · cases phase with
    | inGraphics earlier => exact ⟨earlier, rfl⟩
    | idle | awaitClick =>
      simp only [advanceIdle] at hinside
      split_ifs at hinside
      all_goals cases hinside
    | inEscape =>
      simp only [advanceEscape] at hinside
      split at hinside
      case h_2 hstar =>
        obtain rfl : letter = 0x2A := UInt8.toNat_inj.1 (congrArg Char.toNat hstar)
        cases hletter
      all_goals cases hinside
    | inBracket =>
      simp only [advanceBracket] at hinside
      split at hinside <;> cases hinside
    | inDevice device =>
      simp only [advanceDevice] at hinside
      split at hinside <;> cases hinside
    | inCharset => cases hinside
    | graphicsText =>
      simp only [advanceText] at hinside
      split at hinside
      · rw [phase_takeText] at hinside
        cases hinside
      · cases hinside
    | graphicsLabel =>
      simp only [advanceLabel] at hinside
      split at hinside
      · rw [phase_takeText] at hinside
        cases hinside
      · cases hinside

theorem isTerminator_upper (hletter : Byte.isLower letter = true) :
    isTerminator (Byte.upper letter) = true := by
  simp [isTerminator, Byte.isUpper_upper hletter]

/-- Capital and small letters name the same group. -/
theorem ofByte_upper (hletter : Byte.isLower letter = true) :
    GraphicsGroup.ofByte (Byte.upper letter) = .ofByte letter := by
  rw [GraphicsGroup.ofByte, Byte.lower_upper hletter, GraphicsGroup.ofByte,
    Byte.lower_of_isLower hletter]

/-- The letter in front of an escape byte does what the capital letter does in its place. -/
theorem Tidy.advance_interrupted (h : p.Tidy) (hletter : Byte.isLower letter = true)
    (hinside : (p.advance letter).2.phase = .inGraphics group) :
    ∃ action, (p.advance letter).1 = none ∧
      (p.advance letter).2.advance Byte.esc = (some action, within #[] .inEscape []) ∧
      (p.advance (Byte.upper letter)).1 = some action ∧
      (p.advance (Byte.upper letter)).2.advance Byte.esc =
        (none, within #[] .inEscape []) := by
  obtain ⟨earlier, hphase⟩ := exists_inGraphics hletter hinside
  have htext := h.text_eq (by simp [hphase]) (by simp [hphase])
  have hindex := h.index_eq
  have hesc : letter ≠ Byte.esc := by
    rintro rfl
    cases hletter
  have hline : letter ≠ Byte.lf := by
    rintro rfl
    cases hletter
  have hlineUpper : Byte.upper letter ≠ Byte.lf := by
    intro heq
    have hcapital := Byte.isUpper_upper hletter
    rw [heq] at hcapital
    cases hcapital
  rw [advance_of_inGraphics hphase hline] at hinside ⊢
  rw [advance_of_inGraphics hphase hlineUpper]
  have hlabel : ¬ (earlier = none ∧ letter = 0x6C) := by
    intro hlabel
    rw [advanceGraphics, if_neg hesc, if_pos hlabel] at hinside
    cases hinside
  rw [advanceGraphics_of_inside hesc hlabel (isTerminator_of_isLower hletter),
    advanceGraphics_of_terminator (isTerminator_upper hletter), ofByte_upper hletter]
  -- Both runs complete the same bytes, in parsers that differ in their phase alone.
  generalize earlier.getD (.ofByte letter) = named
  obtain ⟨phase, payload, text, swallow⟩ := p
  obtain rfl : text = #[] := htext
  have hcapital := capitalizeLast_push (p := ⟨.inGraphics (some named), payload, #[], false⟩)
    hindex letter
  have hinterrupted := advance_completeGraphics
    (p := ⟨.inGraphics (some named), payload.push (Byte.upper letter), #[], false⟩) rfl rfl
    (some named)
  have hcompleted := advance_completeGraphics
    (p := ⟨phase, payload.push (Byte.upper letter), #[], false⟩) rfl rfl (some named)
  refine ⟨graphicsAction (some named) (payload.push (Byte.upper letter)), rfl, ?_, ?_,
    hcompleted.2⟩
  · rw [advance_of_inGraphics (rfl : _ = Phase.inGraphics (some named)) (by decide),
      advanceGraphics, if_pos rfl]
    dsimp only [goto, collect] at hcapital ⊢
    rw [hcapital, hinterrupted.1, (completeGraphics_eq _ _).1]
  · exact congrArg some (completeGraphics_eq _ _).1

/-! ## Interrupted sequences -/

/-- An escape byte in a graphics sequence stands for the missing end: the actions and the
parser are those of the sequence that ends with the capital letter. -/
theorem feed_interrupted (hp : p.Reached) {body : List UInt8}
    (hletter : Byte.isLower letter = true)
    (hinside : (p.feed (Byte.esc :: 0x2A :: (body ++ [letter]))).2.phase = .inGraphics group) :
    p.feed (Byte.esc :: 0x2A :: (body ++ [letter, Byte.esc])) =
        p.feed (Byte.esc :: 0x2A :: (body ++ [Byte.upper letter, Byte.esc])) ∧
      (p.feed (Byte.esc :: 0x2A :: (body ++ [letter, Byte.esc]))).2 =
        ⟨.inEscape, .empty, #[], false⟩ ∧
      ∃ action, (p.feed (Byte.esc :: 0x2A :: (body ++ [letter, Byte.esc]))).1 =
        (p.feed (Byte.esc :: 0x2A :: (body ++ [letter]))).1 ++ [action] := by
  have hcut (back : List UInt8) : p.feed (Byte.esc :: 0x2A :: (body ++ back)) =
      ((p.feed (Byte.esc :: 0x2A :: body)).1 ++
          ((p.feed (Byte.esc :: 0x2A :: body)).2.feed back).1,
        ((p.feed (Byte.esc :: 0x2A :: body)).2.feed back).2) :=
    feed_append p (Byte.esc :: 0x2A :: body) back
  have htidy := (hp.feed (Byte.esc :: 0x2A :: body)).tidy
  rw [hcut, feed_singleton] at hinside
  obtain ⟨action, hquiet, hlast, hcompletes, hopens⟩ := htidy.advance_interrupted hletter hinside
  have hsmall : (p.feed (Byte.esc :: 0x2A :: body)).2.feed [letter, Byte.esc] =
      ([action], within #[] .inEscape []) := by
    rw [feed, feed_singleton, hquiet, hlast]
    rfl
  have hcapital : (p.feed (Byte.esc :: 0x2A :: body)).2.feed [Byte.upper letter, Byte.esc] =
      ([action], within #[] .inEscape []) := by
    rw [feed, feed_singleton, hcompletes, hopens]
    rfl
  rw [hcut, hcut, hcut, hsmall, hcapital, feed_singleton, hquiet]
  exact ⟨rfl, rfl, action, by simp⟩

/-- The escape byte interrupts a display sequence behind the letter of graphics text. -/
theorem feed_interrupted_graphicsText :
    initial.Reached ∧ Byte.isLower 0x73 = true ∧
      (initial.feed [Byte.esc, 0x2A, 0x64, 0x61, 0x73]).2.phase = .inGraphics (some .display) ∧
      initial.feed [Byte.esc, 0x2A, 0x64, 0x61, 0x73, Byte.esc] =
        initial.feed [Byte.esc, 0x2A, 0x64, 0x61, 0x53, Byte.esc] ∧
      (initial.feed [Byte.esc, 0x2A, 0x64, 0x61, 0x73, Byte.esc]).2 =
        ⟨.inEscape, .empty, #[], false⟩ := by
  have hinside : (initial.feed (Byte.esc :: 0x2A :: ([0x64, 0x61] ++ [0x73]))).2.phase =
      .inGraphics (some .display) := rfl
  obtain ⟨hsame, hopened, -⟩ := feed_interrupted .initial rfl hinside
  exact ⟨.initial, rfl, hinside, hsame, hopened⟩

end Parser

end GraphicsTerminal
