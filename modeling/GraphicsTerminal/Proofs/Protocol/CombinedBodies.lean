import GraphicsTerminal.Proofs.Number.Reading
import GraphicsTerminal.Proofs.Protocol.Units

/-!
# Combined bodies

A body with several terms can be cut behind any letter.  The numbers of a term stand in
front of its letter, and neither a number nor a letter is read across that boundary, so
the terms of the two parts are those of the whole.

Main definitions:

- {lit}`Byte.unasked`: a stream without its enquiries, which the parser does not see.
- {lit}`Action.Joins`: an action that does what two actions do one after the other.
- {lit}`Parser.sequenceBytes`, {lit}`Parser.sequenceAction`: a graphics sequence behind its
  escape byte, and what it asks for.
- {lit}`Parser.CutBody`: a mode or display body that is cut behind a small letter.

Main results:

- Theorem {lit}`Term.split_append`: the terms of a body that is cut behind a letter.
- Theorem {lit}`Parser.joins_sequenceAction`: the actions of the two parts of a mode or
  display sequence, and of the whole.
- Theorem {lit}`Parser.CutBody.feed`: what the parser makes of the whole, and of two separate
  sequences.
-/

namespace GraphicsTerminal

namespace Byte

variable {b : UInt8}

theorem isLetter_of_isLower (h : isLower b = true) : isLetter b = true := by
  rw [isLetter, h, Bool.or_true]

theorem isLower_iff : isLower b = true ↔ 97 ≤ b.toNat ∧ b.toNat ≤ 122 := by
  simp only [isLower, Bool.and_eq_true, decide_eq_true_eq, UInt8.le_iff_toNat_le,
    UInt8.reduceToNat]

theorem isUpper_iff : isUpper b = true ↔ 65 ≤ b.toNat ∧ b.toNat ≤ 90 := by
  simp only [isUpper, Bool.and_eq_true, decide_eq_true_eq, UInt8.le_iff_toNat_le,
    UInt8.reduceToNat]

/-- A small letter is its own small letter. -/
theorem lower_of_isLower (h : isLower b = true) : lower b = b := by
  rw [isLower_iff] at h
  refine if_neg fun hupper => ?_
  rw [isUpper_iff] at hupper
  omega

/-- The case of a letter is a distance of 32. -/
theorem toNat_upper (h : isLower b = true) : (upper b).toNat = b.toNat - 32 := by
  rw [upper, if_pos h, UInt8.toNat_sub_of_le]
  · rfl
  · rw [UInt8.le_iff_toNat_le]
    exact Nat.le_trans (by decide) (isLower_iff.1 h).1

theorem isUpper_upper (h : isLower b = true) : isUpper (upper b) = true := by
  rw [isUpper_iff, toNat_upper h]
  rw [isLower_iff] at h
  omega

/-- A capital letter that was made from a small one names the same term. -/
theorem lower_upper (h : isLower b = true) : lower (upper b) = b := by
  rw [lower, if_pos (isUpper_upper h), upper, if_pos h, UInt8.sub_add_cancel]

/-- No byte but zero is read as the end sentinel of a body. -/
theorem lower_ne_zero (h : b ≠ 0) : lower b ≠ 0 := by
  unfold lower
  split
  · rename_i hupper
    rw [isUpper_iff] at hupper
    intro hzero
    have hvalue := congrArg UInt8.toNat hzero
    rw [UInt8.toNat_add] at hvalue
    simp only [UInt8.reduceToNat] at hvalue
    omega
  · exact h

theorem lower_eq_zero : lower b = 0 ↔ b = 0 := by
  constructor
  · intro hzero
    by_contra hb
    exact lower_ne_zero hb hzero
  · rintro rfl
    rfl

/-! ### Streams without enquiries -/

/-- The bytes of a stream without its enquiries. -/
def unasked (bytes : List UInt8) : List UInt8 := bytes.filter (· ≠ enq)

/-- Enquiries are left out part by part. -/
theorem unasked_append (front back : List UInt8) :
    unasked (front ++ back) = unasked front ++ unasked back := List.filter_append front back

/-- Every byte but an enquiry stays in the stream. -/
theorem unasked_cons {b : UInt8} (h : b ≠ enq) (bytes : List UInt8) :
    unasked (b :: bytes) = b :: unasked bytes := List.filter_cons_of_pos (decide_eq_true h)

/-- An enquiry at the end of a stream leaves no trace in it. -/
theorem unasked_concat_enq (bytes : List UInt8) : unasked (bytes ++ [enq]) = unasked bytes :=
  (unasked_append bytes [enq]).trans (List.append_nil _)

/-- Every other byte at the end of a stream is kept. -/
theorem unasked_concat {b : UInt8} (h : b ≠ enq) (bytes : List UInt8) :
    unasked (bytes ++ [b]) = unasked bytes ++ [b] := by
  rw [unasked_append, unasked_cons h]
  rfl

end Byte

namespace Term

/-! ## Terms behind numbers -/

/-- Numbers and the letter behind them are one term; the rest is split by itself. -/
theorem split_of_letter {bytes rest : List UInt8} {numbers : List Int} {letter : UInt8}
    (h : Decimal.readUpTo 4 bytes = (numbers, letter :: rest)) (hletter : letter ≠ 0) :
    split bytes = (⟨Byte.lower letter, numbers⟩ :: (split rest).1, (split rest).2) := by
  cases bytes with
  | nil => cases h
  | cons b tail =>
    rw [split]
    split
    · rename_i hread
      rw [h] at hread
      cases hread
    · rename_i hread
      rw [h] at hread
      cases hread
      rw [if_neg (Byte.lower_ne_zero hletter)]

/-- Nothing is read across a byte that is no part of a number: the terms in front of it, and
the numbers of its own term, depend neither on the byte nor on what follows. -/
theorem exists_split_append {front : List UInt8} (hzero : 0 ∉ front) :
    ∃ terms numbers, ∀ (letter : UInt8) (back : List UInt8), Decimal.Stops letter → letter ≠ 0 →
      (split (front ++ letter :: back)).1 =
        terms ++ ⟨Byte.lower letter, numbers⟩ :: (split back).1 := by
  fun_induction split front with
  | case1 =>
    refine ⟨[], [], fun letter back hstops hletter => ?_⟩
    rw [split_of_letter (Decimal.readUpTo_append_stop [] back hstops 4) hletter]
    rfl
  | case2 b tail numbers hend =>
    refine ⟨[], numbers, fun letter back hstops hletter => ?_⟩
    have hread := Decimal.readUpTo_append_stop (b :: tail) back hstops 4
    rw [hend] at hread
    rw [split_of_letter hread hletter]
    rfl
  | case3 b tail numbers first rest hfirst hstop =>
    have hsuffix := Decimal.readUpTo_rest_suffix 4 (b :: tail)
    rw [hfirst] at hsuffix
    have hmem : first ∈ b :: tail := hsuffix.subset (.head rest)
    exact absurd hstop (Byte.lower_ne_zero (ne_of_mem_of_not_mem hmem hzero))
  | case4 b tail numbers first rest hfirst hletter more ih =>
    have hsuffix := Decimal.readUpTo_rest_suffix 4 (b :: tail)
    rw [hfirst] at hsuffix
    have hmem : first ∈ b :: tail := hsuffix.subset (.head rest)
    have hfirstNonzero : first ≠ 0 := ne_of_mem_of_not_mem hmem hzero
    obtain ⟨terms, last, hlater⟩ := ih fun hrest => hzero (hsuffix.subset (.tail first hrest))
    refine ⟨⟨Byte.lower first, numbers⟩ :: terms, last, fun letter back hstops hletter => ?_⟩
    have hread := Decimal.readUpTo_append_stop (b :: tail) back hstops 4
    rw [hfirst] at hread
    rw [split_of_letter hread hfirstNonzero]
    exact congrArg (_ :: ·) (hlater letter back hstops hletter)

/-- A body can be cut behind a letter, which is made a capital one. -/
theorem split_append {front : List UInt8} (hzero : 0 ∉ front) {letter : UInt8}
    (hletter : Byte.isLower letter = true) (back : List UInt8) :
    (split (front ++ letter :: back)).1 =
      (split (front ++ [Byte.upper letter])).1 ++ (split back).1 := by
  obtain ⟨terms, numbers, hsplit⟩ := exists_split_append hzero
  have hcapital : Byte.isLetter (Byte.upper letter) = true := by
    rw [Byte.isLetter, Byte.isUpper_upper hletter, Bool.true_or]
  have hnonzero : letter ≠ 0 := by
    rintro rfl
    cases hletter
  have hcapitalNonzero : Byte.upper letter ≠ 0 := by
    intro hzero
    rw [hzero] at hcapital
    cases hcapital
  rw [hsplit letter back (Decimal.stops_of_isLetter (Byte.isLetter_of_isLower hletter)) hnonzero,
    hsplit _ [] (Decimal.stops_of_isLetter hcapital) hcapitalNonzero,
    Byte.lower_upper hletter, Byte.lower_of_isLower hletter, split, List.append_assoc]
  rfl

/-- Every letter of a term is found in the body. -/
theorem letter_of_mem_split (bytes : List UInt8) :
    ∀ term ∈ (split bytes).1, ∃ b ∈ bytes, term.letter = Byte.lower b := by
  fun_induction split bytes with
  | case1 => simp
  | case2 b tail numbers hread => simp
  | case3 b tail numbers letter rest hread hzero => simp
  | case4 b tail numbers letter rest hread hletter more ih =>
    have hsuffix := Decimal.readUpTo_rest_suffix 4 (b :: tail)
    rw [hread] at hsuffix
    intro term hterm
    rcases List.mem_cons.1 hterm with rfl | hlater
    · exact ⟨letter, hsuffix.subset (.head rest), rfl⟩
    · obtain ⟨other, hother, heq⟩ := ih term hlater
      exact ⟨other, hsuffix.subset (.tail letter hother), heq⟩

end Term

/-! ## Actions of the parts -/

/-- An action that does what two actions do one after the other. -/
inductive Action.Joins : Action → Action → Action → Prop
  | drawing (ops ops' : List ModeOp) :
      Joins (.drawing ops) (.drawing ops') (.drawing (ops ++ ops'))
  | display (ops ops' : List DisplayOp) :
      Joins (.display ops) (.display ops') (.display (ops ++ ops'))

namespace Parser

/-- The bytes of a graphics sequence behind its escape byte. -/
def sequenceBytes (group : UInt8) (body : List UInt8) : List UInt8 := 0x2A :: group :: body

/-- The action of a complete graphics sequence. -/
def sequenceAction (group : UInt8) (body : List UInt8) : Action :=
  graphicsAction (some (.ofByte group)) (.ofList (sequenceBytes group body))

variable {body front back : List UInt8} {group letter last : UInt8}

/-- A mode sequence asks for one operation per term of its body. -/
theorem sequenceAction_mode (h : body ≠ []) :
    sequenceAction 0x6D body = .drawing ((Term.split body).1.map ModeOp.ofTerm) := by
  change Action.drawing (ModeOp.decode (.ofList (0x2A :: 0x6D :: body))).1 = _
  rw [ModeOp.decode, Payload.rest_seek _ _ h]

/-- A display sequence asks for one operation per term of its body. -/
theorem sequenceAction_display (h : body ≠ []) :
    sequenceAction 0x64 body = .display ((Term.split body).1.map DisplayOp.ofTerm) := by
  change Action.display (DisplayOp.decode (.ofList (0x2A :: 0x64 :: body))).1 = _
  rw [DisplayOp.decode, Payload.rest_seek _ _ h]

/-- A mode or display sequence asks for what its parts ask for. -/
theorem joins_sequenceAction (hgroup : group = 0x6D ∨ group = 0x64) (hzero : 0 ∉ front)
    (hletter : Byte.isLower letter = true) (hback : back ≠ []) :
    Action.Joins (sequenceAction group (front ++ [Byte.upper letter]))
      (sequenceAction group back) (sequenceAction group (front ++ letter :: back)) := by
  have hfirst : front ++ [Byte.upper letter] ≠ [] := by simp
  have hwhole : front ++ letter :: back ≠ [] := by simp
  rcases hgroup with rfl | rfl
  · rw [sequenceAction_mode hfirst, sequenceAction_mode hback, sequenceAction_mode hwhole,
      Term.split_append hzero hletter, List.map_append]
    exact .drawing _ _
  · rw [sequenceAction_display hfirst, sequenceAction_display hback,
      sequenceAction_display hwhole, Term.split_append hzero hletter, List.map_append]
    exact .display _ _

/-- One letter names the operation that switches to graphics text. -/
theorem letter_of_ofTerm {term : Term} (h : DisplayOp.ofTerm term = .enterGraphicsText) :
    term.letter = 0x73 := by
  unfold DisplayOp.ofTerm at h
  split at h
  case h_13 hs => exact UInt8.toNat_inj.1 (congrArg Char.toNat hs)
  case h_9 | h_10 | h_14 => split at h <;> cases h
  all_goals cases h

/-- A display sequence without the letter of graphics text does not switch to it. -/
theorem enters_sequenceAction (hgroup : group = 0x6D ∨ group = 0x64) (hbody : body ≠ [])
    (hnone : group = 0x64 → ∀ b ∈ body, Byte.lower b ≠ 0x73) :
    entersGraphicsText (sequenceAction group body) = false := by
  rcases hgroup with rfl | rfl
  · rw [sequenceAction_mode hbody]
    rfl
  · rw [sequenceAction_display hbody, ← Bool.not_eq_true, entersGraphicsText, List.contains_iff_mem]
    intro hmem
    obtain ⟨term, hterm, henters⟩ := List.mem_map.1 hmem
    obtain ⟨b, hb, hletter⟩ := Term.letter_of_mem_split body term hterm
    exact hnone rfl b hb (hletter.symm.trans (letter_of_ofTerm henters))

/-- A small letter does not end a sequence. -/
theorem isTerminator_of_isLower {b : UInt8} (h : Byte.isLower b = true) :
    isTerminator b = false := by
  rw [Byte.isLower_iff] at h
  simp only [isTerminator, Byte.isUpper, Bool.or_eq_false_iff, Bool.and_eq_false_iff,
    decide_eq_false_iff_not, beq_eq_false_iff_ne, ne_eq, UInt8.le_iff_toNat_le,
    ← UInt8.toNat_inj, Byte.cr, Byte.lf, UInt8.reduceToNat]
  omega

/-- If the first part stays among letters, the whole switches to graphics text where the
second part does. -/
theorem enters_of_joins {first second joined : Action} (h : Action.Joins first second joined)
    (hfirst : entersGraphicsText first = false) :
    entersGraphicsText joined = entersGraphicsText second := by
  cases h with
  | drawing ops ops' => rfl
  | display ops ops' =>
    simp only [entersGraphicsText, List.contains_append] at hfirst ⊢
    rw [hfirst, Bool.false_or]

/-- Behind its escape byte a mode or display sequence completes one action, and the outlook
is known afterwards. -/
theorem feed_sequence (text : Array UInt8) (hgroup : group = 0x6D ∨ group = 0x64)
    (hbody : ∀ b ∈ body, isTerminator b = false ∧ b ≠ Byte.esc)
    (hlast : isTerminator last = true) :
    ∃ next : Parser, (within text .inEscape []).feed (sequenceBytes group (body ++ [last])) =
        ([sequenceAction group (body ++ [last])], next) ∧
      next.phase = (if entersGraphicsText (sequenceAction group (body ++ [last])) then
        .graphicsText else .idle) ∧
      next.outlook = ⟨next.phase, .empty, #[], false⟩ := by
  have hinner : ∀ b ∈ group :: body, isTerminator b = false ∧ b ≠ Byte.esc := by
    intro b hb
    rcases List.mem_cons.1 hb with rfl | hb
    · rcases hgroup with rfl | rfl <;> decide
    · exact hbody b hb
  have hlabel : (group :: body).head? ≠ some 0x6C := by
    rcases hgroup with rfl | rfl <;> exact of_decide_eq_true rfl
  have hframes := frames_graphics (p := ⟨.idle, .empty, text, false⟩) (.inl rfl)
    (List.cons_ne_nil group body) hlabel hinner hlast
  have hopened : (Parser.mk .idle .empty text false).feed
      (Byte.esc :: 0x2A :: (group :: body) ++ [last]) =
        (within text .inEscape []).feed (0x2A :: group :: (body ++ [last])) := by
    rw [List.cons_append, feed, advance_esc (.inl rfl)]
    rfl
  change Frames _ (0x2A :: group :: body) last (sequenceAction group (body ++ [last]))
    (if entersGraphicsText (sequenceAction group (body ++ [last])) then
      .graphicsText else .idle) at hframes
  have htext := graphicsAction_ne_graphicsText (some (.ofByte group))
    (.ofList (0x2A :: group :: (body ++ [last])))
  have hactions := hframes.feed_fst
  have hleaves := hframes.feed_phase
  have houtlook := hframes.outlook_eq htext (by split <;> simp)
  rw [← hleaves] at houtlook
  rw [hopened] at hactions hleaves houtlook
  exact ⟨_, Prod.ext hactions rfl, hleaves, houtlook⟩

/-- Two sequences, of which the first does not switch to graphics text, complete two actions,
and the outlook is that of the second. -/
theorem feed_sequences (text : Array UInt8) (hgroup : group = 0x6D ∨ group = 0x64)
    (hfront : ∀ b ∈ front, isTerminator b = false ∧ b ≠ Byte.esc)
    (hletter : isTerminator letter = true)
    (hstays : entersGraphicsText (sequenceAction group (front ++ [letter])) = false)
    (hback : ∀ b ∈ back, isTerminator b = false ∧ b ≠ Byte.esc)
    (hlast : isTerminator last = true) :
    ∃ next : Parser, (within text .inEscape []).feed
        (sequenceBytes group (front ++ [letter]) ++
          Byte.esc :: sequenceBytes group (back ++ [last])) =
        ([sequenceAction group (front ++ [letter]), sequenceAction group (back ++ [last])],
          next) ∧
      next.phase = (if entersGraphicsText (sequenceAction group (back ++ [last])) then
        .graphicsText else .idle) ∧
      next.outlook = ⟨next.phase, .empty, #[], false⟩ := by
  obtain ⟨between, hfirst, hphase, -⟩ := feed_sequence text hgroup hfront hletter
  rw [hstays, if_neg Bool.false_ne_true] at hphase
  obtain ⟨next, hsecond, hleaves, houtlook⟩ := feed_sequence between.text hgroup hback hlast
  refine ⟨next, ?_, hleaves, houtlook⟩
  rw [feed_append, hfirst, feed, advance_esc (.inl hphase)]
  simp only [hsecond, Option.toList_none, List.nil_append]
  rfl

/-! ## Cut bodies -/

/-- A mode or display body that is cut behind a small letter.  The part in front of the letter
does not switch to graphics text. -/
structure CutBody (group letter last : UInt8) (front back : List UInt8) : Prop where
  group_eq : group = 0x6D ∨ (group = 0x64 ∧ 0x73 ∉ front ++ [letter])
  letter_small : Byte.isLower letter = true
  last_ends : isTerminator last = true
  plain : ∀ b ∈ front ++ back, isTerminator b = false ∧ b ≠ Byte.esc ∧ b ≠ 0

namespace CutBody

theorem group_name (h : CutBody group letter last front back) : group = 0x6D ∨ group = 0x64 :=
  h.group_eq.imp_right And.left

/-- No byte in front of the cut ends the sequence or interrupts it. -/
theorem plain_front (h : CutBody group letter last front back) :
    ∀ b ∈ front, isTerminator b = false ∧ b ≠ Byte.esc := by
  intro b hb
  obtain ⟨hinside, hesc, -⟩ := h.plain b (List.mem_append_left back hb)
  exact ⟨hinside, hesc⟩

/-- No byte behind the cut but the last ends the sequence or interrupts it. -/
theorem plain_back (h : CutBody group letter last front back) :
    ∀ b ∈ back, isTerminator b = false ∧ b ≠ Byte.esc := by
  intro b hb
  obtain ⟨hinside, hesc, -⟩ := h.plain b (List.mem_append_right front hb)
  exact ⟨hinside, hesc⟩

/-- The small letter at the cut ends nothing, so the whole is read up to its last byte. -/
theorem plain_whole (h : CutBody group letter last front back) :
    ∀ b ∈ front ++ letter :: back, isTerminator b = false ∧ b ≠ Byte.esc := by
  intro b hb
  rcases List.mem_append.1 hb with hmem | hmem
  · exact h.plain_front b hmem
  rcases List.mem_cons.1 hmem with rfl | hmem
  · refine ⟨isTerminator_of_isLower h.letter_small, ?_⟩
    rintro rfl
    cases h.letter_small
  · exact h.plain_back b hmem

/-- The first part does not switch to graphics text. -/
theorem enters_first (h : CutBody group letter last front back) :
    entersGraphicsText (sequenceAction group (front ++ [Byte.upper letter])) = false := by
  refine enters_sequenceAction h.group_name (by simp) fun hdisplay b hb => ?_
  have hs : 0x73 ∉ front ++ [letter] := by
    rcases h.group_eq with hmode | hdisplay'
    · rw [hmode] at hdisplay
      cases hdisplay
    · exact hdisplay'.2
  rw [List.mem_append, List.mem_singleton, not_or] at hs
  rcases List.mem_append.1 hb with hmem | hmem
  · have hsmall : Byte.lower b = b := by
      refine if_neg fun hupper => ?_
      have hinside := (h.plain_front b hmem).1
      simp [isTerminator, hupper] at hinside
    rw [hsmall]
    exact ne_of_mem_of_not_mem hmem hs.1
  · rw [List.mem_singleton.1 hmem, Byte.lower_upper h.letter_small]
    exact Ne.symm hs.2

/-- The whole sequence asks for what its two parts ask for, and leaves the parser with the same
outlook. -/
theorem feed (h : CutBody group letter last front back) (text : Array UInt8) :
    ∃ (first second joined : Action) (combined separate : Parser),
      Action.Joins first second joined ∧
      (within text .inEscape []).feed
          (sequenceBytes group (front ++ letter :: (back ++ [last]))) = ([joined], combined) ∧
      (within text .inEscape []).feed (sequenceBytes group (front ++ [Byte.upper letter]) ++
          Byte.esc :: sequenceBytes group (back ++ [last])) = ([first, second], separate) ∧
      combined.phase = separate.phase ∧ combined.outlook = separate.outlook := by
  have hcapital : isTerminator (Byte.upper letter) = true := by
    simp only [isTerminator, Byte.isUpper_upper h.letter_small, Bool.true_or]
  have hzero : 0 ∉ front := fun hmem =>
    (h.plain 0 (List.mem_append_left back hmem)).2.2 rfl
  have hbody : (front ++ letter :: back) ++ [last] = front ++ letter :: (back ++ [last]) :=
    List.append_assoc _ _ _
  have hjoins := joins_sequenceAction h.group_name hzero h.letter_small
    (List.append_ne_nil_of_right_ne_nil back (List.cons_ne_nil last []))
  have henters := enters_of_joins hjoins h.enters_first
  obtain ⟨combined, hcombined, hphase, houtlook⟩ :=
    feed_sequence text h.group_name h.plain_whole h.last_ends
  obtain ⟨separate, hseparate, hphase', houtlook'⟩ :=
    feed_sequences text h.group_name h.plain_front hcapital h.enters_first h.plain_back h.last_ends
  rw [hbody] at hcombined hphase
  rw [henters, ← hphase'] at hphase
  refine ⟨_, _, _, combined, separate, hjoins, hcombined, hseparate, hphase, ?_⟩
  rw [houtlook, houtlook', hphase]

/-! ### Enquiries in a body -/

/-- The selector of a group is a letter, so it is no enquiry. -/
theorem group_ne_enq (h : CutBody group letter last front back) : group ≠ Byte.enq := by
  rcases h.group_name with rfl | rfl <;> decide

/-- The letter at the cut is no enquiry. -/
theorem letter_ne_enq (h : CutBody group letter last front back) : letter ≠ Byte.enq := by
  rintro rfl
  cases h.letter_small

/-- The capital letter at the cut is no enquiry. -/
theorem capital_ne_enq (h : CutBody group letter last front back) :
    Byte.upper letter ≠ Byte.enq := by
  intro heq
  have hupper := Byte.isUpper_upper h.letter_small
  rw [heq] at hupper
  cases hupper

/-- The byte that ends the sequence is no enquiry. -/
theorem last_ne_enq (h : CutBody group letter last front back) : last ≠ Byte.enq := by
  rintro rfl
  cases h.last_ends

/-- A cut body stays one without its enquiries. -/
theorem unasked (h : CutBody group letter last front back) :
    CutBody group letter last (Byte.unasked front) (Byte.unasked back) where
  group_eq := by
    refine h.group_eq.imp_right fun hdisplay => ⟨hdisplay.1, fun hs => hdisplay.2 ?_⟩
    rcases List.mem_append.1 hs with hmem | hmem
    · exact List.mem_append_left _ (List.mem_of_mem_filter hmem)
    · exact List.mem_append_right _ hmem
  letter_small := h.letter_small
  last_ends := h.last_ends
  plain := by
    intro b hb
    rw [← Byte.unasked_append] at hb
    exact h.plain b (List.mem_of_mem_filter hb)

/-- The enquiries of the whole sequence stand in the two parts of its body. -/
theorem unasked_whole (h : CutBody group letter last front back) :
    Byte.unasked (sequenceBytes group (front ++ letter :: (back ++ [last]))) =
        sequenceBytes group (Byte.unasked front ++ letter :: (Byte.unasked back ++ [last])) ∧
      (sequenceBytes group (front ++ letter :: (back ++ [last]))).count Byte.enq =
        (front ++ back).count Byte.enq := by
  have hstar : (0x2A : UInt8) ≠ Byte.enq := by decide
  constructor
  · simp [Byte.unasked, sequenceBytes, hstar, h.group_ne_enq, h.letter_ne_enq, h.last_ne_enq]
  · simp [sequenceBytes, hstar, h.group_ne_enq, h.letter_ne_enq, h.last_ne_enq]

/-- So do those of two separate sequences. -/
theorem unasked_parts (h : CutBody group letter last front back) :
    Byte.unasked (sequenceBytes group (front ++ [Byte.upper letter]) ++
          Byte.esc :: sequenceBytes group (back ++ [last])) =
        sequenceBytes group (Byte.unasked front ++ [Byte.upper letter]) ++
          Byte.esc :: sequenceBytes group (Byte.unasked back ++ [last]) ∧
      (sequenceBytes group (front ++ [Byte.upper letter]) ++
          Byte.esc :: sequenceBytes group (back ++ [last])).count Byte.enq =
        (front ++ back).count Byte.enq := by
  have hstar : (0x2A : UInt8) ≠ Byte.enq := by decide
  have hesc : Byte.esc ≠ Byte.enq := by decide
  constructor
  · simp [Byte.unasked, sequenceBytes, hstar, hesc, h.group_ne_enq, h.capital_ne_enq,
      h.last_ne_enq]
  · simp [sequenceBytes, hstar, hesc, h.group_ne_enq, h.capital_ne_enq, h.last_ne_enq]

end CutBody

end Parser

end GraphicsTerminal
