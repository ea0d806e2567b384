import GraphicsTerminal.Proofs.Protocol.Addresses

/-!
# What is read of a body

The decoder of a graphics sequence goes to the first byte of the body and reads to its end.
There is no such byte when the body is empty: then the decoder stays where it is, and takes
the two bytes that name the sequence for commands.  And the end is told by a zero byte, as
much by one in the body as by the one that stands behind it.

Main definitions:

- {lit}`Action.decoded?`: what was decoded from the body of a sequence.
- {lit}`Decoded.ofBody?`: what a body says to a group.

Main results:

- Theorem {lit}`Parser.feed_body`: the bytes that are decoded from a sequence.
- Theorem {lit}`Term.split_snd`, {lit}`AddressTerm.split_snd`: what a zero byte leaves behind.
- Theorem {lit}`hasMore_decode_iff`: the bodies that are read to their end.
-/

namespace GraphicsTerminal

/-! ## What is decoded -/

/-- What the body of a graphics sequence says. -/
inductive Decoded where
  | display (ops : List DisplayOp)
  | drawing (ops : List ModeOp)
  /-- The bytes of a plot body, which are not decoded before they are drawn. -/
  | plot (bytes : List UInt8)
deriving DecidableEq, Repr

/-- What was decoded from the body of a sequence, for the groups that decode it. -/
def Action.decoded? : Action → Option Decoded
  | .display ops => some (.display ops)
  | .drawing ops => some (.drawing ops)
  | .plot body => some (.plot body.rest)
  | _ => none

/-- What a body says to a group, for the groups that decode it. -/
def Decoded.ofBody? (group : GraphicsGroup) (body : List UInt8) : Option Decoded :=
  match group with
  | .display => some (.display ((Term.split body).1.map DisplayOp.ofTerm))
  | .mode => some (.drawing ((Term.split body).1.map ModeOp.ofTerm))
  | .plot => some (.plot body)
  | _ => none

/-- The bytes that are decoded: those of the body, or the two in front of an empty one. -/
def Decoded.source (selector : UInt8) (body : List UInt8) : List UInt8 :=
  if body = [] then [0x2A, selector] else body

section

variable {selector : UInt8} {body : List UInt8}

theorem Payload.rest_seek_source (selector : UInt8) (body : List UInt8) :
    ((ofList (0x2A :: selector :: body)).seek 2).rest = Decoded.source selector body := by
  by_cases hbody : body = []
  · rw [hbody]
    rfl
  · rw [rest_seek _ _ hbody, Decoded.source, if_neg hbody]

/-- The action of a sequence says what its source says. -/
theorem Parser.decoded?_graphicsAction {group : GraphicsGroup}
    (hgroup : group ∈ [.display, .mode, .plot]) (selector : UInt8) (body : List UInt8) :
    (graphicsAction (some group) (.ofList (0x2A :: selector :: body))).decoded? =
      Decoded.ofBody? group (Decoded.source selector body) := by
  simp only [List.mem_cons, List.not_mem_nil, or_false] at hgroup
  rcases hgroup with rfl | rfl | rfl
  · simp only [graphicsAction, Action.decoded?, DisplayOp.decode, Payload.rest_seek_source,
      Decoded.ofBody?]
  · simp only [graphicsAction, Action.decoded?, ModeOp.decode, Payload.rest_seek_source,
      Decoded.ofBody?]
  · simp only [graphicsAction, Action.decoded?, Payload.rest_seek_source, Decoded.ofBody?]

/-- The star in front of an empty body is taken for a command. -/
theorem Term.split_star (selector : UInt8) :
    (split [0x2A, selector]).1 = ⟨0x2A, []⟩ :: (split [selector]).1 := by
  have hread : Decimal.readUpTo 4 [0x2A, selector] = ([], [0x2A, selector]) :=
    Decimal.readUpTo_append_stop [] [selector] ⟨rfl, by decide, by decide, rfl, rfl⟩ 4
  rw [split_of_letter hread (by decide)]
  rfl

/-- The source of an empty body says something else. -/
theorem Decoded.ofBody?_source_iff {group : GraphicsGroup}
    (hgroup : group ∈ [.display, .mode, .plot]) (selector : UInt8) (body : List UInt8) :
    ofBody? group (source selector body) = ofBody? group body ↔ body ≠ [] := by
  constructor
  · rintro hsame rfl
    have hend : Term.split [] = ([], []) := by
      rw [Term.split]
    simp only [List.mem_cons, List.not_mem_nil, or_false] at hgroup
    rcases hgroup with rfl | rfl | rfl <;>
      simp [ofBody?, source, Term.split_star, hend] at hsame
  · intro hbody
    rw [source, if_neg hbody]

theorem Byte.capitalizeLast_cons (b : UInt8) (h : body ≠ []) :
    capitalizeLast (b :: body) = b :: capitalizeLast body := by
  obtain ⟨first, more, rfl⟩ := List.exists_cons_of_ne_nil h
  simp [capitalizeLast, List.getLast?_cons_cons]

theorem Byte.capitalizeLast_eq_nil : capitalizeLast body = [] ↔ body = [] := by
  cases body with
  | nil => simp [capitalizeLast]
  | cons b body =>
    obtain ⟨last, hlast⟩ : ∃ last, (b :: body).getLast? = some last :=
      ⟨_, List.getLast?_eq_some_getLast (List.cons_ne_nil b body)⟩
    simp [capitalizeLast, hlast]

end

namespace Parser

variable {p : Parser} {selector : UInt8} {body : List UInt8}

theorem ne_of_decoded (hgroup : GraphicsGroup.ofByte selector ∈ [.display, .mode, .plot]) :
    selector ≠ 0x6C ∧ selector ≠ Byte.esc := by
  constructor
  · rintro rfl
    revert hgroup
    decide
  · rintro rfl
    revert hgroup
    decide

/-- A display, mode or plot sequence decodes the bytes of its body, but an empty body in
place of nothing the two bytes that name the sequence. -/
theorem feed_body (hp : p.Reached) (hphase : p.phase = .inEscape)
    (hgroup : GraphicsGroup.ofByte selector ∈ [.display, .mode, .plot]) (hesc : Byte.esc ∉ body) :
    (IsClosed (selector :: body) →
      ∃ action, (p.feed (0x2A :: selector :: body)).1 = [action] ∧
        action.decoded? =
          Decoded.ofBody? (.ofByte selector) (Decoded.source selector body) ∧
        (action.decoded? = Decoded.ofBody? (.ofByte selector) body ↔ body ≠ [])) ∧
      ((∀ b ∈ selector :: body, isTerminator b = false) →
        ∃ action, (p.feed (0x2A :: selector :: (body ++ [Byte.esc]))).1 = [action] ∧
          action.decoded? = Decoded.ofBody? (.ofByte selector)
            (Decoded.source (Byte.upper selector) (Byte.capitalizeLast body)) ∧
          (action.decoded? =
            Decoded.ofBody? (.ofByte selector) (Byte.capitalizeLast body) ↔ body ≠ [])) := by
  obtain ⟨hlabel, hselector⟩ := ne_of_decoded hgroup
  have hnone : Byte.esc ∉ selector :: body := by
    simp [hesc, hselector.symm]
  constructor
  · intro hclosed
    have hdecoded := decoded?_graphicsAction hgroup selector body
    refine ⟨_, feed_graphics hp hphase hlabel hclosed hnone, hdecoded, ?_⟩
    rw [sequenceAction, sequenceBytes, hdecoded, Decoded.ofBody?_source_iff hgroup]
  · intro hinside
    refine ⟨_, feed_graphics_esc hp hphase hlabel hinside hnone, ?_⟩
    have hdecoded : (graphicsAction (some (.ofByte selector))
        (.ofList (Byte.capitalizeLast (0x2A :: selector :: body)))).decoded? =
        Decoded.ofBody? (.ofByte selector)
          (Decoded.source (Byte.upper selector) (Byte.capitalizeLast body)) := by
      -- Without a body the last byte, which is made a capital letter, is that of the group.
      by_cases hbody : body = []
      · rw [hbody]
        exact decoded?_graphicsAction hgroup (Byte.upper selector) []
      · rw [Byte.capitalizeLast_cons _ (List.cons_ne_nil selector body),
          Byte.capitalizeLast_cons _ hbody, decoded?_graphicsAction hgroup, Decoded.source,
          Decoded.source]
        simp [Byte.capitalizeLast_eq_nil, hbody]
    refine ⟨hdecoded, ?_⟩
    rw [hdecoded, Decoded.ofBody?_source_iff hgroup, ne_eq, Byte.capitalizeLast_eq_nil]

/-- A display sequence without a body, and one with a body of a single letter. -/
theorem feed_body_display :
    (initial.advance Byte.esc).2.Reached ∧ (initial.advance Byte.esc).2.phase = .inEscape ∧
      GraphicsGroup.ofByte 0x44 ∈ [.display, .mode, .plot] ∧
      GraphicsGroup.ofByte 0x64 ∈ [.display, .mode, .plot] ∧ Byte.esc ∉ ([] : List UInt8) ∧
      Byte.esc ∉ [0x41] ∧ IsClosed [0x44] ∧ IsClosed [0x64, 0x41] ∧
      (∃ action, ((initial.advance Byte.esc).2.feed [0x2A, 0x44]).1 = [action] ∧
        action.decoded? = Decoded.ofBody? .display [0x2A, 0x44]) ∧
      ∃ action, ((initial.advance Byte.esc).2.feed [0x2A, 0x64, 0x41]).1 = [action] ∧
        action.decoded? = Decoded.ofBody? .display [0x41] := by
  have hgroup : GraphicsGroup.ofByte 0x44 ∈ [.display, .mode, .plot] := by decide
  have hgroup' : GraphicsGroup.ofByte 0x64 ∈ [.display, .mode, .plot] := by decide
  have hesc : Byte.esc ∉ [0x41] := by decide
  have hclosed : IsClosed [0x44] := ⟨by simp, 0x44, rfl, rfl⟩
  have hclosed' : IsClosed [0x64, 0x41] := ⟨List.forall_mem_singleton.2 rfl, 0x41, rfl, rfl⟩
  obtain ⟨action, hfeed, hdecoded, -⟩ :=
    (feed_body reached_opened rfl hgroup (List.not_mem_nil : Byte.esc ∉ [])).1 hclosed
  obtain ⟨action', hfeed', -, hbody⟩ := (feed_body reached_opened rfl hgroup' hesc).1 hclosed'
  exact ⟨reached_opened, rfl, hgroup, hgroup', List.not_mem_nil, hesc, hclosed, hclosed',
    ⟨action, hfeed, hdecoded⟩, action', hfeed', hbody.2 (List.cons_ne_nil _ _)⟩

/-- Without a body the star is an unknown command, and the letter of the group a known one. -/
theorem feed_empty_body :
    (initial.feed [Byte.esc, 0x2A, 0x44]).1 =
      [.display [.unknown 0x2A, .graphicsVisible false]] := by
  have hsplit : (Term.split [0x2A, 0x44]).1 = [⟨0x2A, []⟩, ⟨0x64, []⟩] := by
    have hletter : Decimal.readUpTo 4 [0x44] = ([], [0x44]) := rfl
    rw [Term.split_star, Term.split_of_letter hletter (by decide), Term.split]
    rfl
  have hfeed : (initial.feed [Byte.esc, 0x2A, 0x44]).1 = [sequenceAction 0x44 []] :=
    feed_graphics reached_opened rfl (by decide) ⟨by simp, 0x44, rfl, rfl⟩ (by decide)
  have haction : sequenceAction 0x44 [] =
      .display ((Term.split [0x2A, 0x44]).1.map DisplayOp.ofTerm) := rfl
  rw [hfeed, haction, hsplit]
  rfl

end Parser

/-! ## Where decoding stops -/

theorem Byte.dropWhile_eq_nil_iff (bytes : List UInt8) :
    bytes.dropWhile (· != 0) = [] ↔ 0 ∉ bytes := by
  rw [List.dropWhile_eq_nil_iff]
  simp only [bne_iff_ne]
  exact ⟨fun h hmem => h 0 hmem rfl, fun h b hb => ne_of_mem_of_not_mem hb h⟩

/-- Something stands behind the first zero byte when one stands in front of the last byte. -/
theorem Byte.tail_dropWhile_ne_nil_iff (bytes : List UInt8) :
    (bytes.dropWhile (· != 0)).tail ≠ [] ↔ 0 ∈ bytes.dropLast := by
  induction bytes with
  | nil => simp
  | cons b bytes ih =>
    cases bytes with
    | nil => by_cases hb : b = 0 <;> simp [hb]
    | cons next rest =>
      by_cases hb : b = 0
      · simp [hb]
      · rw [List.dropWhile_cons, if_pos (by simpa using hb), ih, List.dropLast_cons_cons,
          List.mem_cons]
        simp [Ne.symm hb]

/-- A number has no zero byte. -/
theorem Decimal.dropWhile_read? {bytes : List UInt8} {r : Reading} (h : read? bytes = some r) :
    r.rest.dropWhile (· != 0) = bytes.dropWhile (· != 0) := by
  obtain ⟨w, hbytes, -, -⟩ := exists_written h
  have hplain : ∀ b ∈ w.bytes, (b != 0) = true := by
    intro b hb
    rw [bne_iff_ne]
    exact ne_of_mem_of_not_mem hb (zero_not_mem_bytes w)
  conv_rhs => rw [hbytes, List.dropWhile_append_of_pos hplain]

theorem Decimal.dropWhile_readUpTo (limit : Nat) (bytes : List UInt8) :
    (readUpTo limit bytes).2.dropWhile (· != 0) = bytes.dropWhile (· != 0) := by
  induction limit generalizing bytes with
  | zero => rfl
  | succ limit ih =>
    unfold readUpTo
    cases hread : read? bytes with
    | none => rfl
    | some r => exact (ih r.rest).trans (dropWhile_read? hread)

/-- What stands behind the first zero byte is not read, and nothing else. -/
theorem Term.split_snd (bytes : List UInt8) :
    (split bytes).2 = (bytes.dropWhile (· != 0)).tail := by
  fun_induction split bytes with
  | case1 => rfl
  | case2 b tail numbers hread =>
    have hdrop := Decimal.dropWhile_readUpTo 4 (b :: tail)
    rw [hread] at hdrop
    rw [← hdrop]
    rfl
  | case3 b tail numbers letter rest hread hzero =>
    have hdrop := Decimal.dropWhile_readUpTo 4 (b :: tail)
    obtain rfl : letter = 0 := Byte.lower_eq_zero.1 hzero
    rw [hread] at hdrop
    rw [← hdrop]
    rfl
  | case4 b tail numbers letter rest hread hletter more ih =>
    have hdrop := Decimal.dropWhile_readUpTo 4 (b :: tail)
    rw [Byte.lower_eq_zero] at hletter
    rw [hread, List.dropWhile_cons, if_pos (by simpa using hletter)] at hdrop
    rw [← hdrop]
    exact ih

namespace AddressTerm

variable {b letter : UInt8} {value : Option Int} {front tail rest : List UInt8}

theorem dropWhile_readValue (bytes : List UInt8) :
    (readValue bytes).2.dropWhile (· != 0) = bytes.dropWhile (· != 0) := by
  unfold readValue
  cases hread : Decimal.read? bytes with
  | none => rfl
  | some r => exact Decimal.dropWhile_read? hread

/-- Behind a letter that is no zero byte the next term is split off. -/
theorem split_snd_of_readValue (h : readValue (b :: tail) = (value, letter :: rest))
    (hletter : letter ≠ 0) :
    (split (b :: tail)).2 = (split rest).2 ∧ (split rest).1 <:+ (split (b :: tail)).1 := by
  rw [split_of_readValue h, if_neg hletter]
  split
  · exact ⟨rfl, List.suffix_cons _ _⟩
  · exact ⟨rfl, List.suffix_refl _⟩

/-- What holds of a body is shown term by term, whatever a letter names. -/
theorem reading_induction {motive : List UInt8 → Prop} (nil : motive [])
    (ended : ∀ b tail value, readValue (b :: tail) = (value, []) → motive (b :: tail))
    (zero : ∀ b tail value rest, readValue (b :: tail) = (value, 0 :: rest) → motive (b :: tail))
    (term : ∀ b tail value letter rest, readValue (b :: tail) = (value, letter :: rest) →
      letter ≠ 0 → motive rest → motive (b :: tail)) (bytes : List UInt8) : motive bytes := by
  induction bytes using split.induct with
  | case1 => exact nil
  | case2 b tail value hread => exact ended b tail value hread
  | case3 b tail value letter rest hread hzero =>
    rw [Byte.lower_eq_zero.1 hzero] at hread
    exact zero b tail value rest hread
  | case4 b tail letter rest hletter axis value hread _ _ ih =>
    exact term b tail value letter rest hread (mt Byte.lower_eq_zero.2 hletter) ih
  | case5 b tail value letter rest hread hletter _ _ ih =>
    exact term b tail value letter rest hread (mt Byte.lower_eq_zero.2 hletter) ih

/-- Nothing is left of a body without a letter. -/
theorem split_of_readValue_nil (h : readValue (b :: tail) = (value, [])) :
    split (b :: tail) = ([], []) := by
  rw [split]
  split
  · rfl
  · next hread =>
    rw [h] at hread
    cases hread

/-- What stands behind the first zero byte is not read, and nothing else. -/
theorem split_snd (bytes : List UInt8) : (split bytes).2 = (bytes.dropWhile (· != 0)).tail := by
  induction bytes using reading_induction with
  | nil => rw [split, List.dropWhile_nil, List.tail_nil]
  | ended b tail value hread =>
    have hdrop := dropWhile_readValue (b :: tail)
    rw [hread] at hdrop
    rw [← hdrop, split_of_readValue_nil hread]
    rfl
  | zero b tail value rest hread =>
    have hdrop := dropWhile_readValue (b :: tail)
    rw [hread] at hdrop
    rw [← hdrop, split_of_readValue hread, if_pos rfl]
    rfl
  | term b tail value letter rest hread hletter ih =>
    have hdrop := dropWhile_readValue (b :: tail)
    rw [hread, List.dropWhile_cons, if_pos (by simpa using hletter)] at hdrop
    rw [← hdrop, (split_snd_of_readValue hread hletter).1]
    exact ih

theorem readValue_append_stop (hletter : Decimal.Stops letter) (front back : List UInt8) :
    readValue (front ++ letter :: back) =
      ((readValue front).1, (readValue front).2 ++ letter :: back) := by
  rw [readValue, readValue, Decimal.read?_append_stop front back hletter]
  cases Decimal.read? front with
  | none => rfl
  | some r => rfl

/-- Nothing is read across a byte that is no part of a number: the terms behind it come
last. -/
theorem suffix_split_append (hstops : Decimal.Stops letter) (hletter : letter ≠ 0)
    (hzero : 0 ∉ front) (back : List UInt8) :
    (split back).1 <:+ (split (front ++ letter :: back)).1 := by
  induction front using reading_induction with
  | nil =>
    have hread : readValue (letter :: back) = (none, letter :: back) :=
      readValue_append_stop hstops [] back
    exact (split_snd_of_readValue hread hletter).2
  | ended b tail value hread =>
    have hwhole := readValue_append_stop hstops (b :: tail) back
    rw [hread] at hwhole
    exact (split_snd_of_readValue hwhole hletter).2
  | zero b tail value rest hread =>
    -- This zero byte would be one of those in front.
    have hdrop := dropWhile_readValue (b :: tail)
    rw [hread, (Byte.dropWhile_eq_nil_iff _).2 hzero] at hdrop
    cases hdrop
  | term b tail value first rest hread hfirst ih =>
    have hwhole := readValue_append_stop hstops (b :: tail) back
    have hdrop := dropWhile_readValue (b :: tail)
    rw [hread, (Byte.dropWhile_eq_nil_iff _).2 hzero, Byte.dropWhile_eq_nil_iff] at hdrop
    rw [hread] at hwhole
    have hrest : 0 ∉ rest := fun hmem => hdrop (List.mem_cons_of_mem first hmem)
    exact (ih hrest).trans (split_snd_of_readValue hwhole hfirst).2

end AddressTerm

/-- The terms behind a byte that is no part of a number come last. -/
theorem Term.suffix_split_append {front : List UInt8} {letter : UInt8}
    (hstops : Decimal.Stops letter) (hletter : letter ≠ 0) (hzero : 0 ∉ front)
    (back : List UInt8) : (split back).1 <:+ (split (front ++ letter :: back)).1 := by
  obtain ⟨terms, numbers, hsplit⟩ := exists_split_append hzero
  rw [hsplit letter back hstops hletter]
  exact (List.suffix_cons _ _).trans (List.suffix_append _ _)

namespace Payload

theorem hasMore_resume (p : Payload) (remaining : List UInt8) :
    (p.resume remaining).hasMore = true ↔ p.bytes.size ≠ 0 ∧ remaining ≠ [] := by
  rw [hasMore, decide_eq_true_eq, ← List.length_pos_iff]
  change p.bytes.size - remaining.length < p.bytes.size ↔ _
  omega

/-- Bytes are left when a zero byte stands in front of the last one. -/
theorem hasMore_resume_seek {opener : UInt8} (hopener : opener ≠ 0) (selector : UInt8)
    (body : List UInt8) {p : Payload}
    (hp : p = (ofList (opener :: selector :: body)).seek 2) :
    (p.resume (p.rest.dropWhile (· != 0)).tail).hasMore = true ↔ 0 ∈ body.dropLast := by
  have hsize : p.bytes.size ≠ 0 := by
    rw [hp, seek]
    split <;> simp [ofList]
  rw [hasMore_resume, Byte.tail_dropWhile_ne_nil_iff]
  by_cases hbody : body = []
  · have hrest : p.rest = [opener, selector] := by
      rw [hp, hbody]
      rfl
    simp [hrest, hbody, Ne.symm hopener]
  · rw [hp, rest_seek _ _ hbody, ← hp]
    simp [hsize]

end Payload

/-! ### The three decoders -/

/-- The decoders leave bytes behind exactly when a zero byte stands in front of the last one.
Otherwise what the end of the body says is said last by the whole. -/
theorem hasMore_decode_iff (selector : UInt8) (body : List UInt8) :
    ((DisplayOp.decode (.ofList (0x2A :: selector :: body))).2.hasMore = true ↔
        0 ∈ body.dropLast) ∧
      ((ModeOp.decode (.ofList (0x2A :: selector :: body))).2.hasMore = true ↔
        0 ∈ body.dropLast) ∧
      ((AddressTerm.decode (.ofList (0x26 :: selector :: body))).2.hasMore = true ↔
        0 ∈ body.dropLast) ∧
      (0 ∉ body.dropLast → ∀ front letter back, body = front ++ letter :: back →
        Decimal.Stops letter → back ≠ [] →
        (DisplayOp.decode (.ofList (0x2A :: selector :: back))).1 <:+
            (DisplayOp.decode (.ofList (0x2A :: selector :: body))).1 ∧
          (ModeOp.decode (.ofList (0x2A :: selector :: back))).1 <:+
            (ModeOp.decode (.ofList (0x2A :: selector :: body))).1 ∧
          (AddressTerm.decode (.ofList (0x26 :: selector :: back))).1 <:+
            (AddressTerm.decode (.ofList (0x26 :: selector :: body))).1) := by
  refine ⟨?_, ?_, ?_, ?_⟩
  · rw [DisplayOp.decode, Term.split_snd]
    exact Payload.hasMore_resume_seek (by decide) selector body rfl
  · rw [ModeOp.decode, Term.split_snd]
    exact Payload.hasMore_resume_seek (by decide) selector body rfl
  · rw [AddressTerm.decode, AddressTerm.split_snd]
    exact Payload.hasMore_resume_seek (by decide) selector body rfl
  · rintro hplain front letter back rfl hstops hback
    rw [List.dropLast_append_of_ne_nil (List.cons_ne_nil letter back),
      List.dropLast_cons_of_ne_nil hback, List.mem_append, List.mem_cons, not_or, not_or] at hplain
    obtain ⟨hfront, hletter, -⟩ := hplain
    have hwhole : front ++ letter :: back ≠ [] := by simp
    have hterms := Term.suffix_split_append hstops (Ne.symm hletter) hfront back
    simp only [DisplayOp.decode, ModeOp.decode, AddressTerm.decode,
      Payload.rest_seek _ _ hwhole, Payload.rest_seek _ _ hback]
    exact ⟨hterms.map _, hterms.map _,
      AddressTerm.suffix_split_append hstops (Ne.symm hletter) hfront back⟩

/-- A control byte in front of a letter does not keep the letter from being read. -/
theorem hasMore_decode_control :
    (0 : UInt8) ∉ [0x01, 0x43].dropLast ∧ ([] : List UInt8) ++ 0x01 :: [0x43] = [0x01, 0x43] ∧
      Decimal.Stops 0x01 ∧ [0x43] ≠ ([] : List UInt8) ∧
      (DisplayOp.decode (.ofList [0x2A, 0x64, 0x01, 0x43])).2.hasMore = false ∧
      (DisplayOp.decode (.ofList [0x2A, 0x64, 0x43])).1 <:+
        (DisplayOp.decode (.ofList [0x2A, 0x64, 0x01, 0x43])).1 := by
  have hstops : Decimal.Stops 0x01 := ⟨rfl, by decide, by decide, rfl, rfl⟩
  obtain ⟨hmore, -, -, hsuffix⟩ := hasMore_decode_iff 0x64 [0x01, 0x43]
  have hplain : (0 : UInt8) ∉ [0x01, 0x43].dropLast := by decide
  obtain ⟨hlast, -, -⟩ := hsuffix hplain [] 0x01 [0x43] rfl hstops (List.cons_ne_nil _ _)
  exact ⟨hplain, rfl, hstops, List.cons_ne_nil _ _, Bool.eq_false_iff.2 (mt hmore.1 hplain), hlast⟩

theorem Term.split_zero (rest : List UInt8) : split (0 :: rest) = ([], rest) := by
  have hread : Decimal.readUpTo 4 (0 :: rest) = ([], 0 :: rest) :=
    Decimal.readUpTo_append_stop [] rest Decimal.stops_zero 4
  rw [split]
  split
  · next heq =>
    rw [hread] at heq
    cases heq
  · next heq =>
    rw [hread] at heq
    cases heq
    rfl

/-- A zero byte in front of the letter does. -/
theorem letter_lost_behind_zero :
    (Parser.initial.feed [Byte.esc, 0x2A, 0x64, 0x00, 0x43]).1 = [.display []] ∧
      (DisplayOp.decode (.ofList [0x2A, 0x64, 0x00, 0x43])).2.hasMore = true := by
  have hclosed : Parser.IsClosed [0x64, 0x00, 0x43] :=
    ⟨List.forall_mem_cons.2 ⟨rfl, List.forall_mem_singleton.2 rfl⟩, 0x43, rfl, rfl⟩
  have hfeed : (Parser.initial.feed [Byte.esc, 0x2A, 0x64, 0x00, 0x43]).1 =
      [Parser.sequenceAction 0x64 [0x00, 0x43]] :=
    Parser.feed_graphics Parser.reached_opened rfl (by decide) hclosed (by decide)
  rw [hfeed, Parser.sequenceAction_display (List.cons_ne_nil _ _), DisplayOp.decode,
    Payload.rest_seek _ _ (List.cons_ne_nil _ _), Term.split_zero]
  exact ⟨rfl, rfl⟩

end GraphicsTerminal
