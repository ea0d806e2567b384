import GraphicsTerminal.Proofs.Number.Writing
import GraphicsTerminal.Proofs.Screen.Addressing
import GraphicsTerminal.Proofs.Terminal.ScreenSequences
import GraphicsTerminal.Proofs.Terminal.WellFormed

/-!
# Where the cursor stands

The reply to the question where the cursor stands is a cursor address: sent to any terminal, it
brings the cursor there to the same column and the same row of memory, whatever parts of memory
the two views show.  Nothing else changes, as long as nothing that is meant for the host is shown
in between.

Main definitions:

- {lit}`Reply.addressBody`: the reply between its first three bytes and its last two.
- {lit}`AddressTerm.place`: the terms that name a place.

Main results:

- Theorem {lit}`AddressTerm.split_paddedBytes`: a term that is filled with zeros is read back.
- Theorem {lit}`Parser.feed_addressBody`: the reply without its end is a cursor address.
- Theorem {lit}`Screen.exists_address`: an absolute address leads to its place in memory.
- Theorem {lit}`Terminal.step_of_cursorSense`: the question is answered.
- Theorem {lit}`Terminal.feed_sensed_address`: the answer leads to the place that it tells.
-/

namespace GraphicsTerminal

theorem Text.utf8_append (front back : String) :
    Text.utf8 (front ++ back) = Text.utf8 front ++ Text.utf8 back := by
  rw [Text.utf8, String.toList_append, List.flatMap_append]
  rfl

namespace Reply

/-- The reply that tells a position, between its first three bytes and its last two. -/
def addressBody (column memoryRow : Nat) : List UInt8 :=
  Decimal.paddedBytes 3 column ++ 0x63 :: Decimal.paddedBytes 3 memoryRow

/-- The body holds digits and one letter. -/
theorem of_mem_addressBody {column memoryRow : Nat} {b : UInt8}
    (h : b ∈ addressBody column memoryRow) : Byte.isDigit b = true ∨ b = 0x63 := by
  rw [addressBody, List.mem_append, List.mem_cons] at h
  rcases h with hcolumn | rfl | hrow
  · exact .inl (Decimal.isDigit_of_mem_paddedBytes hcolumn)
  · exact .inr rfl
  · exact .inl (Decimal.isDigit_of_mem_paddedBytes hrow)

/-- A byte of the body does not end the address and is no enquiry. -/
theorem passes_of_mem_addressBody {column memoryRow : Nat} {b : UInt8}
    (h : b ∈ addressBody column memoryRow) :
    Parser.isTerminator b = false ∧ b ≠ Byte.enq := by
  rcases of_mem_addressBody h with hdigit | rfl
  · simp only [Byte.isDigit, Bool.and_eq_true, decide_eq_true_eq] at hdigit
    simp only [Parser.isTerminator, Byte.isUpper, Byte.enq, Byte.cr, Byte.lf, ne_eq,
      ← UInt8.toNat_inj, Bool.or_eq_false_iff, Bool.and_eq_false_iff, decide_eq_false_iff_not,
      beq_eq_false_iff_ne, UInt8.le_iff_toNat_le, UInt8.reduceToNat] at hdigit ⊢
    omega
  · exact ⟨rfl, by decide⟩

/-- The reply that tells a position, as it is sent. -/
theorem utf8_cursorSense (column memoryRow : Nat) :
    Text.utf8 (cursorSense column memoryRow) =
      Byte.esc :: 0x26 :: 0x61 :: (addressBody column memoryRow ++ [0x52, Byte.cr]) := by
  rw [cursorSense, Text.utf8_append, Text.utf8_append, Text.utf8_append, Text.utf8_append, three,
    three, Decimal.utf8_padded, Decimal.utf8_padded, addressBody]
  simp only [List.append_assoc, List.cons_append]
  rfl

/-- Without its end the reply is a device sequence. -/
theorem dropLast_cursorSense (column memoryRow : Nat) :
    (Text.utf8 (cursorSense column memoryRow)).dropLast =
      Byte.esc :: 0x26 :: 0x61 :: (addressBody column memoryRow ++ [0x52]) := by
  have hend : Byte.esc :: 0x26 :: 0x61 :: (addressBody column memoryRow ++ [0x52, Byte.cr]) =
      (Byte.esc :: 0x26 :: 0x61 :: (addressBody column memoryRow ++ [0x52])) ++ [Byte.cr] := by
    simp
  rw [utf8_cursorSense, hend, List.dropLast_concat]

theorem enq_not_mem_addressBody (column memoryRow : Nat) :
    Byte.enq ∉ 0x26 :: 0x61 :: (addressBody column memoryRow ++ [0x52]) := by
  rw [List.mem_cons, List.mem_cons, List.mem_append, List.mem_singleton]
  rintro (hamp | hgroup | hbody | hlast)
  · cases hamp
  · cases hgroup
  · exact (passes_of_mem_addressBody hbody).2 rfl
  · cases hlast

end Reply

/-! ## Reading an address -/

namespace AddressTerm

/-- The terms that name a column and a row of memory. -/
def place (column memoryRow : Nat) : List AddressTerm :=
  [⟨.column, Word.saturate column, false⟩, ⟨.memoryRow, Word.saturate memoryRow, false⟩]

/-- A coordinate behind a number is split off. -/
theorem split_of_letter {b letter : UInt8} {tail rest : List UInt8} {value : Int}
    {axis : AddressAxis} (h : readValue (b :: tail) = (some value, letter :: rest))
    (hletter : letter ≠ 0) (haxis : AddressAxis.ofLetter? (Byte.lower letter) = some axis) :
    split (b :: tail) =
      (⟨axis, value, b == 0x2B || b == 0x2D⟩ :: (split rest).1, (split rest).2) := by
  rw [split]
  split
  · next hread =>
    rw [h] at hread
    cases hread
  · next hread =>
    rw [h] at hread
    cases hread
    rw [if_neg (Byte.lower_ne_zero hletter), haxis]

/-- A term that is filled with zeros is read back. -/
theorem split_paddedBytes (width n : Nat) {letter : UInt8} {axis : AddressAxis}
    (rest : List UInt8) (haxis : AddressAxis.ofLetter? (Byte.lower letter) = some axis)
    (hletter : letter ≠ 0) (hdigit : Byte.isDigit letter = false)
    (hseparator : Decimal.isSeparator letter = false) :
    split (Decimal.paddedBytes width n ++ letter :: rest) =
      (⟨axis, Word.saturate n, false⟩ :: (split rest).1, (split rest).2) := by
  have hread : readValue (Decimal.paddedBytes width n ++ letter :: rest) =
      (some (Word.saturate n), letter :: rest) := by
    have hstop : ∀ b, (letter :: rest).head? = some b → Byte.isDigit b = false := by
      intro b hb
      rw [← Option.some.inj hb, hdigit]
    rw [readValue, Decimal.read?_paddedBytes width n hstop, Decimal.takeSeparator, hseparator]
    rfl
  obtain ⟨b, more, heq, hfirst⟩ := Decimal.exists_paddedBytes width n
  have habsolute : (b == 0x2B || b == 0x2D) = false := by
    rw [Bool.or_eq_false_iff, beq_eq_false_iff_ne, beq_eq_false_iff_ne]
    constructor
    · rintro rfl
      cases hfirst
    · rintro rfl
      cases hfirst
  rw [heq, List.cons_append] at hread ⊢
  rw [split_of_letter hread hletter haxis, habsolute]

/-- The body that tells a position names its column and its row of memory. -/
theorem split_addressBody (column memoryRow : Nat) :
    (split (Reply.addressBody column memoryRow ++ [0x52])).1 = place column memoryRow := by
  have hend : split [] = ([], []) := by
    rw [split]
  rw [Reply.addressBody, List.append_assoc, List.cons_append,
    split_paddedBytes 3 column _ rfl (by decide) rfl rfl,
    split_paddedBytes 3 memoryRow _ rfl (by decide) rfl rfl, hend, place]

end AddressTerm

namespace Parser

/-- A complete address leads to the coordinates that its body names. -/
theorem deviceAction_addressBody (column memoryRow : Nat) :
    deviceAction .cursor (.ofList (0x26 :: 0x61 :: (Reply.addressBody column memoryRow ++ [0x52])))
        0x52 =
      .cursorAddress (AddressTerm.place column memoryRow) := by
  have hbody : Reply.addressBody column memoryRow ++ [0x52] ≠ [] :=
    List.append_ne_nil_of_right_ne_nil _ (List.cons_ne_nil _ _)
  simp only [deviceAction, AddressTerm.decode, Payload.rest_seek 0x26 0x61 hbody,
    AddressTerm.split_addressBody]

/-- Behind an escape byte the reply without its end is a cursor address that names column and
row. -/
theorem feed_addressBody (text : Array UInt8) (column memoryRow : Nat) :
    ((within text .inEscape []).feed
      (0x26 :: 0x61 :: (Reply.addressBody column memoryRow ++ [0x52]))).1 =
      [.cursorAddress (AddressTerm.place column memoryRow)] := by
  have hbody : ∀ b ∈ 0x61 :: Reply.addressBody column memoryRow, isTerminator b = false := by
    intro b hb
    rcases List.mem_cons.1 hb with rfl | hinside
    · rfl
    · exact (Reply.passes_of_mem_addressBody hinside).1
  have hlast : isTerminator 0x52 = true := rfl
  have hgroup : DeviceGroup.ofByte 0x61 = .cursor := rfl
  have hframes := frames_device (p := ⟨.idle, Payload.empty, text, false⟩) (.inl rfl) hbody hlast
  rw [List.headD_cons, hgroup, List.cons_append, List.cons_append, deviceAction_addressBody]
    at hframes
  have hactions := hframes.feed_fst
  rw [List.cons_append, List.cons_append, List.cons_append, feed, advance_esc (.inl rfl)]
    at hactions
  exact hactions

end Parser

/-! ## Following an address -/

namespace Screen

variable {s : Screen} {column memoryRow : Nat}

/-- An absolute address leads to its place in memory, wherever the view is. -/
theorem exists_address (htop : s.topRow ≤ greatestTopRow) (hcolumn : column < columns)
    (hrow : memoryRow < memoryRows) :
    ∃ topRow, topRow ≤ memoryRow ∧
      s.address (AddressTerm.place column memoryRow) =
        s.atPlace topRow (memoryRow - topRow) column := by
  have hnearest {limit n : Nat} (hn : n < limit) (hle : limit ≤ 2 ^ 31) :
      nearest limit (Word.saturate n) = n := by
    rw [nearest_saturate (Nat.zero_lt_of_lt hn) hle, nearest,
      Word.clamp_eq_self (Int.natCast_nonneg n) (by omega), Int.toNat_natCast]
  obtain ⟨topRow, row, haddress, hsum, -⟩ :=
    exists_address_atPlace htop (AddressTerm.place column memoryRow)
  have hplace : nearest columns (Word.saturate column) = column := hnearest hcolumn (by decide)
  have hmemory : topRow + row = memoryRow := hsum.trans (hnearest hrow (by decide))
  obtain rfl : row = memoryRow - topRow := by omega
  exact ⟨topRow, by omega, haddress.trans (congrArg (s.atPlace topRow _) hplace)⟩

end Screen

/-! ## Telling a position -/

section

variable {L S : Type} [HostLink L] [Surface S]

/-- Where the next byte asks where the cursor stands, the step arms the answer. -/
theorem Terminal.step_of_cursorSense {t : Terminal L S}
    (h : t.requested? = some (.single .cursorSense)) :
    ∃ t', t.step = .ok (true, t') ∧ t'.engine.screen = t.engine.screen ∧
      t'.engine.channel.pending =
        some (Reply.cursorSense t.engine.screen.cursor.column t.engine.screen.cursorRow) := by
  obtain ⟨ring, parser, hstep⟩ := step_of_requested h fun _ => rfl
  refine ⟨_, hstep, ?_, ?_⟩
  · exact (Engine.screen_reportLoss _).trans t.screen_pollClick
  · rw [Engine.channel_reportLoss, ← t.screen_pollClick]
    rfl

end

namespace Terminal

variable {L S : Type} [HostLink L] [Surface S]

/-! ## Following the answer -/

/-- A terminal at rest follows the answer of any terminal.  It keeps its fittings, and nothing
but its view and its cursor move, unless a click comes first and its report is shown. -/
theorem AtRest.feed_cursorSense {t : Terminal L S} (h : t.AtRest) (hformed : t.engine.WellFormed)
    {column memoryRow : Nat} (hcolumn : column < columns) (hrow : memoryRow < memoryRows)
    (hkept : ∀ s ∈ t.feedTurns (Text.utf8 (Reply.cursorSense column memoryRow)).dropLast,
      s.losesByte = false) :
    ∃ t', t.feed (Text.utf8 (Reply.cursorSense column memoryRow)).dropLast = .ok t' ∧
      t'.engine.screen.cursor.column = column ∧ t'.engine.screen.cursorRow = memoryRow ∧
      t'.engine.screen.fittings = t.engine.screen.fittings ∧
      (t.takesClick = false ∨ t.engine.channel.Connected →
        t'.engine.screen = t.engine.screen.atPlace t'.engine.screen.topRow
          t'.engine.screen.cursor.row t'.engine.screen.cursor.column) := by
  obtain ⟨opened, hopens⟩ := Engine.exists_opens h.boundary
  obtain ⟨text, hwithin⟩ := hopens.parser
  have hactions : (opened.parser.feed
      (0x26 :: 0x61 :: (Reply.addressBody column memoryRow ++ [0x52]))).1 =
      [.cursorAddress (AddressTerm.place column memoryRow)] := by
    rw [hwithin, Parser.feed_addressBody]
  rw [Reply.dropLast_cursorSense] at hkept ⊢
  obtain ⟨t', hfeed, hsheet⟩ := h.feed_edit hopens
    (Reply.enq_not_mem_addressBody column memoryRow) hactions (.cursorAddress _) hkept
  obtain ⟨topRow, hle, hplaced⟩ := Screen.exists_address
    (hopens.wellFormed hformed).screen.topRow_le hcolumn hrow
  have hscreen :
      t'.engine.screen = opened.screen.atPlace topRow (memoryRow - topRow) column :=
    (congrArg Sheet.screen hsheet).trans hplaced
  refine ⟨t', hfeed, ?_, ?_, ?_, fun hquiet => ?_⟩
  · rw [hscreen, Screen.atPlace]
  · rw [hscreen]
    exact Nat.add_sub_of_le hle
  · rw [hscreen]
    exact hopens.fittings h.boundary
  · rw [← hopens.screen_of_connected h.boundary hquiet, hscreen]
    rfl

/-- The answer to the question where the cursor stands leads any other terminal there, whatever
the two views show.  It keeps its fittings, and nothing but its view and its cursor move, unless a
click comes first and its report is shown. -/
theorem feed_sensed_address {L' S' : Type} [HostLink L'] [Surface S']
    {settings settings' : Settings} {link : L} {link' : L'} {surface : S} {surface' : S'}
    {tape : S → TapeSource} {tape' : S' → TapeSource} {events : List (Event L S)}
    {events' : List (Event L' S')} {asked : Terminal L S} {told : Terminal L' S'}
    (hasked : (start settings link surface tape).run events = .ok asked)
    (hasks : asked.requested? = some (.single .cursorSense))
    (htold : (start settings' link' surface' tape').run events' = .ok told)
    (hrest : told.AtRest) :
    ∃ answered reply, asked.step = .ok (true, answered) ∧
      answered.engine.screen = asked.engine.screen ∧
      answered.engine.channel.pending = some reply ∧
      ((∀ s ∈ told.feedTurns (Text.utf8 reply).dropLast, s.losesByte = false) →
        ∃ moved, told.feed (Text.utf8 reply).dropLast = .ok moved ∧
          moved.engine.screen.cursor.column = asked.engine.screen.cursor.column ∧
          moved.engine.screen.cursorRow = asked.engine.screen.cursorRow ∧
          moved.engine.screen.fittings = told.engine.screen.fittings ∧
          (told.takesClick = false ∨ told.engine.channel.Connected →
            moved.engine.screen = told.engine.screen.atPlace moved.engine.screen.topRow
              moved.engine.screen.cursor.row moved.engine.screen.cursor.column)) := by
  obtain ⟨answered, hstep, hscreen, hpending⟩ := step_of_cursorSense hasks
  have hasker := wellFormed_invariant.run (Engine.WellFormed.start settings link surface tape)
    hasked
  have hfollower := wellFormed_invariant.run
    (Engine.WellFormed.start settings' link' surface' tape') htold
  exact ⟨answered, _, hstep, hscreen, hpending,
    hrest.feed_cursorSense hfollower hasker.screen.column_lt hasker.screen.toBounded.cursorRow_lt⟩

/-- A position that one terminal tells is the place to which another one goes, whose view shows
other rows. -/
theorem feed_sensed_address_recorded :
    ∃ asked told moved, (recorded 8).run
        [.push [0x41, 0x41, Byte.esc, 0x61], .step, .step, .step] = .ok asked ∧
      (recorded 16).run [.feed [Byte.esc, 0x53]] = .ok told ∧
      told.feed (Text.utf8 (Reply.cursorSense 2 0)).dropLast = .ok moved ∧
      moved.engine.screen.cursor.column = 2 ∧ moved.engine.screen.cursorRow = 0 := by
  have hasked : ((recorded 8).run [.push [0x41, 0x41, Byte.esc, 0x61], .step, .step, .step]).map
      (fun t => (t.requested?, t.engine.screen.cursor.column, t.engine.screen.cursorRow,
        t.step.map (·.2.engine.channel.pending))) =
      .ok (some (.single .cursorSense), 2, 0, .ok (some (Reply.cursorSense 2 0))) := by
    cbv
  have htold : ((recorded 16).run [.feed [Byte.esc, 0x53]]).map (fun t =>
      (t.ring.toList, t.engine.parser.phase, t.engine.channel.lost, t.engine.channel.ackPending,
        (t.feedTurns (Text.utf8 (Reply.cursorSense 2 0)).dropLast).all fun s => !s.losesByte)) =
      .ok ([], .idle, none, false, true) := by
    cbv
  obtain ⟨asked, hruns, hasker⟩ := Fault.exists_of_map hasked
  obtain ⟨told, hfollows, hfollower⟩ := Fault.exists_of_map htold
  simp only [Prod.mk.injEq] at hasker hfollower
  obtain ⟨hasks, hcolumn, hrow, hreply⟩ := hasker
  obtain ⟨hempty, hphase, hlost, hquiet, hkept⟩ := hfollower
  obtain ⟨answered, reply, hstep, -, hpending, hmoves⟩ :=
    feed_sensed_address hruns hasks hfollows ⟨hempty, .inl hphase, hlost, .inl hquiet⟩
  rw [hstep] at hreply
  obtain rfl : reply = Reply.cursorSense 2 0 :=
    Option.some.inj (hpending.symm.trans (Except.ok.inj hreply))
  obtain ⟨moved, hfeed, hcolumn', hrow', -⟩ :=
    hmoves fun s hs => Bool.not_eq_true' _ ▸ List.all_eq_true.1 hkept s hs
  exact ⟨asked, told, moved, hruns, hfollows, hfeed, hcolumn'.trans hcolumn, hrow'.trans hrow⟩

/-- Without a host, the report of a click that comes before an address is shown, and an
acknowledgement that comes behind it moves the cursor on.  A click that is waited for takes the
place of a byte of an address that fills the ring. -/
theorem sensed_address_missed :
    let address := (Text.utf8 (Reply.cursorSense 5 0)).dropLast
    let inLocal := (start { Settings.standard with remote := false, ringCapacity := 16 }
      RecordingLink.unlimited RecordingSurface.empty fun _ => .missing).run
    let clicked : List (Event RecordingLink RecordingSurface) :=
      [.feed [Byte.esc, 0x2A, 0x73, 0x34, 0x5E], .surface (·.addClick ⟨⟨12, 34⟩, Click.left⟩)]
    let place := fun t : Terminal RecordingLink RecordingSurface =>
      (t.engine.parser.phase, t.engine.screen.cursor.column, t.engine.screen.cell? 0 0)
    ((recorded 8).run [.feed [Byte.esc, 0x26, 0x61, 0x35, 0x43], .feed [Byte.esc, 0x61]]).map
        (·.engine.channel.pending) = .ok (some (Reply.cursorSense 5 0)) ∧
      ((inLocal clicked).map place = .ok (.awaitClick, 0, some .empty) ∧
        (inLocal (clicked ++ [.feed address])).map place =
          .ok (.idle, 5, some (.written 0x2B .plain))) ∧
      ((inLocal [.push [Byte.enq], .step]).map place = .ok (.idle, 0, some .empty) ∧
        (inLocal [.push [Byte.enq], .step, .feed address]).map place =
          .ok (.idle, 6, some .empty)) ∧
      ((recorded 8).run clicked).map place = .ok (.awaitClick, 0, some .empty) ∧
        ((recorded 8).run (clicked ++ [.feed address])).map place =
          .ok (.idle, 0, some .empty) := by
  refine ⟨?_, ⟨?_, ?_⟩, ⟨?_, ?_⟩, ?_, ?_⟩
  · cbv
  · cbv
  · cbv
  · cbv
  · cbv
  · cbv
  · cbv

end Terminal

end GraphicsTerminal
