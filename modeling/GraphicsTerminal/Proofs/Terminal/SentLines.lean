import GraphicsTerminal.Proofs.Screen.ReadLines
import GraphicsTerminal.Proofs.Terminal.CursorSense
import GraphicsTerminal.Proofs.Terminal.Gate

/-!
# Sent lines

A host that asks for the line of the cursor gets the written cells from the cursor on, and a
carriage return.  A cell holds a byte, but the reply is a text, which travels as UTF-8: a byte
below 0x80 is sent as it is, and any other one as the two bytes of its character.

Main definitions:

- {lit}`Byte.utf8`: the bytes that carry the character of a byte.
- {lit}`Screen.WrittenRun`: the written cells from the cursor on.
- {lit}`Channel.Sends`: replies went out, and the acknowledgement that waited may have.

Main results:

- Theorem {lit}`Screen.writtenRun_viewLine`: the line that is read back is the written run.
- Theorem {lit}`Terminal.observe_sendLine`: what a host is sent that asks for the line.
- Theorem {lit}`Terminal.sent_line_of_high_byte`: a byte above 0x7F is not sent as it is.
-/

namespace GraphicsTerminal

/-! ## Characters as bytes -/

namespace Byte

/-- The UTF-8 bytes of the character whose code is the byte. -/
def utf8 (b : UInt8) : List UInt8 :=
  if b < 0x80 then [b] else [(0xC0 : UInt8) ||| (b >>> 6), (0x80 : UInt8) ||| (b &&& 0x3F)]

theorem utf8EncodeChar_char (b : UInt8) : String.utf8EncodeChar (char b) = utf8 b := by
  have hall : ∀ n : Fin 256, String.utf8EncodeChar (char (UInt8.ofFin n)) =
      utf8 (UInt8.ofFin n) := by
    decide +kernel
  exact hall b.toFin

/-- Every character needs a byte. -/
theorem length_le_flatMap_utf8 (bytes : List UInt8) :
    bytes.length ≤ (bytes.flatMap utf8).length := by
  induction bytes with
  | nil => exact Nat.le_refl _
  | cons b bytes ih =>
    have hone : 1 ≤ (utf8 b).length := by
      unfold utf8
      split
      · exact Nat.le_refl _
      · exact Nat.le_succ _
    rw [List.flatMap_cons, List.length_append, List.length_cons]
    omega

/-- Characters are sent as their codes exactly if all these are below 0x80. -/
theorem flatMap_utf8_eq_self_iff (bytes : List UInt8) :
    bytes.flatMap utf8 = bytes ↔ ∀ b ∈ bytes, b < 0x80 := by
  induction bytes with
  | nil => exact iff_of_true rfl fun _ h => (List.not_mem_nil h).elim
  | cons b bytes ih =>
    rw [List.flatMap_cons, List.forall_mem_cons, ← ih, utf8]
    split
    · next hlow => simp only [List.singleton_append, List.cons.injEq, hlow, true_and]
    · next hhigh =>
      refine iff_of_false (fun hsame => ?_) fun h => hhigh h.1
      have hlength := congrArg List.length hsame
      have hle := length_le_flatMap_utf8 bytes
      simp only [List.length_append, List.length_cons, List.length_nil] at hlength
      omega

end Byte

/-- A line is sent as its characters and a carriage return. -/
theorem Reply.utf8_line (bytes : List UInt8) :
    Text.utf8 (Reply.line bytes) = bytes.flatMap Byte.utf8 ++ [Byte.cr] := by
  have hchars : Text.utf8 (Text.ofBytes bytes) = bytes.flatMap Byte.utf8 := by
    rw [Text.utf8, Text.ofBytes, String.toList_ofList, List.flatMap_map]
    exact congrArg (bytes.flatMap ·) (funext Byte.utf8EncodeChar_char)
  rw [Reply.line, Text.utf8_append, hchars]
  rfl

/-! ## Written runs -/

namespace Screen

/-- The contents of the cells from the cursor on that are written, up to the first empty one or
the end of the row. -/
structure WrittenRun (s : Screen) (run : List UInt8) : Prop where
  written : ∀ i (h : i < run.length), ∃ style,
    s.memory.cell? s.cursorRow (s.cursor.column + i) = some (.written run[i] style)
  stops : s.memory.cell? s.cursorRow (s.cursor.column + run.length) = some .empty ∨
    s.cursor.column + run.length = columns

/-- The written run is the longest run of written cells. -/
theorem WrittenRun.longestRun {s : Screen} {run : List UInt8} (h : s.WrittenRun run) :
    s.memory.LongestRun s.cursorRow s.cursor.column columns run := by
  have hend : s.cursor.column + run.length ≤ columns := by
    rcases h.stops with hempty | hend
    · refine Nat.not_lt.1 fun hbeyond => ?_
      rw [Memory.cell?_eq_none _ _ (Nat.le_of_lt hbeyond)] at hempty
      cases hempty
    · exact hend.le
  refine Memory.longestRun_iff.2 ⟨h.written, by omega, .inr fun b style hwritten => ?_⟩
  rcases h.stops with hempty | hend
  · rw [hwritten] at hempty
    cases hempty
  · rw [hend, Memory.cell?_eq_none _ _ (Nat.le_refl _)] at hwritten
    cases hwritten

/-- No other bytes are the written run. -/
theorem WrittenRun.unique {s : Screen} {run run' : List UInt8} (h : s.WrittenRun run)
    (h' : s.WrittenRun run') : run = run' :=
  h.longestRun.unique h'.longestRun

/-- The line that is read back from the cursor on is the written run. -/
theorem writtenRun_viewLine {s : Screen} (h : s.Bounded) :
    s.WrittenRun (s.viewLine s.cursor.row s.cursor.column columns) := by
  have hrow := h.cursorRow_lt
  have hcolumn := h.column_lt
  have hplace : s.cursor.row + s.topRow = s.cursorRow := Nat.add_comm _ _
  have hread := s.longestRun_memoryLine s.cursorRow s.cursor.column columns
  rw [readRow_of_lt hrow, Nat.min_eq_left (Nat.le_sub_one_of_lt hcolumn)] at hread
  rw [viewLine, hplace]
  generalize s.memoryLine s.cursorRow s.cursor.column columns = run at hread ⊢
  obtain ⟨hwrites, -, hstops⟩ := Memory.longestRun_iff.1 hread
  have hend := hwrites.end_le (Nat.le_of_lt hcolumn)
  refine ⟨hwrites, (Nat.lt_or_eq_of_le hend).imp_left fun hin => ?_⟩
  have hunwritten := hstops.resolve_left (by omega)
  rw [s.memory.cell?_eq_some hrow hin] at hunwritten ⊢
  cases hcell : s.memory[s.cursorRow][s.cursor.column + run.length] with
  | empty => rfl
  | written b style => exact absurd (congrArg some hcell) (hunwritten b style)

end Screen

/-! ## Replies to the host -/

namespace Channel

variable {L : Type} [HostLink L] {c c' : Channel (LoggedLink L)} {replies : List (List UInt8)}

/-- The acknowledgement that waits, as a write. -/
def acks (c : Channel L) : List (List UInt8) := if c.ackPending then [[Byte.ack]] else []

/-- Some replies went to the host.  An acknowledgement that waited went out before or after
them, or waits still. -/
structure Sends (c c' : Channel (LoggedLink L)) (replies : List (List UInt8)) : Prop where
  connected : c'.Connected
  writes : ∃ early late, c'.link.writes = c.link.writes ++ early ++ replies ++ late ∧
    early ++ late ++ c'.acks = c.acks

theorem Sends.refl (h : c.Connected) : c.Sends c [] where
  connected := h
  writes := ⟨[], [], by simp only [List.append_nil], rfl⟩

/-- What concerns neither the link nor the acknowledgements does not matter. -/
theorem Sends.congr (h : c.Sends c' replies) {next : Channel (LoggedLink L)}
    (hnext : next.Connected) (hlink : next.link = c'.link)
    (hack : next.ackPending = c'.ackPending) : c.Sends next replies where
  connected := hnext
  writes := by
    obtain ⟨early, late, hwrites, hacks⟩ := h.writes
    refine ⟨early, late, ?_, ?_⟩
    · rw [hlink]
      exact hwrites
    · rw [acks, hack]
      exact hacks

/-- Another reply goes out behind an acknowledgement that went out before it. -/
theorem Sends.sendBytes (h : c.Sends c' []) (screen : Screen) (bytes : List UInt8) :
    c.Sends (c'.sendBytes screen bytes).1 [bytes] where
  connected := (h.connected.sendBytes screen bytes).1
  writes := by
    obtain ⟨early, late, hwrites, hacks⟩ := h.writes
    refine ⟨early ++ late, [], ?_, ?_⟩
    · rw [writes_sendBytes, h.connected.remote, hwrites]
      simp only [if_true, List.append_nil, List.append_assoc]
    · rw [List.append_nil, acks, ackPending_sendBytes]
      exact hacks

/-- In an idle moment the acknowledgement that waits goes out. -/
theorem Sends.flushAck (h : c.Sends c' replies) (screen : Screen) :
    c.Sends (c'.flushAck screen).1 replies ∧ (c'.flushAck screen).2 = screen ∧
      (c'.flushAck screen).1.ackPending = false ∧
      (c'.flushAck screen).1.pending = c'.pending := by
  rw [Channel.flushAck]
  split
  · next hack =>
    have hquiet : Connected { c' with ackPending := false } := { h.connected with }
    obtain ⟨hsent, hscreen⟩ := hquiet.sendBytes screen [Byte.ack]
    have hnone := ackPending_sendBytes { c' with ackPending := false } screen [Byte.ack]
    refine ⟨⟨hsent, ?_⟩, hscreen, hnone, pending_sendBytes _ _ _⟩
    obtain ⟨early, late, hwrites, hacks⟩ := h.writes
    refine ⟨early, late ++ [[Byte.ack]], ?_, ?_⟩
    · rw [sendByte, writes_sendBytes, hquiet.remote, hwrites]
      simp only [if_true, List.append_assoc]
    · rw [acks, if_pos hack] at hacks
      rw [acks, sendByte, hnone, ← hacks]
      simp only [Bool.false_eq_true, if_false, List.append_nil, List.append_assoc]
  · next hack => exact ⟨h, rfl, Bool.eq_false_iff.2 hack, rfl⟩

end Channel

/-- A remote channel that is released writes the reply that waited. -/
theorem Channel.writes_release {L : Type} [HostLink L] {c : Channel (LoggedLink L)}
    (h : c.remote = true) (screen : Screen) :
    (c.release screen).1.link.writes = c.link.writes ++ c.pending.toList.map Text.utf8 := by
  cases hpending : c.pending with
  | none =>
    rw [release_of_none hpending]
    exact (List.append_nil _).symm
  | some reply =>
    rw [release_of_some hpending, writes_sendBytes]
    exact congrArg (c.link.writes ++ ·) (if_pos h)

/-! ## The question for the line -/

namespace Engine

variable {L S : Type} [HostLink L] [Surface S] {origin e opened : Engine (LoggedLink L) S}
  {seen : List UInt8} {b : UInt8}

/-- Behind an escape byte the report of a click was written, if there was one. -/
theorem Opens.writes (h : e.Opens opened) (hboundary : e.parser.AtBoundary)
    (hremote : e.channel.remote = true) :
    opened.channel.link.writes = e.channel.link.writes ++
      if e.pollClick.1 then e.pollClick.2.channel.pending.toList.map Text.utf8 else [] := by
  have hlink : e.pollClick.2.channel.link = e.channel.link := by
    rcases e.channel_pollClick with hsame | ⟨reply, harmed⟩
    · rw [hsame]
    · rw [harmed]
      rfl
  rcases h.cases hboundary with ⟨hclick, hpolled, hopened⟩ |
    ⟨hclick, hidle, shaken, hshaken, hphase, hopened⟩
  · rw [link_of_receive_esc hpolled hopened, hlink, hclick]
    exact (List.append_nil _).symm
  · have hreleased := Channel.writes_release (e.remote_pollClick.trans hremote)
      e.pollClick.2.screen
    rw [hlink] at hreleased
    rw [receive_handshake _ (.inl hidle)] at hshaken
    cases hshaken
    rw [link_of_receive_esc (.inl hphase) hopened, channel_reportLoss, if_pos hclick, ← hreleased]
    rfl

/-- The reply that tells the line of the cursor. -/
def lineReply (e : Engine (LoggedLink L) S) : String :=
  Reply.line (e.screen.viewLine e.screen.cursor.row e.screen.cursor.column columns)

omit [HostLink L] [Surface S] in
/-- The reply is sent as the characters of the written run. -/
theorem exists_utf8_lineReply (h : e.screen.Bounded) :
    ∃ run, e.screen.WrittenRun run ∧
      Text.utf8 e.lineReply = run.flatMap Byte.utf8 ++ [Byte.cr] :=
  ⟨_, Screen.writtenRun_viewLine h, Reply.utf8_line _⟩

/-- How far an engine has come from an escape byte to the handshake behind the question for the
line. -/
inductive Reports (origin : Engine (LoggedLink L) S) : List UInt8 → Engine (LoggedLink L) S → Prop
  | opened {e : Engine (LoggedLink L) S} (hparser : ∃ text, e.parser = .within text .inEscape [])
      (hscreen : e.screen = origin.screen) (hsends : origin.channel.Sends e.channel []) :
      Reports origin [] e
  | armed {e : Engine (LoggedLink L) S} (hphase : e.parser.phase = .idle)
      (hpending : e.channel.pending = some origin.lineReply)
      (hsends : origin.channel.Sends e.channel []) : Reports origin [0x64] e
  | sent {e : Engine (LoggedLink L) S} (hphase : e.parser.phase = .idle)
      (hsends : origin.channel.Sends e.channel [Text.utf8 origin.lineReply]) :
      Reports origin [0x64, Byte.dc1] e

namespace Reports

omit [Surface S] in
theorem awake (h : origin.Reports seen e) : e.parser.phase ≠ .awaitClick := by
  cases h with
  | opened hparser _ _ =>
    obtain ⟨text, hwithin⟩ := hparser
    rw [hwithin]
    exact Phase.noConfusion
  | armed hphase _ _ =>
    rw [hphase]
    exact Phase.noConfusion
  | sent hphase _ =>
    rw [hphase]
    exact Phase.noConfusion

omit [Surface S] in
/-- An idle moment changes nothing but the acknowledgement. -/
theorem idle (h : origin.Reports seen e) :
    origin.Reports seen e.idle ∧ e.idle.channel.ackPending = false := by
  have hidle {replies : List (List UInt8)} (hsends : origin.channel.Sends e.channel replies) :
      origin.channel.Sends e.idle.channel replies ∧ e.idle.screen = e.screen ∧
        e.idle.channel.ackPending = false ∧ e.idle.channel.pending = e.channel.pending := by
    have hflushed := hsends.flushAck e.screen
    have hlost : e.idle = e.useChannel Channel.flushAck :=
      reportLoss_of_none hflushed.1.connected.lost
    rw [hlost]
    exact hflushed
  have hparser := parser_idle e
  cases h with
  | opened hwithin hscreen hsends =>
    obtain ⟨hsent, hkept, hack, -⟩ := hidle hsends
    exact ⟨.opened (hparser ▸ hwithin) (hkept.trans hscreen) hsent, hack⟩
  | armed hphase hpending hsends =>
    obtain ⟨hsent, -, hack, hwaits⟩ := hidle hsends
    exact ⟨.armed (hparser ▸ hphase) (hwaits.trans hpending) hsent, hack⟩
  | sent hphase hsends =>
    obtain ⟨hsent, -, hack, -⟩ := hidle hsends
    exact ⟨.sent (hparser ▸ hphase) hsent, hack⟩

/-- The question arms the reply, and the handshake sends it. -/
theorem receive (h : origin.Reports seen e) (hb : seen ++ [b] <+: [0x64, Byte.dc1]) :
    ∃ next, e.receive b = .ok next ∧ origin.Reports (seen ++ [b]) next := by
  cases h with
  | opened hparser hscreen hsends =>
    obtain ⟨rfl, -⟩ := List.cons_prefix_cons.1 hb
    obtain ⟨text, hwithin⟩ := hparser
    have hadvanced : (e.parser.advance 0x64).1 = some (.single .sendLine) ∧
        (e.parser.advance 0x64).2.phase = .idle := by
      rw [hwithin]
      exact ⟨rfl, rfl⟩
    have hreceive : e.receive 0x64 =
        .ok ({ e with parser := (e.parser.advance 0x64).2 }.arm e.lineReply) := by
      rw [Engine.receive, if_neg (by decide), interpret, hadvanced.1]
      exact congrArg Except.ok (reportLoss_of_none hsends.connected.lost)
    have hreply : e.lineReply = origin.lineReply := by
      rw [lineReply, lineReply, hscreen]
    exact ⟨_, hreceive, .armed hadvanced.2 (congrArg some hreply)
      (hsends.congr { hsends.connected with } rfl rfl)⟩
  | armed hphase hpending hsends =>
    obtain ⟨-, hrest⟩ := List.cons_prefix_cons.1 hb
    obtain ⟨rfl, -⟩ := List.cons_prefix_cons.1 hrest
    have hreceive := receive_handshake e (.inl hphase)
    refine ⟨_, hreceive, .sent (receive_dc1_phase hphase hreceive) ?_⟩
    have hquiet : origin.channel.Sends { e.channel with pending := none } [] :=
      hsends.congr { hsends.connected with } rfl rfl
    have hsent := hquiet.sendBytes e.screen (Text.utf8 origin.lineReply)
    rw [← Channel.release_of_some hpending] at hsent
    rw [channel_reportLoss]
    exact hsent.congr { hsent.connected with lost := rfl } rfl rfl
  | sent _ _ =>
    have hlength := hb.length_le
    simp only [List.length_append, List.length_cons, List.length_nil] at hlength
    omega

omit [Surface S] in
/-- In the end the reply went out, and the acknowledgement that waited before or behind it. -/
theorem writes_of_sent (h : origin.Reports [0x64, Byte.dc1] e)
    (hack : e.channel.ackPending = false) :
    ∃ early late, e.channel.link.writes = origin.channel.link.writes ++ early ++
        [Text.utf8 origin.lineReply] ++ late ∧
      early ++ late = origin.channel.acks := by
  cases h with
  | sent _ hsends =>
    obtain ⟨early, late, hwrites, hacks⟩ := hsends.writes
    rw [Channel.acks, hack, if_neg Bool.false_ne_true, List.append_nil] at hacks
    exact ⟨early, late, hwrites, hacks⟩

end Reports

end Engine

namespace Terminal

variable {L S : Type} [HostLink L] [Surface S]

/-- A terminal follows the question for the line and the handshake behind it. -/
theorem follows_reports (origin : Engine (LoggedLink L) S) :
    Follows (fun seen b => seen ++ [b] <+: [0x64, Byte.dc1]) (fun (_ : Unit) _ => pure ())
      (fun seen e _ => origin.Reports seen e)
      (fun seen e _ => origin.Reports seen e ∧ e.channel.ackPending = false) where
  busy_of_settled := And.left
  poll := by
    intro seen e _ h
    rw [Engine.still_of_phase h.awake]
    exact ⟨rfl, h⟩
  receive := by
    intro seen e _ b hb h
    obtain ⟨next, hreceive, hnext⟩ := h.receive hb
    rw [hreceive]
    exact .ok hnext
  idle := fun h => h.idle

omit [HostLink L] in
theorem takesClick_logged (t : Terminal L S) : t.logged.takesClick = t.takesClick :=
  congrArg Prod.fst t.engine.pollClick_logged

/-- The log behind an escape byte: the report of a click, if one was waited for and came. -/
theorem writes_of_opens {t : Terminal L S} {opened : Engine (LoggedLink L) (LoggedSurface S)}
    (hopens : t.logged.engine.Opens opened) (hboundary : t.engine.parser.AtBoundary)
    (hremote : t.engine.channel.remote = true) :
    opened.channel.link.writes =
      if t.takesClick then t.due.toList.map Text.utf8 else [] := by
  have hdue : t.logged.engine.pollClick.2.channel.pending = t.due := by
    rw [← pending_pollClick, engine_pollClick]
    exact congrArg (·.2.channel.pending) t.engine.pollClick_logged
  rw [hopens.writes hboundary hremote, hdue, ← takesClick_logged]
  rfl

/-- The host that asks for the line of the cursor gets its characters and a carriage return, behind
the report of a click that was waited for.  An acknowledgement that waits goes out before or behind
the line.  The line comes as it is stored exactly if its bytes are below 0x80. -/
theorem observe_sendLine {settings : Settings} {link : L} {surface : S}
    {tape : S → TapeSource} {events : List (Event L S)} {t : Terminal L S}
    (hrun : (start settings link surface tape).run events = .ok t)
    (hempty : t.ring.toList = []) (hboundary : t.engine.parser.AtBoundary)
    (hremote : t.engine.channel.remote = true)
    (hlink : HostLink.Reliable t.engine.channel.link)
    (hkept : ∀ s ∈ t.feedTurns [Byte.esc, 0x64, Byte.dc1], s.losesByte = false) :
    ∃ run o early late, t.engine.screen.WrittenRun run ∧
      t.observe [.feed [Byte.esc, 0x64, Byte.dc1]] = .ok o ∧
      o.writes = (if t.takesClick then t.due.toList.map Text.utf8 else []) ++ early ++
        [run.flatMap Byte.utf8 ++ [Byte.cr]] ++ late ∧
      early ++ late = (if t.engine.channel.ackPending then [[Byte.ack]] else []) ∧
      (run.flatMap Byte.utf8 ++ [Byte.cr] = run ++ [Byte.cr] ↔ ∀ b ∈ run, b < 0x80) := by
  have hformed := wellFormed_invariant.run (Engine.WellFormed.start settings link surface tape)
    hrun
  have hlost := lost_of_run_start hrun
  have hconnected : t.logged.engine.channel.Connected :=
    ⟨hremote, LoggedLink.reliable hlink, hlost⟩
  obtain ⟨opened, hopens⟩ := Engine.exists_opens (e := t.logged.engine) hboundary
  have hscreen : opened.screen = t.engine.screen :=
    hopens.screen_of_connected hboundary (.inr hconnected)
  have hroom : (t.logged.filled [Byte.esc, 0x64, Byte.dc1]).losesByte = false := by
    have hloses := hkept _ (filled_mem_feedTurns t _ _)
    rw [losesByte_filled hempty] at hloses
    rw [losesByte_filled (t := t.logged) hempty, takesClick_logged]
    exact hloses
  have hallowed : AllowedAfter (fun seen b => seen ++ [b] <+: [0x64, Byte.dc1]) []
      [0x64, Byte.dc1] :=
    ⟨⟨[Byte.dc1], rfl⟩, ⟨[], rfl⟩, trivial⟩
  obtain ⟨u, hfed, -, hreports, hack⟩ := run_of_opens (follows_reports opened) hempty hopens []
    (List.append_nil _) hroom hallowed
    (.opened hopens.parser rfl (.refl (hopens.connected hconnected)))
  obtain ⟨early, late, hwrites, hacks⟩ := hreports.writes_of_sent hack
  obtain ⟨run, hwritten, hline⟩ :=
    opened.exists_utf8_lineReply (hscreen ▸ hformed.screen.toBounded)
  rw [writes_of_opens hopens hboundary hremote, hline] at hwrites
  rw [Channel.acks, hopens.ackPending] at hacks
  rw [hscreen] at hwritten
  refine ⟨run, u.engine.observation, early, late, hwritten, ?_, hwrites, hacks, ?_⟩
  · exact congrArg (Except.map (·.engine.observation)) hfed
  · rw [List.append_left_inj]
    exact Byte.flatMap_utf8_eq_self_iff run

/-- Two letters before an empty cell, and one behind it that is not sent. -/
theorem observe_sendLine_recorded :
    ∃ t o, (recorded 16).run
        [.feed [0x41, 0x42, Byte.esc, 0x43, 0x44, Byte.cr]] = .ok t ∧
      t.engine.screen.WrittenRun [0x41, 0x42] ∧
      t.observe [.feed [Byte.esc, 0x64, Byte.dc1]] = .ok o ∧
      o.writes = [[0x41, 0x42, Byte.cr]] := by
  have hfacts : ((recorded 16).run
      [.feed [0x41, 0x42, Byte.esc, 0x43, 0x44, Byte.cr]]).map (fun t =>
        (t.ring.toList, t.engine.parser.phase, t.engine.channel.remote,
          t.engine.channel.link.limit, t.engine.channel.link.closed,
          t.engine.channel.ackPending, t.takesClick,
          (t.feedTurns [Byte.esc, 0x64, Byte.dc1]).all (fun s => !s.losesByte))) =
      .ok ([], .idle, true, none, false, false, false, true) := by
    cbv
  have hcells : ((recorded 16).run
      [.feed [0x41, 0x42, Byte.esc, 0x43, 0x44, Byte.cr]]).map (fun t =>
        (t.engine.screen.cursorRow, t.engine.screen.cursor.column,
          t.engine.screen.memory.cell? 0 0, t.engine.screen.memory.cell? 0 1,
          t.engine.screen.memory.cell? 0 2)) =
      .ok (0, 0, some (.written 0x41 .plain), some (.written 0x42 .plain), some .empty) := by
    cbv
  obtain ⟨t, hrun, hseen⟩ := Fault.exists_of_map hfacts
  rw [hrun] at hcells
  have hshown := Except.ok.inj hcells
  simp only [Prod.mk.injEq] at hseen hshown
  obtain ⟨hempty, hphase, hremote, hlimit, hopen, hack, hclick, hkept⟩ := hseen
  obtain ⟨hrow, hcolumn, hfirst, hsecond, hthird⟩ := hshown
  have hletters : t.engine.screen.WrittenRun [0x41, 0x42] := by
    refine ⟨fun i hi => ⟨.plain, ?_⟩, .inl ?_⟩
    · rw [hrow, hcolumn, Nat.zero_add]
      have htwo : i < 2 := hi
      obtain rfl | rfl : i = 0 ∨ i = 1 := by omega
      · exact hfirst
      · exact hsecond
    · rw [hrow, hcolumn]
      exact hthird
  obtain ⟨run, o, early, late, hwritten, hobserved, hwrites, hacks, -⟩ :=
    observe_sendLine hrun hempty (.inl hphase) hremote (RecordingLink.reliable hlimit hopen)
      fun s hs => Bool.not_eq_true' _ ▸ List.all_eq_true.1 hkept s hs
  obtain rfl := hwritten.unique hletters
  rw [hack] at hacks
  obtain ⟨rfl, rfl⟩ := List.append_eq_nil_iff.1 hacks
  rw [hclick] at hwrites
  exact ⟨t, o, hrun, hletters, hobserved, hwrites⟩

/-- A byte above 0x7F, which the screen shows, is sent as two bytes. -/
theorem sent_line_of_high_byte :
    ∃ t o, (recorded 16).run [.feed [0xE4, Byte.cr]] = .ok t ∧
      t.engine.parser.AtBoundary ∧ t.engine.screen.WrittenRun [0xE4] ∧
      t.observe [.feed [Byte.esc, 0x64, Byte.dc1]] = .ok o ∧
      o.writes = [[0xC3, 0xA4, Byte.cr]] ∧ o.writes ≠ [[0xE4, Byte.cr]] := by
  have hfacts : ((recorded 16).run [.feed [0xE4, Byte.cr]]).map (fun t =>
      (t.engine.parser.phase, t.engine.screen.cursorRow, t.engine.screen.cursor.column,
        t.engine.screen.memory.cell? 0 0, t.engine.screen.memory.cell? 0 1,
        (t.observe [.feed [Byte.esc, 0x64, Byte.dc1]]).map Observation.writes)) =
      .ok (.idle, 0, 0, some (.written 0xE4 .plain), some .empty,
        .ok [[0xC3, 0xA4, Byte.cr]]) := by
    cbv
  obtain ⟨t, hrun, hseen⟩ := Fault.exists_of_map hfacts
  simp only [Prod.mk.injEq] at hseen
  obtain ⟨hphase, hrow, hcolumn, hfirst, hsecond, hsent⟩ := hseen
  obtain ⟨o, hobserved, hwrites⟩ := Fault.exists_of_map hsent
  refine ⟨t, o, hrun, .inl hphase, ⟨fun i hi => ⟨.plain, ?_⟩, .inl ?_⟩, hobserved, hwrites, ?_⟩
  · obtain rfl : i = 0 := Nat.lt_one_iff.1 hi
    rw [hrow, hcolumn]
    exact hfirst
  · rw [hrow, hcolumn]
    exact hsecond
  · rw [hwrites]
    decide

end Terminal

end GraphicsTerminal
