import GraphicsTerminal.Proofs.Session.Turns
import GraphicsTerminal.Proofs.Terminal.Rhythm

/-!
# Sessions are linear

Bytes, keys and turns come to a session in any order, also while a turn is under way,
and its owner takes events at any time.  What the session makes of them is what one
terminal makes of one list of inputs: the bytes that were pushed and the keys that were
sent, each once and in their order, with idle moments in between.  A session that stops
has used all that came before the command to stop.

The events of these inputs are those that the owner took, those that wait in the channel,
and those in the terminal.  The owner who stops the session gives the channel away, so
those that wait there are lost.

Main definitions:

- {lit}`EventChannel.Carries`: what was sent into a channel.
- {lit}`SessionMove.pushed`, {lit}`SessionMove.sent`: the bytes and the commands among
  moves.
- {lit}`SessionLoop.Served`: a loop, and the terminal that took the inputs so far.
- {lit}`SessionLoop.Linearized`: what is said of a session that has stopped.

Main results:

- Theorem {lit}`SessionLoop.Served.part`: a part of a turn takes at most one input.
- Theorem {lit}`SessionLoop.Served.run`: whatever happens to a session comes from inputs.
- Theorem {lit}`SessionLoop.shutdown_linearized`: a session that is told to stop stops,
  and it is linear.
- Theorem {lit}`SessionLoop.bell_lost_at_shutdown`: an event of the last turn is lost.
-/

namespace GraphicsTerminal

/-! ## Events in the channel -/

namespace EventChannel

/-- What was sent into a channel was received, and the rest waits; when the owner has hung
up, the rest is lost. -/
def Carries (c : EventChannel) (sent : List TerminalEvent) : Prop :=
  ∃ rest, sent = c.received ++ rest ∧ ∀ waiting, c.waiting? = some waiting → rest = waiting

variable {c : EventChannel} {sent : List TerminalEvent}

/-- A new channel has carried nothing. -/
theorem carries_start : start.Carries [] := ⟨[], rfl, fun _ h => Option.some.inj h⟩

/-- What is sent is behind all that was sent before, received or not. -/
theorem Carries.send (h : c.Carries sent) (events : List TerminalEvent) :
    (c.send events).Carries (sent ++ events) := by
  rcases h with ⟨rest, rfl, hrest⟩
  refine ⟨rest ++ events, List.append_assoc _ _ _, ?_⟩
  intro waiting hwaiting
  rcases Option.map_eq_some_iff.1 hwaiting with ⟨before, hbefore, rfl⟩
  rw [hrest before hbefore]

/-- An event that is taken has waited longest, so the order is kept. -/
theorem Carries.take (h : c.Carries sent) : c.take.2.Carries sent := by
  rcases c with ⟨received, _ | _ | ⟨event, waiting⟩⟩
  · exact h
  · exact h
  · rcases h with ⟨rest, rfl, hrest⟩
    obtain rfl : rest = event :: waiting := hrest _ rfl
    refine ⟨waiting, ?_, fun _ h => Option.some.inj h⟩
    simp [EventChannel.take]

/-- What waited is lost, and what was received is not. -/
theorem Carries.hangUp (h : c.Carries sent) : c.hangUp.Carries sent := by
  rcases h with ⟨rest, hsent, -⟩
  exact ⟨rest, hsent, nofun⟩

/-- All was received exactly when nothing waits. -/
theorem Carries.eq_received_iff {waiting : List TerminalEvent} (h : c.Carries sent)
    (hopen : c.waiting? = some waiting) : sent = c.received ↔ waiting = [] := by
  rcases h with ⟨rest, rfl, hrest⟩
  rw [← hrest waiting hopen]
  exact List.append_right_eq_self

variable {L S : Type} [Surface S]

/-- A terminal whose events are sent into a channel, beside one that keeps its events. -/
def JustInTime (c : EventChannel) (settings : Settings) (tape : S → TapeSource)
    (t m : Terminal L S) : Prop :=
  ∃ sent, c.Carries sent ∧ Terminal.JustInTime settings tape sent t m

namespace JustInTime

variable {settings : Settings} {tape : S → TapeSource} {t m : Terminal L S}

theorem start (hempty : t.ring.toList = []) (hsilent : Surface.Silent t.engine.surface) :
    EventChannel.start.JustInTime t.engine.settings t.engine.tape t t :=
  ⟨[], carries_start, Terminal.JustInTime.start hempty hsilent⟩

/-- Bytes for which there is room wait. -/
theorem push (h : c.JustInTime settings tape t m) {bytes : List UInt8}
    (hfits : bytes.length ≤ t.ring.free) :
    c.JustInTime settings tape (t.push bytes).2 m := by
  rcases h with ⟨sent, hcarries, hterminals⟩
  exact ⟨sent, hcarries, hterminals.push hfits⟩

/-- A key comes to both terminals. -/
theorem press [HostLink L] (h : c.JustInTime settings tape t m) (key : Key) :
    c.JustInTime settings tape (t.press key).2 (m.press key).2 := by
  rcases h with ⟨sent, hcarries, hterminals⟩
  exact ⟨sent, hcarries, hterminals.press key⟩

/-- The events of the terminal are sent behind those that were sent before. -/
theorem deliver (h : c.JustInTime settings tape t m) :
    (c.send t.engine.events.toList).JustInTime settings tape t.collect m := by
  rcases h with ⟨sent, hcarries, hterminals⟩
  exact ⟨_, hcarries.send _, hterminals.deliver⟩

/-- The owner takes an event, and no terminal sees it. -/
theorem take (h : c.JustInTime settings tape t m) : c.take.2.JustInTime settings tape t m := by
  rcases h with ⟨sent, hcarries, hterminals⟩
  exact ⟨sent, hcarries.take, hterminals⟩

/-- The owner hangs up, and no terminal sees it. -/
theorem hangUp (h : c.JustInTime settings tape t m) :
    c.hangUp.JustInTime settings tape t m := by
  rcases h with ⟨sent, hcarries, hterminals⟩
  exact ⟨sent, hcarries.hangUp, hterminals⟩

end JustInTime

end EventChannel

/-- The events that the owner of a session is left with: those that were received, and
then those in the terminal. -/
def Session.collected {L S : Type} (s : Session L S) : List TerminalEvent :=
  s.events.received ++ s.terminal.engine.events.toList

/-! ## Commands and moves -/

namespace SessionCommand

/-- The keys that are obeyed, up to the first command to stop. -/
def obeyed : List SessionCommand → List Key
  | .key pressed :: rest => pressed :: obeyed rest
  | _ => []

/-- Keys in front of the commands are obeyed first. -/
theorem obeyed_append (keys : List Key) (rest : List SessionCommand) :
    obeyed (keys.map .key ++ rest) = keys ++ obeyed rest := by
  induction keys with
  | nil => rfl
  | cons pressed keys ih => exact congrArg (pressed :: ·) ih

/-- Later commands do not take back what is obeyed. -/
theorem obeyed_prefix (commands later : List SessionCommand) :
    obeyed commands <+: obeyed (commands ++ later) := by
  induction commands with
  | nil => exact List.nil_prefix
  | cons c commands ih =>
    cases c with
    | key pressed => exact List.prefix_cons_inj pressed |>.2 ih
    | stop => exact List.nil_prefix

end SessionCommand

namespace SessionMove

/-- The bytes that a move lets wait. -/
def bytes : SessionMove → List UInt8
  | push bytes => bytes
  | _ => []

/-- The commands that a move lets wait. -/
def commands : SessionMove → List SessionCommand
  | command c => [c]
  | _ => []

/-- The key that a move sends. -/
def key? : SessionMove → Option Key
  | command (.key pressed) => some pressed
  | _ => none

/-- The bytes that were pushed, in order. -/
def pushed (moves : List SessionMove) : List UInt8 := moves.flatMap bytes

/-- The commands that were sent, in order. -/
def sent (moves : List SessionMove) : List SessionCommand := moves.flatMap commands

/-- The keys that were sent, in order. -/
def keys (moves : List SessionMove) : List Key := moves.filterMap key?

@[simp]
theorem pushed_append (front back : List SessionMove) :
    pushed (front ++ back) = pushed front ++ pushed back := List.flatMap_append

@[simp]
theorem sent_append (front back : List SessionMove) :
    sent (front ++ back) = sent front ++ sent back := List.flatMap_append

/-- Until the first command to stop, all keys are obeyed. -/
theorem obeyed_sent {moves : List SessionMove} (hstop : command .stop ∉ moves)
    (rest : List SessionCommand) :
    SessionCommand.obeyed (sent moves ++ .stop :: rest) = keys moves := by
  induction moves with
  | nil => rfl
  | cons m moves ih =>
    have hrest : command .stop ∉ moves := fun hmem => hstop (.tail m hmem)
    cases m with
    | push bytes => exact ih hrest
    | command c =>
      cases c with
      | key pressed => exact congrArg (pressed :: ·) (ih hrest)
      | stop => exact absurd (.head moves) hstop
    | part => exact ih hrest
    | take => exact ih hrest
    | hangUp => exact ih hrest

/-- A command is sent by the move of that command. -/
theorem mem_sent_iff {moves : List SessionMove} {c : SessionCommand} :
    c ∈ sent moves ↔ command c ∈ moves := by
  rw [sent, List.mem_flatMap]
  constructor
  · rintro ⟨m, hm, hsent⟩
    cases m with
    | command c' =>
      obtain rfl : c = c' := List.mem_singleton.1 hsent
      exact hm
    | push | part | take | hangUp => exact absurd hsent List.not_mem_nil
  · intro hm
    exact ⟨command c, hm, List.mem_singleton.2 rfl⟩

/-- Without a command nothing is sent. -/
theorem sent_eq_nil {moves : List SessionMove} (hnone : ∀ c, command c ∉ moves) :
    sent moves = [] := by
  rw [List.eq_nil_iff_forall_not_mem]
  intro c
  rw [mem_sent_iff]
  exact hnone c

theorem keys_eq_nil {moves : List SessionMove} (hnone : ∀ c, command c ∉ moves) :
    keys moves = [] := by
  rw [← obeyed_sent (hnone .stop) [], sent_eq_nil hnone]
  rfl

end SessionMove

namespace SessionLoop

variable {L S : Type} [HostLink L] [Surface S]

/-- Pushes fit in a run if they fit in its front, and in its back where the front leads. -/
theorem pushesFit_append_iff {l : SessionLoop L S} {front back : List SessionMove} :
    l.pushesFit (front ++ back) = true ↔
      l.pushesFit front = true ∧
        ∀ next, l.run front = .ok next → next.pushesFit back = true := by
  induction front generalizing l with
  | nil =>
    have hrun : l.run [] = .ok l := rfl
    simp [pushesFit, hrun]
  | cons m front ih =>
    have hrun : l.run (m :: front) = l.move m >>= fun next => next.run front := rfl
    simp only [List.cons_append, pushesFit, Bool.and_eq_true, hrun, and_assoc]
    cases l.move m with
    | error fault => simp [bind, Except.bind]
    | ok next => simp only [ih, bind, Except.bind]

/-! ## What was used of what came -/

/-- Inputs use what came first of the bytes and of the keys. -/
structure Uses (pushed : List UInt8) (sent : List SessionCommand)
    (inputs : List TerminalInput) : Prop where
  bytes_prefix : TerminalInput.bytes inputs <+: pushed
  keys_prefix : TerminalInput.keys inputs <+: SessionCommand.obeyed sent

omit [HostLink L] [Surface S] in
/-- What has become of the commands that were sent: those that were not obeyed wait,
unless the last turn has begun. -/
def Obeys (l : SessionLoop L S) (sent : List SessionCommand) (keys : List Key) : Prop :=
  if l.session.stopped || l.phase.isLast then
    ∃ later, sent = keys.map .key ++ .stop :: later
  else
    sent = keys.map .key ++ l.session.commands

/-- A loop, and the terminal that took the inputs so far.  Some bytes are due to be used
before the session stops. -/
structure Served (settings : Settings) (tape : S → TapeSource) (due pushed : List UInt8)
    (sent : List SessionCommand) (inputs : List TerminalInput) (l : SessionLoop L S)
    (m : Terminal L S) : Prop where
  terminals : l.session.events.JustInTime settings tape l.session.terminal m
  bytes_eq : TerminalInput.bytes inputs ++ l.session.terminal.ring.toList = pushed
  obeys : l.Obeys sent (TerminalInput.keys inputs)
  due_prefix : due <+: pushed
  due_used : l.session.stopped = true → due <+: TerminalInput.bytes inputs

section

variable {settings : Settings} {tape : S → TapeSource} {due pushed : List UInt8}
  {sent : List SessionCommand} {inputs : List TerminalInput} {l : SessionLoop L S}
  {m : Terminal L S}

omit [HostLink L] [Surface S] in
/-- Keys are obeyed in the order in which they were sent. -/
theorem Obeys.keys_prefix {keys : List Key} (h : l.Obeys sent keys) :
    keys <+: SessionCommand.obeyed sent := by
  unfold Obeys at h
  split at h
  · rcases h with ⟨later, rfl⟩
    rw [SessionCommand.obeyed_append]
    exact List.prefix_append _ _
  · rw [h, SessionCommand.obeyed_append]
    exact List.prefix_append _ _

omit [HostLink L] in
/-- A loop has used bytes and keys in the order in which they came. -/
theorem Served.uses (h : Served settings tape due pushed sent inputs l m) :
    Uses pushed sent inputs where
  bytes_prefix := ⟨l.session.terminal.ring.toList, h.bytes_eq⟩
  keys_prefix := h.obeys.keys_prefix

/-- A move takes at most one input, which is one of what came. -/
def ServedBy (settings : Settings) (tape : S → TapeSource) (due pushed : List UInt8)
    (sent : List SessionCommand) (inputs : List TerminalInput)
    (next : Except Fault (SessionLoop L S)) (m : Terminal L S) : Prop :=
  ∃ more, Uses pushed sent (inputs ++ more) ∧
    Matches (Served settings tape due pushed sent (inputs ++ more)) next (m.takeAll more)

/-- A move may take no input. -/
theorem Served.servedBy (h : Served settings tape due pushed sent inputs l m) :
    ServedBy settings tape due pushed sent inputs (.ok l) m := by
  refine ⟨[], ?_, ?_⟩
  · rw [List.append_nil]
    exact h.uses
  · rw [List.append_nil]
    exact .ok h

/-- A step of the terminal takes the next byte, or the idle moment. -/
theorem Served.step (h : Served settings tape due pushed sent inputs l m) :
    ∃ input, TerminalInput.keys (inputs ++ [input]) = TerminalInput.keys inputs ∧
      Uses pushed sent (inputs ++ [input]) ∧
      Matches (fun stepped m' => (stepped.1 = false → stepped.2.ring.toList = []) ∧
          TerminalInput.bytes (inputs ++ [input]) ++ stepped.2.ring.toList = pushed ∧
          l.session.events.JustInTime settings tape stepped.2 m')
        l.session.terminal.step (m.takeAll [input]) := by
  rcases h.terminals with ⟨delivered, hcarries, hterminals⟩
  rcases hterminals.step with ⟨input, hkey, hbyte, hmatch⟩
  have hkeys : TerminalInput.keys (inputs ++ [input]) = TerminalInput.keys inputs := by
    simp [TerminalInput.keys, hkey]
  have hbytes : TerminalInput.bytes (inputs ++ [input]) =
      TerminalInput.bytes inputs ++ input.byte?.toList := by
    cases hb : input.byte? <;> simp [TerminalInput.bytes, hb]
  refine ⟨input, hkeys, ⟨?_, ?_⟩, ?_⟩
  · rw [hbytes, ← h.bytes_eq]
    exact List.prefix_append_right_inj _ |>.2 hbyte
  · rw [hkeys]
    exact h.uses.keys_prefix
  · apply hmatch.mono
    rintro stepped m' ⟨hend, hlist, hnext⟩
    refine ⟨hend, ?_, delivered, hcarries, hnext⟩
    rw [hbytes, List.append_assoc, hlist, h.bytes_eq]

/-- A command that waits is obeyed, or the step is to come. -/
theorem Served.part_obeying {s : Session L S}
    (h : Served settings tape due pushed sent inputs ⟨s, .obeying⟩ m)
    (hgoes : s.stopped = false) :
    ServedBy settings tape due pushed sent inputs (SessionLoop.mk s .obeying).part m := by
  rcases s with ⟨terminal, commands, events, stopped⟩
  obtain rfl : stopped = false := hgoes
  rcases h with ⟨hterminals, hbytes, hobeys, hdue, -⟩
  have hsent : sent = (TerminalInput.keys inputs).map .key ++ commands := hobeys
  cases commands with
  | nil =>
    apply Served.servedBy
    exact ⟨hterminals, hbytes, hsent, hdue, by simp⟩
  | cons c rest =>
    cases c with
    | key pressed =>
      have hkeys : TerminalInput.keys (inputs ++ [.key pressed]) =
          TerminalInput.keys inputs ++ [pressed] := by simp [TerminalInput.keys, TerminalInput.key?]
      have hsame : TerminalInput.bytes (inputs ++ [.key pressed]) = TerminalInput.bytes inputs := by
        simp [TerminalInput.bytes, TerminalInput.byte?]
      have hserved : Served settings tape due pushed sent (inputs ++ [.key pressed])
          ⟨⟨(terminal.press pressed).2, rest, events, false⟩, .obeying⟩ (m.press pressed).2 := by
        constructor
        · exact hterminals.press pressed
        · rw [hsame]
          exact hbytes
        · have hobeyed : sent = (TerminalInput.keys inputs ++ [pressed]).map .key ++ rest := by
            simpa using hsent
          rw [hkeys]
          exact hobeyed
        · exact hdue
        · simp
      exact ⟨[.key pressed], hserved.uses, .ok hserved⟩
    | stop =>
      apply Served.servedBy
      exact ⟨hterminals, hbytes, ⟨rest, hsent⟩, hdue, by simp⟩

/-- The step takes a byte or the idle moment. -/
theorem Served.part_stepping {s : Session L S} {last : Bool}
    (h : Served settings tape due pushed sent inputs ⟨s, .stepping last⟩ m)
    (hgoes : s.stopped = false) :
    ServedBy settings tape due pushed sent inputs (SessionLoop.mk s (.stepping last)).part m := by
  rcases s with ⟨terminal, commands, events, stopped⟩
  obtain rfl : stopped = false := hgoes
  rcases h.step with ⟨input, hkeys, huses, hmatch⟩
  refine ⟨[input], huses, ?_⟩
  apply hmatch.map_left
  rintro stepped m' ⟨-, hlist, hnext⟩
  constructor
  · exact hnext
  · exact hlist
  · rw [hkeys]
    exact h.obeys
  · exact h.due_prefix
  · simp

/-- The events are delivered, and no input is taken. -/
theorem Served.part_delivering {s : Session L S} {last : Bool}
    (h : Served settings tape due pushed sent inputs ⟨s, .delivering last⟩ m)
    (hgoes : s.stopped = false) :
    ServedBy settings tape due pushed sent inputs (SessionLoop.mk s (.delivering last)).part
      m := by
  rcases s with ⟨terminal, commands, events, stopped⟩
  obtain rfl : stopped = false := hgoes
  rcases h with ⟨hterminals, hbytes, hobeys, hdue, -⟩
  apply Served.servedBy
  constructor
  · exact hterminals.deliver
  · exact hbytes
  · cases last with
    | true => exact hobeys
    | false => exact hobeys
  · exact hdue
  · simp [Session.deliver]

/-- The bytes that wait are used in the last turn; when none is left, all that was due
was used. -/
theorem Served.part_draining {s : Session L S}
    (h : Served settings tape due pushed sent inputs ⟨s, .draining⟩ m)
    (hgoes : s.stopped = false) :
    ServedBy settings tape due pushed sent inputs (SessionLoop.mk s .draining).part m := by
  rcases s with ⟨terminal, commands, events, stopped⟩
  obtain rfl : stopped = false := hgoes
  rcases h.step with ⟨input, hkeys, huses, hmatch⟩
  refine ⟨[input], huses, ?_⟩
  apply hmatch.map_left
  rintro ⟨more, next⟩ m' ⟨hend, hlist, hnext⟩
  have hlast : ∃ later, sent = (TerminalInput.keys inputs).map .key ++ .stop :: later := h.obeys
  constructor
  · exact hnext
  · exact hlist
  · rw [hkeys]
    cases more with
    | true => exact hlast
    | false => exact hlast
  · exact h.due_prefix
  · intro hstopped
    have hnone : next.ring.toList = [] := hend (by simpa using hstopped)
    rw [hnone, List.append_nil] at hlist
    rw [hlist]
    exact h.due_prefix

/-- A part of a turn takes at most one input. -/
theorem Served.part (h : Served settings tape due pushed sent inputs l m) :
    ServedBy settings tape due pushed sent inputs l.part m := by
  rcases l with ⟨s, phase⟩
  cases hgoes : s.stopped with
  | true =>
    have hpart : (SessionLoop.mk s phase).part = .ok ⟨s, phase⟩ := by simp [part, hgoes]
    rw [hpart]
    exact h.servedBy
  | false =>
    cases phase with
    | obeying => exact h.part_obeying hgoes
    | stepping last => exact h.part_stepping hgoes
    | delivering last => exact h.part_delivering hgoes
    | draining => exact h.part_draining hgoes

/-! ## Any moves -/

omit [HostLink L] in
/-- Bytes for which there is room wait. -/
theorem Served.push (h : Served settings tape due pushed sent inputs l m) {bytes : List UInt8}
    (hfits : bytes.length ≤ l.session.terminal.ring.free) :
    Served settings tape due (pushed ++ bytes) sent inputs
      { l with session := l.session.push bytes } m where
  terminals := h.terminals.push hfits
  bytes_eq := by
    simp only [Session.push, Terminal.push]
    rw [(Ring.extend_of_le_free hfits).1, ← List.append_assoc, h.bytes_eq]
  obeys := h.obeys
  due_prefix := h.due_prefix.trans (List.prefix_append _ _)
  due_used := h.due_used

omit [HostLink L] in
/-- The owner may do with the channel what does not change the terminal. -/
theorem Served.channel (h : Served settings tape due pushed sent inputs l m)
    {events : EventChannel}
    (hevents : events.JustInTime settings tape l.session.terminal m) :
    Served settings tape due pushed sent inputs
      { l with session := { l.session with events := events } } m where
  terminals := hevents
  bytes_eq := h.bytes_eq
  obeys := h.obeys
  due_prefix := h.due_prefix
  due_used := h.due_used

omit [HostLink L] in
/-- A command waits behind those that were sent before. -/
theorem Served.command (h : Served settings tape due pushed sent inputs l m)
    (c : SessionCommand) :
    Served settings tape due pushed (sent ++ [c]) inputs
      { l with session := l.session.command c } m where
  terminals := h.terminals
  bytes_eq := h.bytes_eq
  obeys := by
    have hobeys := h.obeys
    unfold Obeys at hobeys
    split at hobeys
    · rename_i hlast
      rcases hobeys with ⟨later, rfl⟩
      exact (iff_of_eq (if_pos hlast)).2 ⟨later ++ [c], by simp⟩
    · rename_i hgoes
      subst hobeys
      exact (iff_of_eq (if_neg hgoes)).2 (List.append_assoc _ _ _)
  due_prefix := h.due_prefix
  due_used := h.due_used

/-- A move is made of inputs from what has come. -/
theorem Served.move (h : Served settings tape due pushed sent inputs l m) (move : SessionMove)
    (hfits : l.pushesFit [move] = true) :
    ServedBy settings tape due (pushed ++ move.bytes) (sent ++ move.commands) inputs
      (l.move move) m := by
  cases move with
  | push bytes =>
    have hroom : bytes.length ≤ l.session.terminal.ring.free := by
      simpa [pushesFit, SessionLoop.move] using hfits
    simp only [SessionMove.bytes, SessionMove.commands, List.append_nil]
    exact (h.push hroom).servedBy
  | command c =>
    simp only [SessionMove.bytes, SessionMove.commands, List.append_nil]
    exact (h.command c).servedBy
  | part =>
    simp only [SessionMove.bytes, SessionMove.commands, List.append_nil]
    exact h.part
  | take =>
    simp only [SessionMove.bytes, SessionMove.commands, List.append_nil]
    exact (h.channel h.terminals.take).servedBy
  | hangUp =>
    simp only [SessionMove.bytes, SessionMove.commands, List.append_nil]
    exact (h.channel h.terminals.hangUp).servedBy

omit [HostLink L] [Surface S] in
/-- What came first stays first when more comes. -/
theorem Uses.mono (h : Uses pushed sent inputs) (bytes : List UInt8)
    (commands : List SessionCommand) : Uses (pushed ++ bytes) (sent ++ commands) inputs where
  bytes_prefix := h.bytes_prefix.trans (List.prefix_append _ _)
  keys_prefix := h.keys_prefix.trans (SessionCommand.obeyed_prefix _ _)

/-- What comes of a move and of later ones comes from the inputs of all. -/
theorem ServedBy.bind {next : Except Fault (SessionLoop L S)}
    {later : SessionLoop L S → Except Fault (SessionLoop L S)} {due' bytes : List UInt8}
    {commands : List SessionCommand}
    (h : ServedBy settings tape due pushed sent inputs next m)
    (hlater : ∀ l inputs m, next = .ok l → Served settings tape due pushed sent inputs l m →
      ServedBy settings tape due' (pushed ++ bytes) (sent ++ commands) inputs (later l) m) :
    ServedBy settings tape due' (pushed ++ bytes) (sent ++ commands) inputs (next >>= later)
      m := by
  rcases h with ⟨first, huses, hmatch⟩
  cases next with
  | error fault =>
    refine ⟨first, huses.mono bytes commands, ?_⟩
    rw [hmatch.of_error]
    exact .error fault
  | ok l =>
    rcases hmatch.of_ok with ⟨m', htaken, hserved⟩
    rcases hlater l _ m' rfl hserved with ⟨second, huses', hmatch'⟩
    refine ⟨first ++ second, ?_, ?_⟩
    · rw [← List.append_assoc]
      exact huses'
    · rw [← List.append_assoc, Terminal.takeAll_append, htaken]
      exact hmatch'

/-- Whatever happens to a session comes from inputs. -/
theorem Served.run {moves : List SessionMove}
    (h : Served settings tape due pushed sent inputs l m) (hfits : l.pushesFit moves = true) :
    ServedBy settings tape due (pushed ++ SessionMove.pushed moves)
      (sent ++ SessionMove.sent moves) inputs (l.run moves) m := by
  induction moves generalizing pushed sent inputs l m with
  | nil =>
    simp only [SessionMove.pushed, SessionMove.sent, List.flatMap_nil, List.append_nil]
    exact h.servedBy
  | cons move moves ih =>
    have hsplit : l.pushesFit ([move] ++ moves) = true := hfits
    rcases pushesFit_append_iff.1 hsplit with ⟨hnow, hlater⟩
    have hrun : l.run (move :: moves) = l.move move >>= fun next => next.run moves := rfl
    have hpushed : SessionMove.pushed (move :: moves) = move.bytes ++ SessionMove.pushed moves :=
      rfl
    have hsent : SessionMove.sent (move :: moves) = move.commands ++ SessionMove.sent moves := rfl
    rw [hrun, hpushed, hsent, ← List.append_assoc, ← List.append_assoc]
    apply (h.move move hnow).bind
    intro next inputs m hnext hserved
    apply ih hserved
    apply hlater
    simp [SessionLoop.run, hnext]

/-! ## The command to stop -/

omit [HostLink L] in
/-- Before the command to stop was sent, all that was pushed may become due. -/
theorem Served.allDue (h : Served settings tape due pushed sent inputs l m)
    (hsent : .stop ∉ sent) : Served settings tape pushed pushed sent inputs l m where
  terminals := h.terminals
  bytes_eq := h.bytes_eq
  obeys := h.obeys
  due_prefix := List.prefix_refl pushed
  due_used := by
    intro hstopped
    have hobeys := h.obeys
    unfold Obeys at hobeys
    rw [if_pos (by simp [hstopped])] at hobeys
    rcases hobeys with ⟨later, rfl⟩
    simp at hsent

end

section

variable {t : Terminal L S} {before after : List SessionMove}

omit [HostLink L] in
/-- A new loop is its terminal, and nothing has been used. -/
theorem served_start (hempty : t.ring.toList = []) (hsilent : Surface.Silent t.engine.surface) :
    Served t.engine.settings t.engine.tape [] [] [] [] (start t) t where
  terminals := EventChannel.JustInTime.start hempty hsilent
  bytes_eq := hempty
  obeys := rfl
  due_prefix := List.nil_prefix
  due_used := by simp

/-- A session that is told to stop takes its inputs from what came, and all that was
pushed before is due. -/
theorem servedBy_shutdown (hempty : t.ring.toList = [])
    (hsilent : Surface.Silent t.engine.surface) (hstop : .command .stop ∉ before)
    (hfits : (start t).pushesFit (before ++ .command .stop :: after) = true) :
    ServedBy t.engine.settings t.engine.tape (SessionMove.pushed before)
      (SessionMove.pushed (before ++ after))
      (SessionMove.sent before ++ .stop :: SessionMove.sent after) []
      ((start t).run (before ++ .command .stop :: after)) t := by
  rcases pushesFit_append_iff.1 hfits with ⟨hnow, hlater⟩
  have hbefore := (served_start hempty hsilent).run hnow
  rw [run_append, SessionMove.pushed_append]
  apply hbefore.bind
  intro next inputs m hnext hserved
  exact (hserved.allDue (mt SessionMove.mem_sent_iff.1 hstop)).run (hlater next hnext)

/-- What is said of a session that has stopped: its terminal and its events are those of
a terminal that took inputs one after another. -/
structure Linearized (t : Terminal L S) (before after : List SessionMove)
    (l : SessionLoop L S) (inputs : List TerminalInput) (m : Terminal L S) : Prop where
  /-- The inputs lead to the other terminal. -/
  taken : t.takeAll inputs = .ok m
  /-- The keys are those that were sent before the command to stop. -/
  keys_eq : TerminalInput.keys inputs = SessionMove.keys before
  /-- The bytes that were pushed before the command to stop are among the inputs. -/
  pushed_prefix : SessionMove.pushed before <+: TerminalInput.bytes inputs
  /-- Bytes that are not among the inputs were pushed later, and still wait. -/
  bytes_eq : TerminalInput.bytes inputs ++ l.session.terminal.ring.toList =
    SessionMove.pushed (before ++ after)
  terminal_eq : l.session.terminal =
    ⟨(m.ring.extend l.session.terminal.ring.toList).2,
      { m.engine with events := l.session.terminal.engine.events }⟩
  /-- The channel is open until the owner gives it away. -/
  isSome_waiting : .hangUp ∉ before ++ after → l.session.events.waiting?.isSome = true
  /-- The events were received, or wait in the channel, or are still in the terminal; when
  the owner has hung up, those that were not received before are lost. -/
  events_eq : ∃ rest,
    m.engine.events.toList =
        l.session.events.received ++ rest ++ l.session.terminal.engine.events.toList ∧
      ∀ waiting, l.session.events.waiting? = some waiting → rest = waiting
  /-- Those that were received and those in the terminal are all events exactly when none
  waits in the channel. -/
  collected_iff : ∀ waiting, l.session.events.waiting? = some waiting →
    (m.engine.events.toList = l.session.collected ↔ waiting = [])

omit [HostLink L] in
/-- A session that was told to stop has stopped, or will. -/
theorem Served.isEnding {settings : Settings} {tape : S → TapeSource} {due pushed : List UInt8}
    {sent : List SessionCommand} {inputs : List TerminalInput} {l : SessionLoop L S}
    {m : Terminal L S} (h : Served settings tape due pushed sent inputs l m)
    (hstop : .stop ∈ sent) : l.IsEnding := by
  have hobeys := h.obeys
  unfold Obeys at hobeys
  split at hobeys
  · rename_i hlast
    rcases Bool.or_eq_true_iff.1 hlast with hstopped | hphase
    · exact Or.inl hstopped
    · exact Or.inr (Or.inl hphase)
  · right
    right
    simpa [hobeys] using hstop

/-- A session that has stopped obeyed the keys before the command to stop, and used the
bytes that were due. -/
theorem Served.linearized {inputs : List TerminalInput} {l : SessionLoop L S} {m : Terminal L S}
    (h : Served t.engine.settings t.engine.tape (SessionMove.pushed before)
      (SessionMove.pushed (before ++ after))
      (SessionMove.sent before ++ .stop :: SessionMove.sent after) inputs l m)
    (hstop : .command .stop ∉ before) (hstopped : l.session.stopped = true)
    (hrun : (start t).run (before ++ .command .stop :: after) = .ok l)
    (htaken : t.takeAll inputs = .ok m) : l.Linearized t before after inputs m := by
  rcases h.terminals with ⟨delivered, hcarries, hterminals⟩
  rcases hterminals.eq with ⟨hterminal, hevents⟩
  have hobeys := h.obeys
  unfold Obeys at hobeys
  rw [if_pos (by simp [hstopped])] at hobeys
  rcases hobeys with ⟨later, hlater⟩
  have hkeys := congrArg SessionCommand.obeyed hlater
  rw [SessionMove.obeyed_sent hstop, SessionCommand.obeyed_append] at hkeys
  constructor
  · exact htaken
  · simpa [SessionCommand.obeyed] using hkeys.symm
  · exact h.due_used hstopped
  · exact h.bytes_eq
  · exact hterminal
  · intro hopen
    exact isSome_waiting_of_run (by simpa using hopen) hrun
  · rcases hcarries with ⟨rest, rfl, hrest⟩
    exact ⟨rest, hevents, hrest⟩
  · intro waiting hopen
    rw [hevents, Session.collected, List.append_cancel_right_eq]
    exact hcarries.eq_received_iff hopen

/-- A session over a surface without clicks is linear.  Bytes for which there is room,
keys, parts of turns and taken events come in any order, and at some time the first
command to stop.  Once the session has stopped, its terminal is that of one list of
inputs, which has every byte that was pushed and every key that was sent before the
command to stop, once and in order.  The events of these inputs are those that were
received, those that wait in the channel, and those in the terminal, in this order; so
whoever gives the channel away loses none exactly when none waits there.  A session that
is not refused does stop, and one that is refused is refused as such inputs are. -/
theorem shutdown_linearized (hempty : t.ring.toList = [])
    (hsilent : Surface.Silent t.engine.surface) (hstop : .command .stop ∉ before)
    (hfits : (start t).pushesFit (before ++ .command .stop :: after) = true) :
    (∀ l, (start t).run (before ++ .command .stop :: after) = .ok l →
      (l.session.stopped = true → ∃ inputs m, l.Linearized t before after inputs m) ∧
      ∃ parts, ∀ last, l.run (List.replicate parts .part) = .ok last →
        last.session.stopped = true) ∧
    ∀ fault, (start t).run (before ++ .command .stop :: after) = .error fault →
      ∃ inputs, t.takeAll inputs = .error fault ∧
        TerminalInput.bytes inputs <+: SessionMove.pushed (before ++ after) ∧
        TerminalInput.keys inputs <+: SessionMove.keys before := by
  rcases servedBy_shutdown hempty hsilent hstop hfits with ⟨inputs, huses, hmatch⟩
  rw [List.nil_append] at huses hmatch
  constructor
  · intro l hrun
    rw [hrun] at hmatch
    rcases hmatch.of_ok with ⟨m, htaken, hserved⟩
    constructor
    · intro hstopped
      exact ⟨inputs, m, hserved.linearized hstop hstopped hrun htaken⟩
    · have hending : l.IsEnding := hserved.isEnding (by simp)
      rcases hending.ends with ⟨result, ⟨parts, hparts⟩, hstopped⟩
      refine ⟨parts, ?_⟩
      intro last hlast
      exact hstopped last (hparts.symm.trans hlast)
  · intro fault hrun
    rw [hrun] at hmatch
    refine ⟨inputs, hmatch.of_error, huses.bytes_prefix, ?_⟩
    rw [← SessionMove.obeyed_sent hstop]
    exact huses.keys_prefix

/-- A letter and a bell come before a key and the command to stop, and two more bells come
while the last turn is under way.  When the session is given away, one bell was received,
one waits in the channel, and one is still in the terminal. -/
theorem shutdown_linearized_recorded :
    let before := [.push [0x61, Byte.bel], .part, .part, .part, .part, .part, .part,
      .command (.key (.char 0x6B)), .take]
    let after := [.part, .push [Byte.bel, Byte.bel], .part, .part, .part, .part, .part, .part]
    ∃ l, (start (Terminal.recorded 4)).run (before ++ .command .stop :: after) = .ok l ∧
      l.session.events = ⟨[.bell], some [.bell]⟩ ∧
      l.session.terminal.engine.events.toList = [.bell] ∧
      ∃ inputs m, l.Linearized (Terminal.recorded 4) before after inputs m := by
  intro before after
  have hsilent : Surface.Silent (Terminal.recorded 4).engine.surface :=
    (RecordingSurface.quiet .missing rfl).silent
  have hstop : SessionMove.command .stop ∉ before := by decide
  have hfits : (start (Terminal.recorded 4)).pushesFit (before ++ .command .stop :: after) =
      true := by
    rfl
  have hended : ((start (Terminal.recorded 4)).run (before ++ .command .stop :: after)).map
      (fun l => (l.session.stopped, l.session.events,
        l.session.terminal.engine.events.toList)) =
      .ok (true, ⟨[.bell], some [.bell]⟩, [.bell]) := by
    rfl
  have hlinear := (shutdown_linearized rfl hsilent hstop hfits).1
  rcases Fault.exists_of_map hended with ⟨l, hrun, hfields⟩
  obtain ⟨hstopped, hevents⟩ := Prod.mk.inj hfields
  obtain ⟨hchannel, hterminal⟩ := Prod.mk.inj hevents
  exact ⟨l, hrun, hchannel, hterminal, (hlinear l hrun).1 hstopped⟩

/-! ## What shutting down loses -/

/-- However a bell comes to a recorded terminal, it is the one event there. -/
theorem events_of_bell {inputs : List TerminalInput} {m : Terminal RecordingLink RecordingSurface}
    (hbytes : TerminalInput.bytes inputs = [Byte.bel]) (hkeys : TerminalInput.keys inputs = [])
    (htaken : (Terminal.recorded 8).takeAll inputs = .ok m) :
    m.engine.events.toList = [.bell] := by
  have hsteady : (Terminal.recorded 8).Steady :=
    { remote := rfl
      lost := rfl
      reliable := RecordingLink.reliable rfl rfl
      ackPending := fun _ => rfl
      quiet := RecordingSurface.quiet .missing rfl
      ring_empty := Ring.toList_empty _ }
  have hfeed := hsteady.takeAll_feed hkeys
  rw [htaken, hbytes] at hfeed
  rcases hfeed.of_ok with ⟨fed, hfed, hview⟩
  have hrung : ((Terminal.recorded 8).feed [Byte.bel]).map (fun t => t.engine.events.toList) =
      .ok [.bell] := by
    cbv
  rw [hfed] at hrung
  have hevents : m.engine.events.toList = fed.engine.events.toList :=
    congrArg (fun view => view.events.toList) hview
  rw [hevents]
  exact Except.ok.inj hrung

/-- A bell that rings in the last turn waits in the channel when the session is given
away: nobody received it, and the terminal does not have it, but it is the event of every
run of its byte.  A session that inserts eighty blanks at home gives no terminal at
all. -/
theorem bell_lost_at_shutdown :
    let shutdown := .command .stop :: (List.replicate 8 .part ++ [.hangUp])
    (∃ l, (start (Terminal.recorded 8)).run (.push [Byte.bel] :: shutdown) = .ok l ∧
      l.session.stopped = true ∧
      ∀ inputs m, TerminalInput.bytes inputs = [Byte.bel] → TerminalInput.keys inputs = [] →
        (Terminal.recorded 8).takeAll inputs = .ok m →
        l.session.collected = [] ∧ m.engine.events.toList = [.bell]) ∧
    (start (Terminal.recorded 8)).run (.push [Byte.esc, 0x5B, 0x38, 0x30, 0x40] :: shutdown) =
      .error .shiftBeforeMemory := by
  intro shutdown
  have hlost : ((start (Terminal.recorded 8)).run (.push [Byte.bel] :: shutdown)).map
      (fun l => (l.session.stopped, l.session.collected)) = .ok (true, []) := by
    rfl
  rcases Fault.exists_of_map hlost with ⟨l, hrun, hfields⟩
  obtain ⟨hstopped, hcollected⟩ := Prod.mk.inj hfields
  refine ⟨⟨l, hrun, hstopped, ?_⟩, rfl⟩
  intro inputs m hbytes hkeys htaken
  exact ⟨hcollected, events_of_bell hbytes hkeys htaken⟩

end

end SessionLoop

end GraphicsTerminal
