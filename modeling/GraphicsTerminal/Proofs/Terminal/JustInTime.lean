import GraphicsTerminal.Proofs.Input.Accounting
import GraphicsTerminal.Proofs.Terminal.Stream

/-!
# Bytes just in time

In one terminal bytes wait in the ring, and its events are delivered.  Another one gets
each byte only when it is used, and keeps its events.  While no click comes, the two
cannot be told apart: what waits and what was delivered makes up the difference.

Main definitions:

- {lit}`Surface.Silent`: a surface that never reports a click.
- {lit}`TerminalInput`: what is used of a terminal at once.
- {lit}`Terminal.JustInTime`: two such terminals.

Main results:

- Theorem {lit}`Terminal.JustInTime.step`: a step of the first terminal is the input of
  the next byte, or of an idle moment, to the other one.
- Theorem {lit}`Terminal.JustInTime.eq`: the first terminal is the other one with what
  waits, and without what was delivered.
-/

namespace GraphicsTerminal

/-! ## Surfaces without clicks -/

namespace Surface

variable {S : Type} [Surface S] {surface : S}

/-- A surface that never reports a click, however it is used. -/
def Silent (surface : S) : Prop :=
  ∀ uses : List SurfaceUse, (takeClick (uses.foldl use surface)).1 = none

theorem Quiet.silent {tape : S → TapeSource} (h : Quiet tape surface) : Silent surface :=
  h.no_click

theorem Silent.use (h : Silent surface) (u : SurfaceUse) : Silent (Surface.use surface u) :=
  fun uses => h (u :: uses)

theorem Silent.no_click (h : Silent surface) : (takeClick surface).1 = none := h []

end Surface

namespace Engine

variable {L S : Type} [Surface S]

/-- A silent surface has no click to take. -/
theorem pollClick_of_silent {e : Engine L S} (h : Surface.Silent e.surface) :
    e.pollClick.1 = false := by
  have hnone := h.no_click
  unfold pollClick
  split
  · generalize Surface.takeClick e.surface = taken at hnone ⊢
    rcases taken with ⟨click, surface⟩
    obtain rfl : click = none := hnone
    rfl
  · rfl

end Engine

/-! ## Engines whose events are delivered -/

namespace Frame

variable {L S : Type} [Surface S]

/-- The frame of an engine whose events are delivered beside one that keeps them. -/
def delivering (L : Type) (settings : Settings) (tape : S → TapeSource)
    (delivered : List TerminalEvent) : Frame L L S S where
  settings := settings
  settings' := settings
  tape := tape
  tape' := tape
  channel := Eq
  surface := fun surface surface' => surface = surface' ∧ Surface.Silent surface
  events := fun events events' => events'.toList = delivered ++ events.toList
  settings_eq := rfl
  tape_eq := fun h => congrArg tape h.1

variable [HostLink L] {settings : Settings} {tape : S → TapeSource}
  {delivered : List TerminalEvent}

theorem delivering_keptByReports : (delivering L settings tape delivered).KeptByReports where
  call := by
    rintro surface surface' call ⟨rfl, hsilent⟩
    exact ⟨rfl, hsilent.use (.call call)⟩
  bell := by
    intro events events' h
    simp only [delivering, Array.toList_push] at h ⊢
    rw [h, List.append_assoc]
  channel := Channel.Kept.eq
  lost := congrArg Channel.lost
  takeLoss := fun h => congrArg (fun c : Channel L => c.takeLoss.2) h
  report := by
    intro events events' reason h
    simp only [delivering, Array.toList_push] at h ⊢
    rw [h, List.append_assoc]

theorem delivering_keptByAnswers : (delivering L settings tape delivered).KeptByAnswers :=
  { (delivering_keptByReports (L := L)).toKeptByWriting with
    queueAck := fun _ _ _ h => congrArg Channel.queueAck h
    flushAck := by
      rintro c c' screen rfl
      exact ⟨rfl, rfl⟩
    takeClick := by
      rintro surface surface' ⟨rfl, hsilent⟩
      exact ⟨rfl, rfl, hsilent.use .poll⟩ }

end Frame

/-! ## Inputs -/

/-- What is used of a terminal at once. -/
inductive TerminalInput where
  /-- A byte arrives and is used. -/
  | byte (b : UInt8)
  | key (key : Key)
  /-- A step is taken although no byte waits. -/
  | idle
deriving DecidableEq, Repr

namespace TerminalInput

/-- The byte of an input. -/
def byte? : TerminalInput → Option UInt8
  | byte b => some b
  | _ => none

/-- The key of an input. -/
def key? : TerminalInput → Option Key
  | key pressed => some pressed
  | _ => none

/-- The bytes among inputs, in order. -/
def bytes (inputs : List TerminalInput) : List UInt8 := inputs.filterMap byte?

/-- The keys among inputs, in order. -/
def keys (inputs : List TerminalInput) : List Key := inputs.filterMap key?

/-- What happens to a terminal that gets an input. -/
def events {L S : Type} : TerminalInput → List (Terminal.Event L S)
  | byte b => [.push [b], .step]
  | key pressed => [.key pressed]
  | idle => [.step]

end TerminalInput

namespace Terminal

variable {L S : Type} [HostLink L] [Surface S]

/-- The effect of inputs in order. -/
def takeAll (t : Terminal L S) (inputs : List TerminalInput) : Except Fault (Terminal L S) :=
  t.run (inputs.flatMap TerminalInput.events)

theorem takeAll_append (t : Terminal L S) (front back : List TerminalInput) :
    t.takeAll (front ++ back) = t.takeAll front >>= fun next => next.takeAll back := by
  rw [takeAll, List.flatMap_append, run_append]
  rfl

theorem takeAll_cons (t : Terminal L S) (input : TerminalInput) (inputs : List TerminalInput) :
    t.takeAll (input :: inputs) = t.takeAll [input] >>= fun next => next.takeAll inputs :=
  t.takeAll_append [input] inputs

/-- A byte arrives, and a step is taken. -/
theorem takeAll_byte (t : Terminal L S) (b : UInt8) :
    t.takeAll [.byte b] = (t.push [b]).2.step.map Prod.snd :=
  (t.push [b]).2.run_singleton .step

theorem takeAll_idle (t : Terminal L S) : t.takeAll [.idle] = t.step.map Prod.snd :=
  t.run_singleton .step

/-! ## Steps without a click -/

variable {t : Terminal L S}

/-- A step without a click takes the oldest byte. -/
theorem step_of_pop? {b : UInt8} {ring : Ring} (hclick : t.engine.pollClick.1 = false)
    (hpop : t.ring.pop? = some (b, ring)) :
    t.step = (t.engine.pollClick.2.receive b).map fun engine => (true, ⟨ring, engine⟩) := by
  have hring : t.pollClick.ring.pop? = some (b, ring) := by
    rw [ring_pollClick_of_false hclick, hpop]
  simp only [step, hring, engine_pollClick]

/-- A step without a click and without a byte is an idle moment. -/
theorem step_of_empty (hclick : t.engine.pollClick.1 = false) (hempty : t.ring.toList = []) :
    t.step = .ok (false, ⟨t.ring, t.engine.pollClick.2.idle⟩) := by
  have hring := ring_pollClick_of_false hclick
  have hpop := (Ring.pop?_eq_none_iff t.ring).2 hempty
  simp only [step, hring, hpop, modifyEngine, engine_pollClick]

/-- A byte that is taken at once leaves the ring behind it. -/
theorem takeAll_byte_of_pop? {b : UInt8} {ring : Ring} (hclick : t.engine.pollClick.1 = false)
    (hpop : (t.ring.push b).2.pop? = some (b, ring)) :
    t.takeAll [.byte b] =
      (t.engine.pollClick.2.receive b).map fun engine => ⟨ring, engine⟩ := by
  have hring : (t.push [b]).2.ring.pop? = some (b, ring) := by
    rw [← hpop]
    exact congrArg Ring.pop? (Ring.extend_cons_snd t.ring b [])
  have hstep : (t.push [b]).2.step =
      (t.engine.pollClick.2.receive b).map fun engine => (true, ⟨ring, engine⟩) :=
    step_of_pop? hclick hring
  rw [takeAll_byte, hstep]
  cases t.engine.pollClick.2.receive b with
  | error fault => rfl
  | ok engine => rfl

/-! ## Two terminals -/

/-- A terminal in which bytes wait and whose events are delivered, and one that gets its
bytes just in time and keeps its events. -/
structure JustInTime (settings : Settings) (tape : S → TapeSource)
    (delivered : List TerminalEvent) (t m : Terminal L S) : Prop where
  ring_empty : m.ring.toList = []
  ring_eq : t.ring = (m.ring.extend t.ring.toList).2
  engine : Agree (Frame.delivering L settings tape delivered) t.engine m.engine

namespace JustInTime

variable {settings : Settings} {tape : S → TapeSource} {delivered : List TerminalEvent}
  {m : Terminal L S}

omit [HostLink L] in
/-- A terminal without bytes is its own counterpart. -/
theorem start (hempty : t.ring.toList = []) (hsilent : Surface.Silent t.engine.surface) :
    JustInTime t.engine.settings t.engine.tape [] t t where
  ring_empty := hempty
  ring_eq := by
    rw [hempty]
    rfl
  engine :=
    { settings := rfl
      settings' := rfl
      tape := rfl
      tape' := rfl
      parser := rfl
      screen := rfl
      graphics := rfl
      alphaActive := rfl
      channel := rfl
      surface := ⟨rfl, hsilent⟩
      events := rfl }

omit [HostLink L] in
/-- The bytes that wait for the first terminal have room in the other one. -/
theorem length_le_free (h : JustInTime settings tape delivered t m) :
    t.ring.toList.length ≤ m.ring.free := by
  have hcapacity : t.ring.capacity = m.ring.capacity := by
    rw [h.ring_eq, Ring.capacity_extend]
  have hnone : m.ring.length = 0 := by
    rw [← Ring.length_toList, h.ring_empty, List.length_nil]
  have hlt := t.ring.length_lt_capacity
  simp only [Ring.length_toList, Ring.free, hnone]
  omega

omit [HostLink L] in
/-- Bytes that fit wait in the first terminal alone. -/
theorem push {bytes : List UInt8} (h : JustInTime settings tape delivered t m)
    (hfits : bytes.length ≤ t.ring.free) :
    JustInTime settings tape delivered (t.push bytes).2 m where
  ring_empty := h.ring_empty
  ring_eq := by
    simp only [Terminal.push]
    rw [(Ring.extend_of_le_free hfits).1, Ring.extend_append_snd, ← h.ring_eq]
  engine := h.engine

omit [HostLink L] in
/-- Events are delivered from the first terminal alone. -/
theorem deliver (h : JustInTime settings tape delivered t m) :
    JustInTime settings tape (delivered ++ t.engine.events.toList) t.collect m where
  ring_empty := h.ring_empty
  ring_eq := h.ring_eq
  engine :=
    { settings := h.engine.settings
      settings' := h.engine.settings'
      tape := h.engine.tape
      tape' := h.engine.tape'
      parser := h.engine.parser
      screen := h.engine.screen
      graphics := h.engine.graphics
      alphaActive := h.engine.alphaActive
      channel := h.engine.channel
      surface := h.engine.surface
      events := by
        have hevents : m.engine.events.toList = delivered ++ t.engine.events.toList :=
          h.engine.events
        simp [Frame.delivering, collect, modifyEngine, Engine.takeEvents, hevents] }

/-- Keys are pressed on both terminals. -/
theorem press (h : JustInTime settings tape delivered t m) (key : Key) :
    JustInTime settings tape delivered (t.press key).2 (m.press key).2 where
  ring_empty := h.ring_empty
  ring_eq := h.ring_eq
  engine := (h.engine.press Frame.delivering_keptByReports key).2

/-- Neither terminal takes a click. -/
theorem pollClick (h : JustInTime settings tape delivered t m) :
    t.engine.pollClick.1 = false ∧ m.engine.pollClick.1 = false ∧
      Agree (Frame.delivering L settings tape delivered) t.engine.pollClick.2
        m.engine.pollClick.2 := by
  have hsilent : Surface.Silent t.engine.surface := h.engine.surface.2
  have hclick := Engine.pollClick_of_silent hsilent
  rcases h.engine.pollClick Frame.delivering_keptByAnswers with ⟨hsame, hpolled⟩
  exact ⟨hclick, hsame ▸ hclick, hpolled⟩

/-- The idle moment comes to both terminals. -/
theorem step_of_nil (h : JustInTime settings tape delivered t m) (hnone : t.ring.toList = []) :
    Matches (fun stepped m' => stepped.1 = false ∧ stepped.2.ring.toList = [] ∧
        JustInTime settings tape delivered stepped.2 m')
      t.step (m.takeAll [.idle]) := by
  rcases h.pollClick with ⟨hclick, hclick', hpolled⟩
  rw [step_of_empty hclick hnone, takeAll_idle, step_of_empty hclick' h.ring_empty]
  refine .ok ⟨rfl, hnone, ?_⟩
  constructor
  · exact h.ring_empty
  · exact h.ring_eq
  · exact hpolled.idle_of_kept Frame.delivering_keptByReports Frame.delivering_keptByAnswers

/-- The byte that waits longest comes to the other terminal now. -/
theorem step_of_cons {b : UInt8} {rest : List UInt8}
    (h : JustInTime settings tape delivered t m) (hwaits : t.ring.toList = b :: rest) :
    Matches (fun stepped m' => stepped.1 = true ∧ stepped.2.ring.toList = rest ∧
        JustInTime settings tape delivered stepped.2 m')
      t.step (m.takeAll [.byte b]) := by
  rcases h.pollClick with ⟨hclick, hclick', hpolled⟩
  have hlength := h.length_le_free
  rw [hwaits, List.length_cons] at hlength
  rcases Ring.free_push m.ring b (by omega) with ⟨hroom, hfree⟩
  have hpushed : (m.ring.push b).2.toList = [b] := by
    simp [Ring.toList_push, hroom, h.ring_empty]
  -- The other ring holds this byte alone; in the first one the rest stands behind it.
  rcases hpop : (m.ring.push b).2.pop? with _ | ⟨b', next⟩
  · simp [Ring.pop?_eq_none_iff, hpushed] at hpop
  have htaken := Ring.toList_of_pop? hpop
  rw [hpushed] at htaken
  obtain ⟨rfl, hnext⟩ := List.cons.inj htaken
  have hpop' : t.ring.pop? = some (b, (next.extend rest).2) := by
    rw [h.ring_eq, hwaits, Ring.extend_cons_snd]
    exact Ring.pop?_extend hpop (by omega)
  have hlist := Ring.toList_of_pop? hpop'
  rw [hwaits] at hlist
  have hrest := (List.cons.inj hlist).2
  rw [step_of_pop? hclick hpop', takeAll_byte_of_pop? hclick' hpop]
  have hreceived := hpolled.receive_of_kept Frame.delivering_keptByReports
    Frame.delivering_keptByAnswers b
  apply hreceived.map
  intro engine engine' hengine
  refine ⟨rfl, hrest.symm, ?_⟩
  constructor
  · exact hnext.symm
  · rw [← hrest]
  · exact hengine

/-- A step of the first terminal is an input to the other one: the next byte, or an idle
moment when none waits. -/
theorem step (h : JustInTime settings tape delivered t m) :
    ∃ input, input.key? = none ∧ input.byte?.toList <+: t.ring.toList ∧
      Matches (fun stepped m' => (stepped.1 = false → stepped.2.ring.toList = []) ∧
          input.byte?.toList ++ stepped.2.ring.toList = t.ring.toList ∧
          JustInTime settings tape delivered stepped.2 m')
        t.step (m.takeAll [input]) := by
  rcases hwaits : t.ring.toList with _ | ⟨b, rest⟩
  · refine ⟨.idle, rfl, List.nil_prefix, ?_⟩
    apply (h.step_of_nil hwaits).mono
    rintro stepped m' ⟨-, hnone, hnext⟩
    exact ⟨fun _ => hnone, hnone, hnext⟩
  · refine ⟨.byte b, rfl, ⟨rest, rfl⟩, ?_⟩
    apply (h.step_of_cons hwaits).mono
    rintro stepped m' ⟨hmore, hrest, hnext⟩
    refine ⟨?_, congrArg (b :: ·) hrest, hnext⟩
    intro hnone
    simp [hmore] at hnone

omit [HostLink L] in
/-- The first terminal is the other one with what waits, and without what was
delivered. -/
theorem eq (h : JustInTime settings tape delivered t m) :
    t = ⟨(m.ring.extend t.ring.toList).2, { m.engine with events := t.engine.events }⟩ ∧
      m.engine.events.toList = delivered ++ t.engine.events.toList := by
  refine ⟨?_, h.engine.events⟩
  have hsettings : t.engine.settings = m.engine.settings :=
    h.engine.settings.trans h.engine.settings'.symm
  have htape : t.engine.tape = m.engine.tape := h.engine.tape.trans h.engine.tape'.symm
  have hchannel : t.engine.channel = m.engine.channel := h.engine.channel
  have hengine : t.engine = { m.engine with events := t.engine.events } := by
    simp only [← hsettings, ← htape, ← hchannel, ← h.engine.parser, ← h.engine.screen,
      ← h.engine.graphics, ← h.engine.alphaActive, ← h.engine.surface.1]
  rw [← h.ring_eq, ← hengine]

end JustInTime

end Terminal

end GraphicsTerminal
