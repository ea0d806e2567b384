import GraphicsTerminal.Proofs.Terminal.Rest
import GraphicsTerminal.Proofs.Terminal.Stream

/-!
# Pieces and ring sizes

A stream of host bytes may reach the terminal in pieces of any size, and its ring may
have any size.  Neither can be seen from outside: both terminals follow the engine that
takes the bytes one after another.

Main definitions:

- {lit}`Terminal.EqualApartFromRing`: terminals that differ in their rings alone.

Main results:

- Theorem {lit}`Terminal.observe_feeds`: what is seen of a stream in pieces is what an
  engine shows that takes its bytes one after another.
- Theorem {lit}`Terminal.observe_feeds_eq`: pieces and ring sizes cannot be seen.
-/

namespace GraphicsTerminal

/-- The engine of a session with another size of the ring. -/
def Engine.withCapacity {L S : Type} (e : Engine L S) (capacity : Nat) : Engine L S :=
  { e with settings := { e.settings with ringCapacity := capacity } }

namespace Terminal

variable {L S : Type}

/-- Terminals that are equal apart from their rings and the sizes of these. -/
def EqualApartFromRing (t t' : Terminal L S) : Prop :=
  ∃ capacity, t'.engine = t.engine.withCapacity capacity

/-! ## Engines without pieces -/

theorem settings_withCapacity (e : Engine L S) (capacity : Nat) :
    e.settings = { (e.withCapacity capacity).settings with
      ringCapacity := e.settings.ringCapacity } := rfl

section

variable [Surface S]

/-- What is known of the engine of a terminal beside the engine that takes the same
bytes one after another. -/
def Unsliced {settings settings' : Settings} {tape : S → TapeSource} {origin : S}
    (hsettings : settings' = { settings with ringCapacity := settings'.ringCapacity })
    (hquiet : Surface.Quiet tape origin) (e e' : Engine L S) : Prop :=
  Agree (Frame.polled (fun c c' => c = c' ∧ c.ackPending = false) hsettings hquiet) e e' ∧
    e'.channel.lost = none

/-- The size of the ring cannot be seen. -/
theorem unsliced_of_eq_withCapacity {e e' : Engine L S} {capacity : Nat}
    (he : e' = e.withCapacity capacity) (hlost : e.channel.lost = none)
    (hack : e.channel.ackPending = false) (hquiet : Surface.Quiet e.tape e.surface) :
    Unsliced (settings_withCapacity e capacity) hquiet e' e := by
  subst he
  exact
    ⟨{ settings := rfl
       settings' := rfl
       tape := rfl
       tape' := rfl
       parser := rfl
       screen := rfl
       graphics := rfl
       alphaActive := rfl
       channel := ⟨rfl, hack⟩
       surface := Surface.SameCalls.refl _
       events := rfl }, hlost⟩

/-- The engine that takes the bytes one after another shows what the other one
shows. -/
theorem Unsliced.observation_eq {settings settings' : Settings}
    {tape : LoggedSurface S → TapeSource} {origin : LoggedSurface S}
    {hsettings : settings' = { settings with ringCapacity := settings'.ringCapacity }}
    {hquiet : Surface.Quiet tape origin} {e e' : Engine (LoggedLink L) (LoggedSurface S)}
    (h : Unsliced hsettings hquiet e e') : e.observation = e'.observation := by
  obtain ⟨hagree, -⟩ := h
  obtain ⟨hchannel, -⟩ := hagree.channel
  have hevents : e.events = e'.events := hagree.events
  simp only [Engine.observation, Engine.view, hagree.screen, hagree.graphics, hagree.parser,
    hagree.alphaActive, hchannel, hevents, hagree.surface.calls_eq]

end

variable [HostLink L] [Surface S]

section

variable {settings settings' : Settings} {tape : S → TapeSource} {origin : S}
  {hsettings : settings' = { settings with ringCapacity := settings'.ringCapacity }}
  {hquiet : Surface.Quiet tape origin}

/-- Pieces cannot be seen as long as no acknowledgement is queued: polls find no click,
and idle moments have nothing to do. -/
theorem follows_receive :
    Follows (fun _ b => settings.enqAck = true → b ≠ Byte.enq) Engine.receive
      (fun _ => Unsliced (L := L) hsettings hquiet) (fun _ => Unsliced hsettings hquiet) where
  busy_of_settled := fun h => h
  poll := by
    rintro seen e e' ⟨hagree, hlost⟩
    obtain ⟨hclick, hpolled⟩ := hagree.pollClick_left
    exact ⟨hclick, hpolled, hlost⟩
  receive := by
    rintro seen e e' b hb ⟨hagree, -⟩
    have hkept : (Frame.polled (fun (c c' : Channel L) => c = c' ∧ c.ackPending = false)
        hsettings hquiet).KeptByReports := by
      refine Frame.polled_kept ?_ (fun h => congrArg Channel.lost h.1) ?_
      · refine Channel.Kept.alone (fun _ _ h => h) (fun _ h => h) fun c screen bytes h => ?_
        rw [Channel.ackPending_sendBytes, h]
      · rintro c c' ⟨rfl, hack⟩
        exact ⟨rfl, hack⟩
    refine (hagree.receive_of_unqueued hkept hb).with_right.mono ?_
    rintro next next' ⟨hnext, hreceive⟩
    exact ⟨hnext, Engine.lost_of_receive hreceive⟩
  idle := by
    rintro seen e e' h
    obtain ⟨hchannel, hack⟩ := h.1.channel
    have hlost : e.channel.lost = none := by
      rw [hchannel]
      exact h.2
    rw [Engine.idle_of_none hlost hack]
    exact h

end

/-! ## Streams -/

/-- What is seen of a stream in pieces is what an engine shows that takes its bytes one
after another. -/
theorem observe_feeds {t t' : Terminal L S} (happart : t.EqualApartFromRing t')
    (hlost : t.engine.channel.lost = none) (hack : t.engine.channel.ackPending = false)
    (hquiet : Surface.Quiet t.engine.tape t.engine.surface) (hempty : t'.ring.toList = [])
    {chunks : List (List UInt8)}
    (henq : t.engine.settings.enqAck = true → Byte.enq ∉ chunks.flatten) :
    t'.observe (chunks.map .feed) =
      (chunks.flatten.foldlM Engine.receive t.logged.engine).map Engine.observation := by
  obtain ⟨capacity, hcapacity⟩ := happart
  have hengine : t'.logged.engine = t.logged.engine.withCapacity capacity := by
    simp only [logged, hcapacity]
    rfl
  have hstart := unsliced_of_eq_withCapacity hengine hlost hack (LoggedSurface.quiet hquiet)
  have hallowed : ∀ b ∈ chunks.flatten,
      (t.logged.engine.withCapacity capacity).settings.enqAck = true → b ≠ Byte.enq := by
    rintro b hb hack rfl
    exact henq hack hb
  have hring : t'.logged.ring.toList = [] := hempty
  have hmatch := follows_receive.run_feeds [] hring (.of_forall hallowed) hstart
  rw [observe, List.map_map]
  refine hmatch.map_eq ?_
  rintro u e ⟨-, hunsliced⟩
  exact hunsliced.observation_eq

/-- Pieces and ring sizes cannot be seen.  Two terminals that are equal apart from their
empty rings take a stream without enquiries, or any stream if enquiries are not
acknowledged, to the same state, with the same writes and calls, however it is cut into
pieces. -/
theorem observe_feeds_eq {settings : Settings} {link : L} {surface : S}
    {tape : S → TapeSource} {events : List (Event L S)} {t t' : Terminal L S}
    (hrun : (start settings link surface tape).run events = .ok t)
    (happart : t.EqualApartFromRing t') (hempty : t.ring.toList = [])
    (hempty' : t'.ring.toList = []) (hack : t.engine.channel.ackPending = false)
    (hquiet : Surface.Quiet t.engine.tape t.engine.surface) {chunks chunks' : List (List UInt8)}
    (hbytes : chunks.flatten = chunks'.flatten)
    (henq : t.engine.settings.enqAck = true → Byte.enq ∉ chunks.flatten) :
    t.observe (chunks.map .feed) = t'.observe (chunks'.map .feed) := by
  have hlost := lost_of_run_start hrun
  have hself : t.EqualApartFromRing t := ⟨t.engine.settings.ringCapacity, rfl⟩
  rw [observe_feeds hself hlost hack hquiet hempty henq, hbytes]
  rw [hbytes] at henq
  exact (observe_feeds happart hlost hack hquiet hempty' henq).symm

/-- A cursor address in two pieces, and in three through a ring for one byte. -/
theorem observe_feeds_eq_recorded :
    (recorded 8).observe ([[Byte.esc, 0x26, 0x61], [0x35, 0x43, 0x41]].map .feed) =
      (recorded 2).observe ([[Byte.esc, 0x26], [0x61, 0x35, 0x43], [0x41]].map .feed) := by
  have hrun : (recorded 8).run [] = .ok (recorded 8) := rfl
  have hquiet : Surface.Quiet (recorded 8).engine.tape (recorded 8).engine.surface :=
    RecordingSurface.quiet .missing rfl
  have hhost : (recorded 8).engine.settings.enqAck = true →
      Byte.enq ∉ [[Byte.esc, 0x26, 0x61], [0x35, 0x43, 0x41]].flatten := by
    intro _
    decide
  exact observe_feeds_eq hrun ⟨2, rfl⟩ rfl rfl rfl hquiet rfl hhost

end Terminal

end GraphicsTerminal
