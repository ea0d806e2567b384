import GraphicsTerminal.Graphics.Hpgl
import GraphicsTerminal.Proofs.Terminal.Enquiry
import GraphicsTerminal.Proofs.Terminal.JustInTime

/-!
# The rhythm of a stream

The bytes of a stream may be used one by one, with idle moments anywhere between them, or
all at once.  Over a link that accepts every write and a surface without clicks this makes
no difference to what is seen of the terminal.

Main definitions:

- {lit}`ClicklessSurface`: a type of surfaces that report no clicks.

Main results:

- Theorem {lit}`Terminal.Follows.takeAll`: inputs without keys are taken by the machine
  that a terminal follows.
- Theorem {lit}`Terminal.Steady.takeAll_feed`: they show what their bytes show when they are fed
  at once.
-/

namespace GraphicsTerminal

/-! ## Types of surfaces without clicks -/

/-- A type of surfaces that report no clicks, and that polls do not change. -/
class ClicklessSurface (S : Type) [Surface S] : Prop where
  takeClick_eq : ∀ surface : S, Surface.takeClick surface = (none, surface)

instance : ClicklessSurface BlankSurface where
  takeClick_eq := fun _ => rfl

/-- A log does not make a surface report clicks. -/
instance {S W : Type} [Surface S] [Writer W] [ClicklessSurface S] :
    ClicklessSurface (HpglCapture S W) where
  takeClick_eq := by
    intro capture
    have hinner := ClicklessSurface.takeClick_eq capture.inner
    simp only [Surface.takeClick, hinner]

namespace ClicklessSurface

variable {L S : Type} [Surface S] [ClicklessSurface S]

theorem foldl_use (surface : S) (uses : List SurfaceUse) :
    uses.foldl Surface.use surface =
      Surface.callAll surface (uses.filterMap SurfaceUse.call?) := by
  induction uses generalizing surface with
  | nil => rfl
  | cons u uses ih =>
    rw [List.foldl_cons, ih]
    cases u with
    | call told => rfl
    | poll =>
      rw [Surface.use, takeClick_eq]
      rfl

theorem quiet (tape : S → TapeSource) (surface : S) : Surface.Quiet tape surface where
  no_click := by
    intro uses
    rw [takeClick_eq]
  tape_eq := by
    intro uses
    rw [foldl_use]

theorem pollClick_eq (e : Engine L S) : e.pollClick.1 = false :=
  Engine.pollClick_of_silent (quiet e.tape e.surface).silent

end ClicklessSurface

/-! ## Links that discard all writes -/

theorem DiscardingLink.reliable (link : DiscardingLink) : HostLink.Reliable link :=
  fun _ _ => rfl

namespace Terminal

/-! ## Inputs and machines -/

section

variable {L S M : Type} [HostLink L] [Surface S] {allowed : List UInt8 → UInt8 → Prop}
  {take : M → UInt8 → Except Fault M} {Busy Settled : List UInt8 → Engine L S → M → Prop}
  {seen : List UInt8} {t : Terminal L S} {m : M}

/-- Inputs without keys are taken by the machine, however they are used. -/
theorem Follows.takeAll (h : Follows allowed take Busy Settled) {inputs : List TerminalInput}
    (hkeys : TerminalInput.keys inputs = []) (hempty : t.ring.toList = [])
    (hallowed : AllowedAfter allowed seen (TerminalInput.bytes inputs))
    (hbusy : Busy seen t.engine m) :
    Matches (fun last m' => last.ring.toList = [] ∧
        Busy (seen ++ TerminalInput.bytes inputs) last.engine m')
      (t.takeAll inputs) ((TerminalInput.bytes inputs).foldlM take m) := by
  induction inputs generalizing seen t m with
  | nil =>
    have hnone : seen ++ TerminalInput.bytes [] = seen := List.append_nil seen
    rw [hnone]
    exact .ok ⟨hempty, hbusy⟩
  | cons input inputs ih =>
    rw [takeAll_cons]
    cases input with
    | byte b =>
      have hbytes : TerminalInput.bytes (.byte b :: inputs) =
          b :: TerminalInput.bytes inputs := rfl
      have hwaits : (t.push [b]).2.ring.toList = [b] := by
        have hroom : [b].length ≤ t.ring.free := Ring.one_le_free hempty
        have hpushed := (Ring.extend_of_le_free hroom).1
        rwa [hempty] at hpushed
      rw [hbytes] at hallowed ⊢
      rcases hallowed with ⟨hb, hrest⟩
      rw [takeAll_byte, List.foldlM_cons]
      have hstepped : Matches (fun next m' => next.ring.toList = [] ∧
          Busy (seen ++ [b]) next.engine m') ((t.push [b]).2.step.map Prod.snd) (take m b) :=
        (h.step_of_cons hwaits hb hbusy).map_left fun _ _ hnext => hnext.2
      apply hstepped.bind
      rintro next m' ⟨hring, hnext⟩
      have hlater := ih hkeys hring hrest hnext
      rw [List.append_assoc] at hlater
      exact hlater
    | key pressed => simp [TerminalInput.keys, TerminalInput.key?] at hkeys
    | idle =>
      rcases h.step_of_nil hempty hbusy with ⟨idle, hstep, hring, hsettled⟩
      rw [takeAll_idle, hstep]
      exact ih hkeys hring hallowed (h.busy_of_settled hsettled)

end

/-! ## Streams in any rhythm -/

section

variable {L S : Type} [HostLink L] [Surface S] {t : Terminal L S}

/-- The logs change nothing for inputs either. -/
theorem takeAll_logged (t : Terminal L S) (inputs : List TerminalInput) :
    (t.logged.takeAll inputs).map unlogged = t.takeAll inputs := by
  have hevents : (inputs.flatMap TerminalInput.events).map Event.logged =
      (inputs.flatMap TerminalInput.events : List (Event (LoggedLink L) (LoggedSurface S))) := by
    induction inputs with
    | nil => rfl
    | cons input inputs ih =>
      rw [List.flatMap_cons, List.map_append, ih]
      cases input with
      | byte b => rfl
      | key pressed => rfl
      | idle => rfl
  have hlogged := t.run_logged (inputs.flatMap TerminalInput.events)
  rw [hevents] at hlogged
  exact hlogged

theorem feed_logged (t : Terminal L S) (bytes : List UInt8) :
    (t.logged.feed bytes).map unlogged = t.feed bytes := by
  calc
    (t.logged.feed bytes).map unlogged = (t.logged.run [.feed bytes]).map unlogged :=
      congrArg (Except.map unlogged) (t.logged.run_singleton (.feed bytes)).symm
    _ = t.run [.feed bytes] := t.run_logged [.feed bytes]
    _ = t.feed bytes := t.run_singleton (.feed bytes)

/-- A terminal that waits for a stream, over a link that accepts every write and a surface
without clicks. -/
structure Steady (t : Terminal L S) : Prop where
  remote : t.engine.channel.remote = true
  lost : t.engine.channel.lost = none
  reliable : HostLink.Reliable t.engine.channel.link
  ackPending : t.engine.settings.enqAck = false → t.engine.channel.ackPending = false
  quiet : Surface.Quiet t.engine.tape t.engine.surface
  ring_empty : t.ring.toList = []

/-- What the engine makes of a byte, if it is not asked. -/
def unasked {L S : Type} [HostLink L] [Surface S] (e : Engine L S) (b : UInt8) :
    Except Fault (Engine L S) :=
  if decide (b ≠ Byte.enq) = true then e.receive b else pure e

namespace Steady

theorem quiet_logged (h : Steady t) :
    Surface.Quiet t.logged.engine.tape t.logged.engine.surface := LoggedSurface.quiet h.quiet

/-- At first the terminal is the engine that was not asked. -/
theorem enquired (h : Steady t) :
    Engine.Enquired t.logged.engine.settings h.quiet_logged
      ([].count Byte.enq + t.engine.channel.ackPending.toNat) t.logged.engine
      t.logged.engine := by
  rw [List.count_nil, Nat.zero_add]
  exact t.logged.engine.enquired_start h.remote h.lost (LoggedLink.reliable h.reliable)
    h.ackPending rfl h.quiet_logged

/-- Inputs without keys show what the engine shows that takes their bytes without the
enquiries. -/
theorem takeAll_unasked (h : Steady t) {inputs : List TerminalInput}
    (hkeys : TerminalInput.keys inputs = []) :
    Matches (fun last e => last.view = e.view) (t.takeAll inputs)
      ((TerminalInput.bytes inputs).foldlM unasked t.logged.engine) := by
  have hmatch := (follows_unasked h.quiet_logged _).takeAll hkeys h.ring_empty
    (.of_forall fun _ _ => trivial) h.enquired
  rw [← takeAll_logged]
  apply hmatch.map_left
  rintro last e ⟨-, hlast⟩
  exact hlast.view_eq

/-- So does a feed. -/
theorem feed_unasked (h : Steady t) (bytes : List UInt8) :
    Matches (fun last e => last.view = e.view) (t.feed bytes)
      (bytes.foldlM unasked t.logged.engine) := by
  have hroom : 0 < t.logged.ring.free := Ring.one_le_free h.ring_empty
  have hallowed : AllowedAfter (fun _ _ => True) [] ([] ++ bytes) :=
    .of_forall fun _ _ => trivial
  have hmatch := (follows_unasked h.quiet_logged _).feed h.ring_empty hroom hallowed h.enquired
  rw [← feed_logged]
  apply hmatch.map_left
  rintro last e ⟨-, hlast, -⟩
  exact hlast.view_eq

/-- The rhythm of a stream cannot be seen. -/
theorem takeAll_feed (h : Steady t) {inputs : List TerminalInput}
    (hkeys : TerminalInput.keys inputs = []) :
    Matches (fun last fed => last.view = fed.view) (t.takeAll inputs)
      (t.feed (TerminalInput.bytes inputs)) := by
  have hjoined := (h.takeAll_unasked hkeys).join (h.feed_unasked (TerminalInput.bytes inputs))
  apply hjoined.mono
  rintro last fed ⟨e, hlast, hfed⟩
  exact hlast.trans hfed.symm

/-- A stream is refused if a part of it is refused in any rhythm. -/
theorem feed_error (h : Steady t) {inputs : List TerminalInput} {bytes : List UInt8}
    {fault : Fault} (hkeys : TerminalInput.keys inputs = [])
    (hfront : TerminalInput.bytes inputs <+: bytes) (hrefused : t.takeAll inputs = .error fault) :
    t.feed bytes = .error fault := by
  rcases hfront with ⟨rest, rfl⟩
  have htaken := h.takeAll_unasked hkeys
  rw [hrefused] at htaken
  have hfed := h.feed_unasked (TerminalInput.bytes inputs ++ rest)
  rw [List.foldlM_append, htaken.of_error] at hfed
  exact hfed.error_of_right

end Steady

end

end Terminal

end GraphicsTerminal
