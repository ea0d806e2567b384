import GraphicsTerminal.Engine.Keyboard
import GraphicsTerminal.Input.Ring

/-!
# The terminal

The terminal is the engine together with the ring in which host bytes wait.
It works byte by byte; a click that was waited for puts a handshake in front
of the bytes that wait, so that its report goes out next.

Main definitions:

- {lit}`Terminal.step`: the next byte, or the idle moment when none is left.
- {lit}`Terminal.runUntilIdle`: all bytes that wait.
- {lit}`Terminal.feed`: bytes of any number, in slices that fit into the ring.

Main results:

- Theorem {lit}`Terminal.work_step_lt`: a step with a byte leaves less work,
  which is why {lit}`Terminal.runUntilIdle` ends.
-/

namespace GraphicsTerminal

/-- The engine and the bytes that wait for it. -/
structure Terminal (L S : Type) where
  ring : Ring
  engine : Engine L S

namespace Terminal

variable {L S : Type}

/-- The terminal of a new session. -/
def start [Surface S] (settings : Settings) (link : L) (surface : S)
    (tape : S → TapeSource) : Terminal L S :=
  ⟨Ring.empty settings.ringCapacity, Engine.start settings link surface tape⟩

/-- Change the engine. -/
def modifyEngine (t : Terminal L S) (f : Engine L S → Engine L S) : Terminal L S :=
  { t with engine := f t.engine }

/-- Let bytes wait in the ring, and count those that are lost. -/
def push (t : Terminal L S) (bytes : List UInt8) : Nat × Terminal L S :=
  let extended := t.ring.extend bytes
  (extended.1, { t with ring := extended.2 })

/-- The effect of a key press. -/
def press [HostLink L] [Surface S] (t : Terminal L S) (key : Key) :
    KeyOutcome × Terminal L S :=
  let pressed := t.engine.press key
  (pressed.1, { t with engine := pressed.2 })

/-- Take a click that was waited for, and put a handshake in front of the
bytes that wait. -/
def pollClick [Surface S] (t : Terminal L S) : Terminal L S :=
  match t.engine.pollClick with
  | (true, engine) => ⟨t.ring.putBack Byte.dc1, engine⟩
  | (false, engine) => { t with engine := engine }

/-- The next byte that waits.  The flag is false when there was none, and then
the engine used the idle moment. -/
def step [HostLink L] [Surface S] (t : Terminal L S) :
    Except Fault (Bool × Terminal L S) :=
  let polled := t.pollClick
  match polled.ring.pop? with
  | none => .ok (false, polled.modifyEngine Engine.idle)
  | some (b, ring) => (polled.engine.receive b).map fun engine => (true, ⟨ring, engine⟩)

/-! ## Running until no byte is left -/

/-- A bound on the steps that are left: a byte may begin a wait, and the end of
a wait takes one more step. -/
def work (t : Terminal L S) : Nat :=
  2 * t.ring.length + t.engine.isAwaitingClick.toNat

/-- A step with a byte leaves less work. -/
theorem work_step_lt [HostLink L] [Surface S] {t t' : Terminal L S}
    (h : t.step = .ok (true, t')) : t'.work < t.work := by
  unfold step pollClick at h
  generalize hpoll : t.engine.pollClick = polled at h
  obtain ⟨clicked, engine⟩ := polled
  cases clicked with
  | false =>
    simp only at h
    split at h
    · simp at h
    · rename_i b ring hpop
      rcases Fault.exists_of_map h with ⟨engine', hreceive, hstepped⟩
      cases hstepped
      have hlength := Ring.pop?_length hpop
      have hbit := engine'.isAwaitingClick.toNat_le
      simp only [work]
      omega
  | true =>
    obtain ⟨hwait, hidle⟩ := Engine.phase_pollClick_of_true hpoll
    obtain ⟨next, hpop⟩ := t.ring.pop?_putBack Byte.dc1
    simp only [hpop] at h
    rcases Fault.exists_of_map h with ⟨engine', hreceive, hstepped⟩
    cases hstepped
    have hphase := Engine.receive_dc1_phase hidle hreceive
    have hlength := Ring.pop?_length hpop
    have hback := t.ring.length_putBack_le Byte.dc1
    have hdone : engine'.isAwaitingClick = false := by
      simp [Engine.isAwaitingClick, hphase]
    simp only [work, hwait, hdone, Bool.toNat_true, Bool.toNat_false]
    omega

/-- Use all bytes that wait, and the idle moment after them. -/
def runUntilIdle [HostLink L] [Surface S] (t : Terminal L S) :
    Except Fault (Terminal L S) :=
  match _ : t.step with
  | .error fault => .error fault
  | .ok (false, t') => .ok t'
  | .ok (true, t') => t'.runUntilIdle
termination_by t.work
decreasing_by exact work_step_lt ‹_›

/-- The number of bytes that are taken at once: as many as the ring has room
for, and at least one. -/
def slice (t : Terminal L S) (count : Nat) : Nat := min (max t.ring.free 1) count

/-- Use bytes of any number, in slices that fit into the ring. -/
def feed [HostLink L] [Surface S] (t : Terminal L S) :
    List UInt8 → Except Fault (Terminal L S)
  | [] => t.runUntilIdle
  | b :: rest => do
    let count := t.slice (rest.length + 1)
    let t' ← (t.push ((b :: rest).take count)).2.runUntilIdle
    t'.feed ((b :: rest).drop count)
termination_by bytes => bytes.length
decreasing_by
  simp only [slice, List.length_drop, List.length_cons]
  omega

end Terminal

end GraphicsTerminal
