import Mathlib
import GraphicsTerminal.Proofs.Engine.Drawing
import GraphicsTerminal.Proofs.Terminal.Run

/-!
# What is known about the picture

The terminal answers questions about the picture without asking the surface.  What it
knows can be read off the complete list of the calls: it is what the last call of each
kind said, and the pen and the graphics cursor return to the origin with every reset.

Main definitions:

- {lit}`SurfaceCall.sinceReset`: the calls since the last reset.
- {lit}`SurfaceCall.last`: what the last call of a kind said.
- {lit}`GraphicsState.Mirrors`: what is known is what a list of calls says.

Main results:

- Theorem {lit}`GraphicsState.Mirrors.follow`: one more call.
- Theorem {lit}`Terminal.mirrors_of_run_start`: what is known in every turn of a run, and
  after it.
-/

namespace GraphicsTerminal

namespace SurfaceCall

/-! ## Reading a list of calls -/

def isReset : SurfaceCall → Bool
  | resetDefaults _ => true
  | _ => false

/-- The point that a stroke leads to, and whether it draws. -/
def stroke? : SurfaceCall → Option (Point × Bool)
  | moveTo point => some (point, false)
  | lineTo point => some (point, true)
  | _ => none

def cursorPosition? : SurfaceCall → Option Point
  | cursorPosition point => some point
  | _ => none

def cursorVisible? : SurfaceCall → Option Bool
  | cursorVisible on => some on
  | _ => none

def visible? : SurfaceCall → Option Bool
  | visible on => some on
  | _ => none

def screenSize? : SurfaceCall → Option (Nat × Nat)
  | screenSize width height => some (width, height)
  | _ => none

/-- The calls since the last reset, or all if there was none. -/
def sinceReset (calls : List SurfaceCall) : List SurfaceCall := calls.rtakeWhile (!·.isReset)

/-- What the last call of a kind said. -/
def last {α : Type} (kind? : SurfaceCall → Option α) (calls : List SurfaceCall) : Option α :=
  (calls.filterMap kind?).getLast?

variable {α : Type} (kind? : SurfaceCall → Option α) (calls : List SurfaceCall)
  (call : SurfaceCall)

/-- One more call is the last of its kind. -/
theorem last_concat : last kind? (calls ++ [call]) = (kind? call).or (last kind? calls) := by
  rw [last, last, List.filterMap_append, List.filterMap_cons, List.filterMap_nil]
  cases kind? call with
  | none => rw [List.append_nil, Option.none_or]
  | some a => rw [List.getLast?_concat, Option.some_or]

/-- A reset takes what was said before it away. -/
theorem last_sinceReset_concat :
    last kind? (sinceReset (calls ++ [call])) =
      if call.isReset then none else (kind? call).or (last kind? (sinceReset calls)) := by
  unfold sinceReset
  rw [List.rtakeWhile_concat]
  cases call.isReset with
  | true => rfl
  | false => exact last_concat kind? _ call

end SurfaceCall

namespace GraphicsState

open SurfaceCall (last sinceReset stroke? cursorPosition? cursorVisible? visible? screenSize?)

/-! ## Following a list of calls -/

/-- What is known about the picture is what a list of calls says. -/
structure Mirrors (g : GraphicsState) (calls : List SurfaceCall) : Prop where
  pen_eq : (g.pen, g.penDown) =
    (last stroke? (sinceReset calls)).getD (Point.origin, false)
  cursor_eq : g.cursor = (last cursorPosition? (sinceReset calls)).getD Point.origin
  cursorVisible_eq : g.cursorVisible =
    (last cursorVisible? (sinceReset calls)).getD false
  visible_eq : g.visible = (last visible? calls).getD true
  size_eq : some (g.width, g.height) = last screenSize? calls

namespace Mirrors

variable {g : GraphicsState} {calls : List SurfaceCall}

/-- One more call is followed as it says. -/
theorem follow (h : g.Mirrors calls) (call : SurfaceCall) :
    (g.follow call).Mirrors (calls ++ [call]) where
  pen_eq := by
    rw [SurfaceCall.last_sinceReset_concat]
    cases call with
    | moveTo point => rfl
    | lineTo point => rfl
    | resetDefaults hard => rfl
    | _ => exact h.pen_eq
  cursor_eq := by
    rw [SurfaceCall.last_sinceReset_concat]
    cases call with
    | cursorPosition point => rfl
    | resetDefaults hard => rfl
    | _ => exact h.cursor_eq
  cursorVisible_eq := by
    rw [SurfaceCall.last_sinceReset_concat]
    cases call with
    | cursorVisible on => rfl
    | resetDefaults hard => rfl
    | _ => exact h.cursorVisible_eq
  visible_eq := by
    rw [SurfaceCall.last_concat]
    cases call with
    | visible on => rfl
    | _ => exact h.visible_eq
  size_eq := by
    rw [SurfaceCall.last_concat]
    cases call with
    | screenSize width height => rfl
    | _ => exact h.size_eq

theorem foldl (h : g.Mirrors calls) (more : List SurfaceCall) :
    (more.foldl GraphicsState.follow g).Mirrors (calls ++ more) := by
  induction more generalizing g calls with
  | nil =>
    rw [List.append_nil]
    exact h
  | cons call more ih =>
    rw [List.append_cons]
    exact ih (h.follow call)

/-- A new session has told the size of the picture and nothing else. -/
theorem initial (width height : Nat) :
    let g := GraphicsState.initial width height
    g.Mirrors [.screenSize g.width g.height] where
  pen_eq := rfl
  cursor_eq := rfl
  cursorVisible_eq := rfl
  visible_eq := rfl
  size_eq := rfl

end Mirrors

end GraphicsState

/-! ## Runs -/

/-- Taking a click is not recorded as a call. -/
theorem RecordingSurface.calls_nextClick (s : RecordingSurface) :
    s.nextClick.2.calls = s.calls := by
  unfold nextClick
  split
  · rfl
  · rfl

namespace Engine

variable {L : Type}

theorem calls_pollClick (e : Engine L RecordingSurface) :
    e.pollClick.2.surface.calls = e.surface.calls := by
  have hclick := e.surface.calls_nextClick
  unfold pollClick
  split
  · split
    · rename_i htaken
      rw [← hclick]
      exact congrArg (·.2.calls) htaken.symm
    · rename_i htaken
      rw [← hclick]
      exact congrArg (·.2.calls) htaken.symm
  · rfl

/-- What is told to the surface becomes known. -/
theorem Draws.mirrors {e e' : Engine L RecordingSurface} {calls : List SurfaceCall}
    (hdraws : e.Draws e' calls) (h : e.graphics.Mirrors e.surface.calls.toList) :
    e'.graphics.Mirrors e'.surface.calls.toList := by
  rw [hdraws.graphics_eq, hdraws.surface_eq, RecordingSurface.calls_foldl]
  exact h.foldl calls

end Engine

namespace Terminal

variable {L : Type} [HostLink L]

/-- A change that leaves the recorded calls as they are. -/
def KeepsCalls (change : RecordingSurface → RecordingSurface) : Prop :=
  ∀ surface, (change surface).calls = surface.calls

/-- What is known about the picture mirrors the recorded calls, whatever happens. -/
theorem mirrors_invariant :
    InvariantUnder KeepsCalls fun t : Terminal L RecordingSurface =>
      t.engine.graphics.Mirrors t.engine.surface.calls.toList where
  toStepInvariant := by
    refine .of_engine
      (P := fun e : Engine L RecordingSurface => e.graphics.Mirrors e.surface.calls.toList)
      ?_ ?_ ?_
    · intro e h
      rw [e.graphics_pollClick, e.calls_pollClick]
      exact h
    · intro e h
      rw [e.graphics_idle, e.surface_idle]
      exact h
    · intro e e' b h hreceive
      exact (Engine.draws_of_receive hreceive).mirrors h
  press := fun t key h => (t.engine.draws_press key).mirrors h
  surface := by
    intro t change hchange h
    have hcalls : (t.changeSurface change).engine.surface.calls = t.engine.surface.calls :=
      hchange t.engine.surface
    rw [hcalls]
    exact h
  link := fun _ _ h => h
  collect := fun _ h => h

/-- In every run over a recording surface to which nobody else makes calls, what is known
about the picture is what the calls so far say, in every turn and at the end. -/
theorem mirrors_of_run_start (settings : Settings) (link : L) {surface : RecordingSurface}
    (hnew : surface.calls = #[]) (tape : RecordingSurface → TapeSource)
    {events : List (Event L RecordingSurface)}
    (hevents : ∀ event ∈ events, event.Allowed KeepsCalls) :
    (∀ t ∈ (start settings link surface tape).runTurns events,
        t.engine.graphics.Mirrors t.engine.surface.calls.toList) ∧
      ∀ t, (start settings link surface tape).run events = .ok t →
        t.engine.graphics.Mirrors t.engine.surface.calls.toList := by
  have hstart : (start settings link surface tape).engine.graphics.Mirrors
      (start settings link surface tape).engine.surface.calls.toList := by
    have hcalls : (start settings link surface tape).engine.surface.calls.toList =
        [.screenSize (start settings link surface tape).engine.graphics.width
          (start settings link surface tape).engine.graphics.height] := by
      change (surface.calls.push _).toList = _
      rw [hnew]
      rfl
    rw [hcalls]
    exact GraphicsState.Mirrors.initial _ _
  exact ⟨mirrors_invariant.runTurns hevents hstart,
    fun t hrun => mirrors_invariant.run hevents hstart hrun⟩

/-- A stroke to a point, a click, and the key that hides the picture. -/
def hiddenStroke : List (Event RecordingLink RecordingSurface) :=
  [.feed [Byte.esc, 0x2A, 0x70, 0x31, 0x2C, 0x32, 0x20, 0x33, 0x2C, 0x34, 0x5A],
    .surface (·.addClick ⟨⟨3, 4⟩, Click.left⟩), .key (.function 10 false)]

/-- The point of the stroke is known after it, and that the picture is hidden. -/
theorem mirrors_of_run_start_hiddenStroke :
    ∃ t, (recorded 8).run hiddenStroke = .ok t ∧
      t.engine.graphics.pen = ⟨3, 4⟩ ∧ t.engine.graphics.visible = false ∧
      t.engine.graphics.Mirrors t.engine.surface.calls.toList := by
  have hevents : ∀ event ∈ hiddenStroke, event.Allowed KeepsCalls := by
    intro event hevent
    simp only [hiddenStroke, List.mem_cons, List.not_mem_nil, or_false] at hevent
    rcases hevent with rfl | rfl | rfl
    · trivial
    · exact fun _ => rfl
    · trivial
  have hknown : ((recorded 8).run hiddenStroke).map (fun t =>
      (t.engine.graphics.pen, t.engine.graphics.visible)) = .ok (⟨3, 4⟩, false) := by
    cbv
  cases hrun : (recorded 8).run hiddenStroke with
  | error fault =>
    rw [hrun] at hknown
    cases hknown
  | ok t =>
    rw [hrun] at hknown
    have hpair := Prod.mk.inj (Except.ok.inj hknown)
    exact ⟨t, rfl, hpair.1, hpair.2, (mirrors_of_run_start _ _ rfl _ hevents).2 t hrun⟩

end Terminal

end GraphicsTerminal
