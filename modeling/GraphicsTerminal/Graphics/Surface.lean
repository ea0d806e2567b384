import GraphicsTerminal.Graphics.Point

/-!
# Graphics surfaces

The terminal draws on a surface by calls and asks it for clicks.  A call is a
value, so what a surface was told is a list of calls.  Any type can be a
surface; two are given here, one that ignores its calls and one that records
them and plays back clicks that were prepared for it.

Main definitions:

- {lit}`SurfaceCall`: what a surface can be told.
- {lit}`Surface`: the interface of a surface.
- {lit}`BlankSurface`, {lit}`RecordingSurface`: two surfaces.

Main results:

- Theorem {lit}`RecordingSurface.calls_foldl`: a recording surface records the
  calls it is told, in order.
-/

namespace GraphicsTerminal

/-- What a graphics surface can be told. -/
inductive SurfaceCall where
  /-- Move the pen without drawing. -/
  | moveTo (point : Point)
  /-- Draw a line to a point. -/
  | lineTo (point : Point)
  /-- Fill a rectangle. -/
  | fillRect (x y width height : Int)
  /-- Fill a closed polygon. -/
  | fillPolygon (points : List Point)
  /-- Draw graphics text. -/
  | text (text : String)
  /-- Choose how drawing combines with what is there. -/
  | drawMode (mode : Nat)
  /-- Choose a line pattern. -/
  | lineType (pattern : Nat)
  /-- Choose the pen, counted from 1. -/
  | pen (pen : Int)
  /-- Choose the pen for text, counted from 1; 0 follows the pen. -/
  | textPen (pen : Int)
  | textSize (size : Int)
  /-- Turn text by an angle in degrees. -/
  | textOrientation (degrees : Int)
  | textSlant (slanted : Bool)
  | screenSize (width height : Nat)
  /-- Clear the picture with a colour, or with the background. -/
  | clear (color : Option Int)
  /-- Keep the picture before it is cleared. -/
  | saveImage
  | visible (visible : Bool)
  | cursorVisible (visible : Bool)
  | cursorPosition (point : Point)
  | resetDefaults (hard : Bool)
  /-- Begin to wait for a click. -/
  | clickWait
deriving DecidableEq, Repr

/-- A moving or drawing call. -/
def SurfaceCall.isStroke : SurfaceCall → Bool
  | moveTo _ => true
  | lineTo _ => true
  | _ => false

/-- A click, or a key pressed in its place. -/
structure Click where
  position : Point
  /-- The code of a mouse button or of the character of a key. -/
  code : Nat
deriving DecidableEq, Repr

namespace Click

/-- The code of the left mouse button. -/
abbrev left : Nat := 232

/-- The code of the right mouse button. -/
abbrev right : Nat := 233

/-- The code of the middle mouse button. -/
abbrev middle : Nat := 234

end Click

/-- A type of graphics surfaces. -/
class Surface (S : Type) where
  /-- The surface after a call. -/
  call : S → SurfaceCall → S
  /-- A click, once there is one, and the surface after it was taken. -/
  takeClick : S → Option Click × S

namespace Surface

/-- The surface after calls in order. -/
def callAll {S : Type} [Surface S] (surface : S) (calls : List SurfaceCall) : S :=
  calls.foldl call surface

end Surface

/-! ## A surface that ignores its calls -/

/-- A surface that draws nothing and never reports a click. -/
structure BlankSurface where
deriving DecidableEq, Repr

instance : Surface BlankSurface where
  call surface _ := surface
  takeClick surface := (none, surface)

/-! ## A surface that records its calls -/

/-- A surface that records its calls and plays back prepared clicks. -/
structure RecordingSurface where
  /-- The calls so far, in order. -/
  calls : Array SurfaceCall
  /-- The clicks to come, in order. -/
  clicks : List Click
  /-- A click may be taken. -/
  armed : Bool
deriving DecidableEq, Repr

namespace RecordingSurface

/-- A surface without calls and clicks. -/
def empty : RecordingSurface := ⟨#[], [], false⟩

/-- Record a call; a click wait also arms the surface. -/
def record (s : RecordingSurface) (call : SurfaceCall) : RecordingSurface :=
  { s with calls := s.calls.push call, armed := s.armed || call == .clickWait }

/-- Prepare a click. -/
def addClick (s : RecordingSurface) (click : Click) : RecordingSurface :=
  { s with clicks := s.clicks ++ [click] }

/-- The next prepared click, if the surface is armed.  Taking it disarms the
surface. -/
def nextClick (s : RecordingSurface) : Option Click × RecordingSurface :=
  match s.armed, s.clicks with
  | true, click :: later => (some click, { s with clicks := later, armed := false })
  | _, _ => (none, s)

/-- The moving and drawing calls. -/
def strokes (s : RecordingSurface) : List SurfaceCall :=
  s.calls.toList.filter SurfaceCall.isStroke

instance : Surface RecordingSurface where
  call := record
  takeClick := nextClick

/-- A recording surface records the calls it is told, in order. -/
theorem calls_foldl (s : RecordingSurface) (calls : List SurfaceCall) :
    (Surface.callAll s calls).calls.toList = s.calls.toList ++ calls := by
  induction calls generalizing s with
  | nil => simp [Surface.callAll]
  | cons call calls ih =>
    have hstep := ih (s.record call)
    simp only [Surface.callAll, record, Array.toList_push] at hstep ⊢
    simpa [Surface.call, record] using hstep

end RecordingSurface

end GraphicsTerminal
