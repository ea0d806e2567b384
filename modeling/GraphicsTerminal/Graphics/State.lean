import GraphicsTerminal.Graphics.Surface

/-!
# What the terminal knows about the picture

Status queries are answered without asking the surface.  The terminal keeps
what it needs for that: the pen, the graphics cursor, visibility and size.

Main definitions:

- {lit}`GraphicsState.setSize`: store a size, clamped to the supported range.
- {lit}`GraphicsState.record`: follow a call that moves the pen.
-/

namespace GraphicsTerminal

/-- What the terminal knows about the picture. -/
structure GraphicsState where
  /-- The end of the last stroke. -/
  pen : Point
  /-- The last stroke was a draw. -/
  penDown : Bool
  cursor : Point
  cursorVisible : Bool
  visible : Bool
  width : Nat
  height : Nat
deriving DecidableEq, Repr

namespace GraphicsState

/-- The least supported width. -/
abbrev leastWidth : Nat := 512

/-- The greatest supported width. -/
abbrev greatestWidth : Nat := 720

/-- The least supported height. -/
abbrev leastHeight : Nat := 360

/-- The greatest supported height. -/
abbrev greatestHeight : Nat := 480

/-- Store a size, clamped to the supported range. -/
def setSize (g : GraphicsState) (width height : Nat) : GraphicsState :=
  { g with
    width := max leastWidth (min width greatestWidth)
    height := max leastHeight (min height greatestHeight) }

/-- The state before any call, for a size. -/
def initial (width height : Nat) : GraphicsState :=
  setSize
    { pen := Point.origin
      penDown := false
      cursor := Point.origin
      cursorVisible := false
      visible := true
      width := 0
      height := 0 }
    width height

/-- Return pen and cursor to the origin and hide the cursor. -/
def reset (g : GraphicsState) : GraphicsState :=
  { g with
    pen := Point.origin
    penDown := false
    cursor := Point.origin
    cursorVisible := false }

/-- The pen after a move. -/
def moved (g : GraphicsState) (point : Point) : GraphicsState :=
  { g with pen := point, penDown := false }

/-- The pen after a draw. -/
def drawn (g : GraphicsState) (point : Point) : GraphicsState :=
  { g with pen := point, penDown := true }

/-- Follow a call of a plot body; only strokes move the pen. -/
def record (g : GraphicsState) : SurfaceCall → GraphicsState
  | .moveTo point => g.moved point
  | .lineTo point => g.drawn point
  | _ => g

end GraphicsState

end GraphicsTerminal
