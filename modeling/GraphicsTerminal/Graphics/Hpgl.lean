import GraphicsTerminal.Graphics.Surface
import GraphicsTerminal.Host.Writer
import GraphicsTerminal.Number.Decimal

/-!
# HP-GL capture

A capture stands between the terminal and a surface.  It passes every call on
and writes the vector part of the picture as HP-GL, each command in pieces:
its name, its arguments and what stands between them.  When a write fails the
capture stops, and drawing goes on.

Main definitions:

- {lit}`Hpgl.record`: the HP-GL text of a call, in pieces.
- {lit}`HpglCapture`: a surface with a log beside it.
- {lit}`HpglCapture.finish`: end the log and give surface and writer back.
-/

namespace GraphicsTerminal

namespace Hpgl

/-- The start of a log: initialise and take pen 1. -/
def header : String := "IN;SP1;\n"

/-- The end of a log: put the pen away. -/
def trailer : String := "SP0;\n"

/-- The character that ends a label. -/
def labelEnd : Char := Char.ofNat 3

/-- The end of a command. -/
def commandEnd : String := ";\n"

/-- A number; its sign is a piece of its own. -/
def number (value : Int) : List String :=
  if value < 0 then ["-", Decimal.text (-value)] else [Decimal.text value]

/-- A command with two coordinates. -/
def pointRecord (command : String) (point : Point) : List String :=
  command :: number point.x ++ "," :: number point.y ++ [commandEnd]

/-- The HP-GL text of a call, in pieces.  Only strokes, text and the choice of
a pen have one. -/
def record : SurfaceCall → List String
  | .moveTo point => pointRecord "PU" point
  | .lineTo point => pointRecord "PD" point
  | .text text => ["LB", text, String.singleton labelEnd, commandEnd]
  | .pen pen => "SP" :: number pen ++ [commandEnd]
  | _ => []

end Hpgl

/-- A surface whose vector calls are also written to a log. -/
structure HpglCapture (S W : Type) where
  inner : S
  /-- The writer of the log, until a write fails. -/
  out : Option W
  /-- Why the capture stopped. -/
  error : Option String

namespace HpglCapture

variable {S W : Type} [Writer W]

/-- Write to the log, if the capture has not stopped. -/
def emit (c : HpglCapture S W) (text : String) : HpglCapture S W :=
  match c.out with
  | none => c
  | some out =>
    match Writer.write out (Text.utf8 text) with
    | (none, out) => { c with out := some out }
    | (some reason, _) => { c with out := none, error := some reason }

/-- Start a capture; the header is written at once. -/
def start (inner : S) (out : W) : HpglCapture S W :=
  emit ⟨inner, some out, none⟩ Hpgl.header

/-- Write the trailer, and give back the surface, and the writer if every
write and the last flush succeeded. -/
def finish (c : HpglCapture S W) : S × Option W :=
  let ended := c.emit Hpgl.trailer
  (ended.inner,
    ended.out.bind fun out =>
      match Writer.flush out with
      | (none, out) => some out
      | (some _, _) => none)

instance [Surface S] : Surface (HpglCapture S W) where
  call c call :=
    let logged := (Hpgl.record call).foldl emit c
    { logged with inner := Surface.call logged.inner call }
  takeClick c :=
    let taken := Surface.takeClick c.inner
    (taken.1, { c with inner := taken.2 })

end HpglCapture

end GraphicsTerminal
