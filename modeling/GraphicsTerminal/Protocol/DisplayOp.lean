import GraphicsTerminal.Graphics.Point
import GraphicsTerminal.Sequence.Payload
import GraphicsTerminal.Sequence.Terms

/-!
# Graphics display control

The display group of graphics sequences clears and shows the two memories,
moves the graphics cursor, sets the size of the picture, and switches to
graphics text.

Main definitions:

- {lit}`DisplayOp.ofTerm`: the operation that a term names.
- {lit}`DisplayOp.decode`: the operations of a payload.
-/

namespace GraphicsTerminal

/-- An operation of the display group. -/
inductive DisplayOp where
  /-- Keep the picture, then clear it with a colour or the background. -/
  | clear (color : Option Int)
  /-- Set the picture to a colour. -/
  | fill (color : Int)
  | graphicsVisible (on : Bool)
  | alphaVisible (on : Bool)
  | graphicsCursorVisible (on : Bool)
  | setGraphicsCursor (point : Point)
  | moveGraphicsCursor (delta : Point)
  | alphaCursorVisible (on : Bool)
  /-- The bytes after the sequence are graphics text. -/
  | enterGraphicsText
  | screenSize (width height : Int)
  /-- Accepted without effect. -/
  | skip
  | unknown (code : UInt8)
deriving DecidableEq, Repr

namespace DisplayOp

/-- The number of points from one corner to the other, both included. -/
def extent (first last : Int) : Int := Word.add (Word.sub last first) 1

/-- The operation that a term names. -/
def ofTerm (t : Term) : DisplayOp :=
  match Byte.char t.letter with
  | 'a' => clear (t.number? 0)
  | 'b' => fill ((t.number? 0).getD 7)
  | 'c' => graphicsVisible true
  | 'd' => graphicsVisible false
  | 'e' => alphaVisible true
  | 'f' => alphaVisible false
  | 'k' => graphicsCursorVisible true
  | 'l' => graphicsCursorVisible false
  | 'o' =>
    match t.numbers with
    | x :: y :: _ => setGraphicsCursor ⟨x, y⟩
    | _ => skip
  | 'p' =>
    match t.numbers with
    | x :: y :: _ => moveGraphicsCursor ⟨x, y⟩
    | _ => skip
  | 'q' => alphaCursorVisible true
  | 'r' => alphaCursorVisible false
  | 's' => enterGraphicsText
  | 'y' =>
    match t.numbers with
    | [x1, y1, x2, y2] => screenSize (extent x1 x2) (extent y1 y2)
    | _ => unknown t.letter
  | 't' | 'z' | '\r' | '\n' | ' ' | ',' | ';' => skip
  | _ => unknown t.letter

/-- The operations of a payload whose body begins after its group letter. -/
def decode (p : Payload) : List DisplayOp × Payload :=
  let p := p.seek 2
  let terms := Term.split p.rest
  (terms.1.map ofTerm, p.resume terms.2)

end DisplayOp

end GraphicsTerminal
