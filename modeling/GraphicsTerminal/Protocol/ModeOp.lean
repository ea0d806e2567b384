import GraphicsTerminal.Sequence.Payload
import GraphicsTerminal.Sequence.Terms

/-!
# Drawing modes

The mode group of graphics sequences sets how strokes and graphics text are
drawn.

Main definitions:

- {lit}`ModeOp.ofTerm`: the operation that a term names.
- {lit}`ModeOp.decode`: the operations of a payload.
-/

namespace GraphicsTerminal

/-- An operation of the mode group. -/
inductive ModeOp where
  | drawMode (mode : Nat)
  | lineType (pattern : Nat)
  | fillRect (x y width height : Int)
  | textSize (size : Int)
  /-- Turn text by 0, 90, 180 or 270 degrees. -/
  | textOrientation (degrees : Int)
  | textSlant (on : Bool)
  | graphicsDefaults
  /-- Choose the pen, counted from 1. -/
  | primaryPen (pen : Int)
  /-- Accepted without effect. -/
  | skip
  | unknown (code : UInt8)
deriving DecidableEq, Repr

namespace ModeOp

/-- The first number of a term, clamped, or a default. -/
def clamped (t : Term) (missing low high : Int) : Int :=
  (t.number? 0).elim missing (Word.clamp low high)

/-- The operation that a term names. -/
def ofTerm (t : Term) : ModeOp :=
  match Byte.char t.letter with
  | 'a' => drawMode (clamped t 0 0 5).toNat
  | 'b' => lineType (clamped t 0 0 11).toNat
  | 'e' =>
    match t.numbers with
    | [x1, y1, x2, y2] => fillRect x1 y1 (Word.sub x2 x1) (Word.sub y2 y1)
    | _ => skip
  | 'm' => textSize (clamped t 1 1 8)
  | 'n' => textOrientation ((clamped t 1 1 4 - 1) * 90)
  | 'o' => textSlant true
  | 'p' => textSlant false
  | 'r' => graphicsDefaults
  | 'x' => primaryPen (Word.add ((t.number? 0).getD 0) 1)
  | 'z' | '\r' | '\n' | ' ' | ',' | ';' => skip
  | _ => unknown t.letter

/-- The operations of a payload whose body begins after its group letter. -/
def decode (p : Payload) : List ModeOp × Payload :=
  let p := p.seek 2
  let terms := Term.split p.rest
  (terms.1.map ofTerm, p.resume terms.2)

end ModeOp

end GraphicsTerminal
