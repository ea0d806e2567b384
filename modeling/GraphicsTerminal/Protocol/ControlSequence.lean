import GraphicsTerminal.Sequence.Payload

/-!
# Control sequences

A control sequence is opened by a bracket and named by its last byte; the
numbers in between are its parameters.

Main definitions:

- {lit}`ControlSequence`: the commands.
- {lit}`ControlSequence.decode?`: the command of a complete payload.
-/

namespace GraphicsTerminal

/-- A command of a control sequence. -/
inductive ControlSequence where
  | insertChars (count : Int)
  | moveCursor (rows cols : Int)
  /-- Place the cursor in the view. -/
  | position (row column : Int)
  | eraseInDisplay (selector : Int)
  | eraseInLine (selector : Int)
  | insertLines (count : Int)
  | deleteLines (count : Int)
  | deleteChars (count : Int)
  | eraseChars (count : Int)
  /-- Apply enhancement codes in order. -/
  | enhance (codes : List Int)
  /-- Report the position of the cursor in the view. -/
  | cursorReport
  | lineWrap (on : Bool)
  /-- Go to the top of memory, or to the last row of the view. -/
  | home (down : Bool)
deriving DecidableEq, Repr

namespace ControlSequence

/-- A command with one parameter. -/
def withInt (p : Payload) (missing : Int) (command : Int → ControlSequence) :
    Option ControlSequence × Payload :=
  let read := p.readInt
  (some (command (read.1.getD missing)), read.2)

/-- A command with two parameters, each 0 when missing. -/
def withInts (p : Payload) (command : Int → Int → ControlSequence) :
    Option ControlSequence × Payload :=
  let first := p.readInt
  let second := first.2.readInt
  (some (command (first.1.getD 0) (second.1.getD 0)), second.2)

/-- The enhancement codes of a sequence: up to four, or a single 0. -/
def enhanceCodes (p : Payload) : Option ControlSequence × Payload :=
  let read := p.readNumbers Payload.mostNumbers
  (some (enhance (if read.1.isEmpty then [0] else read.1)), read.2)

/-- The switch of a private mode.  Only modes that begin with the digit 7 are
known. -/
def privateMode (p : Payload) (on : Bool) : Option ControlSequence × Payload :=
  if p.peek = 0x3F then
    let p := p.advance 1
    (if p.peek = 0x37 then some (lineWrap on) else none, p)
  else
    (none, p)

/-- The home command: a greater sign and a zero mean the top of memory. -/
def homeCommand (p : Payload) : Option ControlSequence × Payload :=
  if p.peek = 0x3E then
    let read := (p.advance 1).readInt
    (some (home (read.1 != some 0)), read.2)
  else
    (some (home true), p)

/-- The command of a complete payload, by its last byte.  The parameters begin
after the bracket. -/
def decode? (p : Payload) : Option ControlSequence × Payload :=
  match p.last? with
  | none => (none, p)
  | some final =>
    let p := p.seek 1
    match Byte.char final with
    | '@' => withInt p 1 insertChars
    | 'A' => withInt p 1 fun n => moveCursor (Word.neg n) 0
    | 'B' => withInt p 1 fun n => moveCursor n 0
    | 'C' => withInt p 1 fun n => moveCursor 0 n
    | 'D' => withInt p 1 fun n => moveCursor 0 (Word.neg n)
    | 'H' | 'f' => withInts p position
    | 'J' => withInt p 0 eraseInDisplay
    | 'K' => withInt p 0 eraseInLine
    | 'L' => withInt p 1 insertLines
    | 'M' => withInt p 1 deleteLines
    | 'P' => withInt p 1 deleteChars
    | 'X' => withInt p 1 eraseChars
    | 'm' => enhanceCodes p
    | 'n' => (if p.peek = 0x36 then some cursorReport else none, p)
    | 'h' => privateMode p true
    | 'l' => privateMode p false
    | 's' => homeCommand p
    | _ => (none, p)

end ControlSequence

end GraphicsTerminal
