import GraphicsTerminal.Protocol.Action

/-!
# The parser of the host stream

The parser takes the host stream byte by byte and says, for each byte, whether
it completed a unit and which action the unit asks for.  Outside of sequences
every byte is a unit.  After an escape byte, the next byte opens one of four
kinds of longer sequences or names a command by itself:

- a bracket opens a control sequence, which ends with a byte from 0x40 to 0x7E;
- a star opens a graphics sequence and an ampersand a device sequence; the
  byte after it names the group, and a capital letter, an at sign, a caret or
  a line end is the last byte;
- a closing parenthesis is followed by a character set designator.

An escape byte inside a graphics sequence ends it: the byte before it, made a
capital letter, is its last byte.

Main definitions:

- {lit}`Phase`: where the parser stands in the stream.
- {lit}`Parser.advance`: the action and the parser after one byte.
- {lit}`Parser.feed`: the actions of a byte string.

Main results:

- Theorem {lit}`Parser.feed_append`: the actions do not depend on how a byte
  string is cut into pieces.
-/

namespace GraphicsTerminal

/-- The group of a graphics sequence. -/
inductive GraphicsGroup where
  | display
  | image
  | mode
  | text
  | plot
  | status
  | compatibility
  | initialization
  /-- Any other byte, made small. -/
  | other (b : UInt8)
deriving DecidableEq, Repr

/-- The group that a byte names; capital and small letters name the same. -/
def GraphicsGroup.ofByte (b : UInt8) : GraphicsGroup :=
  match Byte.char (Byte.lower b) with
  | 'd' => display
  | 'e' => image
  | 'm' => mode
  | 'n' => text
  | 'p' => plot
  | 's' => status
  | 't' => compatibility
  | 'w' => initialization
  | _ => other (Byte.lower b)

/-- The group of a device sequence. -/
inductive DeviceGroup where
  /-- Cursor addressing. -/
  | cursor
  /-- Display enhancements. -/
  | enhancements
  /-- Soft-key labels. -/
  | keyLabels
  /-- Keyboard lock. -/
  | keyboard
  /-- Line and page transmission. -/
  | pageMode
  /-- Back to no enhancement. -/
  | plain
  /-- Any other byte. -/
  | other (b : UInt8)
deriving DecidableEq, Repr

/-- The group that a byte names. -/
def DeviceGroup.ofByte (b : UInt8) : DeviceGroup :=
  match Byte.char b with
  | 'a' => cursor
  | 'd' => enhancements
  | 'j' => keyLabels
  | 'q' => keyboard
  | 's' => pageMode
  | '@' => plain
  | _ => other b

/-- Where the parser stands in the stream. -/
inductive Phase where
  /-- Outside of sequences. -/
  | idle
  /-- After an escape byte. -/
  | inEscape
  /-- In a control sequence. -/
  | inBracket
  /-- In a graphics sequence, whose group may still be open. -/
  | inGraphics (group : Option GraphicsGroup)
  /-- In a device sequence, whose group may still be open. -/
  | inDevice (group : Option DeviceGroup)
  /-- Before a character set designator. -/
  | inCharset
  /-- In graphics text, up to the next escape byte. -/
  | graphicsText
  /-- In a graphics label, up to a line end. -/
  | graphicsLabel
  /-- Outside of sequences, while a click is awaited. -/
  | awaitClick
deriving DecidableEq, Repr

/-- The state of the parser. -/
structure Parser where
  phase : Phase
  /-- The bytes of the current sequence. -/
  payload : Payload
  /-- The bytes of the current graphics text or label. -/
  text : Array UInt8
  /-- A line feed that comes next belongs to the label before it. -/
  swallowLineFeed : Bool
deriving DecidableEq, Repr

namespace Parser

/-- The parser at the start of a stream. -/
def initial : Parser := ⟨.idle, Payload.empty, #[], false⟩

/-- A byte that ends a graphics or device sequence. -/
def isTerminator (b : UInt8) : Bool :=
  Byte.isUpper b || b == 0x40 || b == 0x5E || b == Byte.cr || b == Byte.lf

/-- A byte that ends a control sequence. -/
def isFinal (b : UInt8) : Bool := 0x40 ≤ b && b ≤ 0x7E

/-- Wait for a click. -/
def awaitClick (p : Parser) : Parser := { p with phase := .awaitClick }

/-- Stop waiting for a click. -/
def clickResolved (p : Parser) : Parser :=
  if p.phase = .awaitClick then { p with phase := .idle } else p

/-- Begin a sequence. -/
def beginEscape (p : Parser) : Parser :=
  { p with phase := .inEscape, payload := Payload.empty }

/-- Append a byte to the sequence. -/
def collect (p : Parser) (b : UInt8) : Parser :=
  { p with payload := p.payload.push b }

/-- Go to another phase. -/
def goto (p : Parser) (phase : Phase) : Parser := { p with phase := phase }

/-- Hand over the graphics text collected so far, if there is any. -/
def takeText (p : Parser) : Option Action × Parser :=
  if p.text.isEmpty then (none, p)
  else (some (.graphicsText (Text.ofBytes p.text.toList)), { p with text := #[] })

/-! ## Complete sequences -/

/-- The action of a complete graphics sequence. -/
def graphicsAction (group : Option GraphicsGroup) (payload : Payload) : Action :=
  match group with
  | none => .unrecognized payload.toList
  | some .display => .display (DisplayOp.decode payload).1
  | some .mode => .drawing (ModeOp.decode payload).1
  | some .plot => .plot (payload.seek 2)
  | some .text =>
    if payload.last? = some 0x58 then
      .textPen (Word.add ((payload.seek 2).readInt.1.getD (-1)) 1)
    else .inert payload.toList
  | some .status =>
    if payload.last? = some 0x5E then .status (payload.seek 2).readInt.1
    else .inert payload.toList
  | some _ => .inert payload.toList

/-- Whether an action switches to graphics text. -/
def entersGraphicsText : Action → Bool
  | .display ops => ops.contains .enterGraphicsText
  | _ => false

/-- Complete a graphics sequence. -/
def completeGraphics (p : Parser) (group : Option GraphicsGroup) : Action × Parser :=
  let action := graphicsAction group p.payload
  if entersGraphicsText action then
    (action, { p with phase := .graphicsText, text := #[] })
  else
    (action, p.goto .idle)

/-- The action of a complete device sequence that ends with the given byte. -/
def deviceAction (group : DeviceGroup) (payload : Payload) (final : UInt8) : Action :=
  match group with
  | .cursor => .cursorAddress (AddressTerm.decode payload).1
  | .enhancements =>
    (Enhancement.codesOfFinal? final).elim (.inert payload.toList) .enhance
  | .keyLabels => .keyLabels (.ofFinal final)
  | .keyboard => .keyboardLock (payload.byteAt 2 != 0x30)
  | .pageMode => .inert payload.toList
  | .plain => .enhance [0]
  | .other _ => .unrecognized payload.toList

/-! ## One byte -/

/-- A byte outside of sequences. -/
def advanceIdle (p : Parser) (b : UInt8) : Option Action × Parser :=
  if b = Byte.esc then (none, p.beginEscape)
  else if b = Byte.dc1 then (some .handshake, p)
  else if b = Byte.bel then (some .bell, p)
  else (some (.data b), p)

/-- The byte after an escape byte. -/
def advanceEscape (p : Parser) (b : UInt8) : Option Action × Parser :=
  let p := p.collect b
  match Byte.char b with
  | '[' => (none, p.goto .inBracket)
  | '*' => (none, p.goto (.inGraphics none))
  | '&' => (none, p.goto (.inDevice none))
  | ')' => (none, p.goto .inCharset)
  | _ =>
    (some ((SingleCommand.decode? b).elim (.unrecognized p.payload.toList) .single),
      p.goto .idle)

/-- A byte in a control sequence. -/
def advanceBracket (p : Parser) (b : UInt8) : Option Action × Parser :=
  let p := p.collect b
  if isFinal b then
    (some ((ControlSequence.decode? p.payload).1.elim
        (.unrecognized p.payload.toList) .control),
      p.goto .idle)
  else
    (none, p)

/-- Let the last byte of an interrupted sequence stand for its end. -/
def capitalizeLast (p : Parser) : Parser :=
  match p.payload.last? with
  | some last => { p with payload := p.payload.dropLast.push (Byte.upper last) }
  | none => p

/-- A byte in a graphics sequence. -/
def advanceGraphics (p : Parser) (group : Option GraphicsGroup) (b : UInt8) :
    Option Action × Parser :=
  if b = Byte.esc then
    let done := p.capitalizeLast.completeGraphics group
    (some done.1, done.2.beginEscape)
  else if group = none ∧ b = 0x6C then
    (none, { p with phase := .graphicsLabel, text := #[] })
  else
    let p := p.collect b
    let group := group.getD (.ofByte b)
    if isTerminator b then
      let done := p.completeGraphics (some group)
      (some done.1, done.2)
    else
      (none, p.goto (.inGraphics (some group)))

/-- A byte in a device sequence. -/
def advanceDevice (p : Parser) (group : Option DeviceGroup) (b : UInt8) :
    Option Action × Parser :=
  let p := p.collect b
  let group := group.getD (.ofByte b)
  if isTerminator b then (some (deviceAction group p.payload b), p.goto .idle)
  else (none, p.goto (.inDevice (some group)))

/-- The byte that designates a character set. -/
def advanceCharset (p : Parser) (b : UInt8) : Option Action × Parser :=
  (some (.charset (.ofDesignator b)), (p.collect b).goto .idle)

/-- A byte in graphics text. -/
def advanceText (p : Parser) (b : UInt8) : Option Action × Parser :=
  if b = Byte.esc then p.beginEscape.takeText
  else (none, { p with text := p.text.push b })

/-- A byte in a graphics label.  After a carriage return, a line feed belongs
to the label as well. -/
def advanceLabel (p : Parser) (b : UInt8) : Option Action × Parser :=
  if b = Byte.cr ∨ b = Byte.lf then
    takeText { p with phase := .idle, swallowLineFeed := b == Byte.cr }
  else
    (none, { p with text := p.text.push b })

/-- The action that a byte completes, and the parser after the byte. -/
def advance (p : Parser) (b : UInt8) : Option Action × Parser :=
  let swallowed := p.swallowLineFeed && b == Byte.lf
  let p := { p with swallowLineFeed := false }
  if swallowed then
    (none, p)
  else
    match p.phase with
    | .idle => p.advanceIdle b
    | .awaitClick => p.advanceIdle b
    | .inEscape => p.advanceEscape b
    | .inBracket => p.advanceBracket b
    | .inGraphics group => p.advanceGraphics group b
    | .inDevice group => p.advanceDevice group b
    | .inCharset => p.advanceCharset b
    | .graphicsText => p.advanceText b
    | .graphicsLabel => p.advanceLabel b

/-- The actions of a byte string, and the parser after it. -/
def feed (p : Parser) : List UInt8 → List Action × Parser
  | [] => ([], p)
  | b :: rest =>
    let first := p.advance b
    let more := first.2.feed rest
    (first.1.toList ++ more.1, more.2)

/-- The parser does not see how a byte string is cut into pieces. -/
theorem feed_append (p : Parser) (front back : List UInt8) :
    p.feed (front ++ back) =
      ((p.feed front).1 ++ ((p.feed front).2.feed back).1,
        ((p.feed front).2.feed back).2) := by
  induction front generalizing p with
  | nil => simp [feed]
  | cons b front ih => simp [feed, ih]

end Parser

end GraphicsTerminal
