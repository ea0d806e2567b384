import GraphicsTerminal.Number.Decimal
import GraphicsTerminal.Number.Packed

/-!
# The payload of one escape sequence

A payload holds the bytes that followed one escape byte, together with a
reading position.  Bytes are appended while the sequence is incomplete; the
decoders then read numbers and code letters from the position onward.  Reading
never changes the bytes, and a reader that finds nothing leaves the position
where it was.

Main definitions:

- {lit}`Payload.rest`: the bytes from the reading position onward.
- {lit}`Payload.resume`: move the position so that the given bytes remain.
- {lit}`Payload.readInt`, {lit}`Payload.readPacked`,
  {lit}`Payload.readNumbers`: typed readers, each a reader of byte strings
  applied to {lit}`Payload.rest`.
-/

namespace GraphicsTerminal

/-- The bytes of one escape sequence and a reading position among them. -/
structure Payload where
  /-- The bytes after the escape byte, in order of arrival. -/
  bytes : Array UInt8
  /-- The position of the next byte to read. -/
  index : Nat
deriving DecidableEq, Repr

namespace Payload

/-! ## Collecting bytes -/

/-- No bytes yet. -/
def empty : Payload := ⟨#[], 0⟩

/-- The given bytes, to be read from the first. -/
def ofList (bytes : List UInt8) : Payload := ⟨bytes.toArray, 0⟩

/-- Append one byte. -/
def push (p : Payload) (b : UInt8) : Payload :=
  { p with bytes := p.bytes.push b }

/-- Remove the byte that arrived last; the position stays within the bytes. -/
def dropLast (p : Payload) : Payload :=
  { bytes := p.bytes.pop, index := min p.index p.bytes.pop.size }

/-- The bytes as a list. -/
def toList (p : Payload) : List UInt8 := p.bytes.toList

/-- The number of bytes. -/
def size (p : Payload) : Nat := p.bytes.size

/-- Whether no byte was collected. -/
def isEmpty (p : Payload) : Bool := p.bytes.isEmpty

/-- The byte that arrived last. -/
def last? (p : Payload) : Option UInt8 := p.bytes.back?

/-- The byte at a position; zero outside. -/
def byteAt (p : Payload) (position : Nat) : UInt8 := p.bytes[position]?.getD 0

/-! ## The reading position -/

/-- Move the position to a collected byte; any other position is refused. -/
def seek (p : Payload) (position : Nat) : Payload :=
  if position < p.bytes.size then { p with index := position } else p

/-- Move the position forward unless that would pass the end. -/
def advance (p : Payload) (count : Nat) : Payload :=
  if p.index + count ≤ p.bytes.size then { p with index := p.index + count } else p

/-- Whether a byte is left to read. -/
def hasMore (p : Payload) : Bool := p.index < p.bytes.size

/-- The bytes from the reading position onward. -/
def rest (p : Payload) : List UInt8 := p.bytes.toList.drop p.index

/-- Move the position so that as many bytes remain as are given. -/
def resume (p : Payload) (remaining : List UInt8) : Payload :=
  { p with index := p.bytes.size - remaining.length }

/-! ## Reading -/

/-- The byte at the reading position; zero at the end. -/
def peek (p : Payload) : UInt8 := p.byteAt p.index

/-- Take one byte; zero at the end. -/
def next (p : Payload) : UInt8 × Payload :=
  match p.bytes[p.index]? with
  | some b => (b, { p with index := p.index + 1 })
  | none => (0, p)

/-- Read a signed decimal number. -/
def readInt (p : Payload) : Option Int × Payload :=
  match Decimal.read? p.rest with
  | some r => (some r.value, p.resume r.rest)
  | none => (none, p)

/-- Read a packed number of the given count of groups. -/
def readPacked (p : Payload) (count : Nat) : Option Nat × Payload :=
  match Packed.read? count p.rest with
  | some (n, remaining) => (some n, p.resume remaining)
  | none => (none, p)

/-- The most numbers that may precede one code letter. -/
abbrev mostNumbers : Nat := 4

/-- Read the numbers in front of a code letter, at most four. -/
def readNumbers (p : Payload) (limit : Nat) : List Int × Payload :=
  let numbers := Decimal.readUpTo (min limit mostNumbers) p.rest
  (numbers.1, if numbers.1.isEmpty then p else p.resume numbers.2)

end Payload

end GraphicsTerminal
