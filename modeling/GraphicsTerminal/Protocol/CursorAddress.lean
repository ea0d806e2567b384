import GraphicsTerminal.Sequence.Payload

/-!
# Cursor addresses

A cursor address is a list of terms.  Each gives one coordinate, by its value
or, when the term begins with a sign, by a distance from the cursor.

Main definitions:

- {lit}`AddressTerm.split`: the address terms of a body.
- {lit}`AddressTerm.decode`: the address terms of a payload.
-/

namespace GraphicsTerminal

/-- The coordinate that a term gives. -/
inductive AddressAxis where
  /-- A row counted from the top of memory. -/
  | memoryRow
  /-- A row counted from the top of the view. -/
  | screenRow
  | column
deriving DecidableEq, Repr

/-- The coordinate that a code letter names. -/
def AddressAxis.ofLetter? (letter : UInt8) : Option AddressAxis :=
  match Byte.char letter with
  | 'r' => some memoryRow
  | 'y' => some screenRow
  | 'c' => some column
  | _ => none

/-- One term of a cursor address. -/
structure AddressTerm where
  axis : AddressAxis
  value : Int
  /-- The value is a distance from the cursor. -/
  relative : Bool
deriving DecidableEq, Repr

namespace AddressTerm

/-- The number at the front of a term, if there is one, and what follows. -/
def readValue (bytes : List UInt8) : Option Int × List UInt8 :=
  match Decimal.read? bytes with
  | some r => (some r.value, r.rest)
  | none => (none, bytes)

/-- Reading a value never lengthens what follows. -/
theorem readValue_rest_le (bytes : List UInt8) :
    (readValue bytes).2.length ≤ bytes.length := by
  unfold readValue
  split
  · rename_i r hr
    exact Nat.le_of_lt (Decimal.read?_rest_lt hr)
  · exact Nat.le_refl _

/-- The address terms of a body, and the bytes that were not read.  A zero
byte in the place of a letter ends the body; a letter that names no coordinate
and a coordinate without a value are passed over. -/
def split : List UInt8 → List AddressTerm × List UInt8
  | [] => ([], [])
  | b :: tail =>
    let relative := b == 0x2B || b == 0x2D
    match _ : readValue (b :: tail) with
    | (_, []) => ([], [])
    | (value, letter :: rest) =>
      if Byte.lower letter = 0 then
        ([], rest)
      else
        let more := split rest
        match AddressAxis.ofLetter? (Byte.lower letter), value with
        | some axis, some value => (⟨axis, value, relative⟩ :: more.1, more.2)
        | _, _ => more
termination_by bytes => bytes.length
decreasing_by
  have hle := readValue_rest_le (b :: tail)
  rw [‹readValue (b :: tail) = _›] at hle
  simp only [List.length_cons] at hle ⊢
  omega

/-- The address terms of a payload whose body begins after its group letter. -/
def decode (p : Payload) : List AddressTerm × Payload :=
  let p := p.seek 2
  let terms := split p.rest
  (terms.1, p.resume terms.2)

end AddressTerm

end GraphicsTerminal
