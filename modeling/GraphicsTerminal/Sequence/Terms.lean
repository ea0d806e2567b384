import GraphicsTerminal.Number.Decimal

/-!
# Terms of a combined sequence

Several commands of one group can share a sequence.  Its body is then a list
of terms, each a few numbers and the letter that names the command.

Main definitions:

- {lit}`Term.split`: the terms of a body.
-/

namespace GraphicsTerminal

/-- A code letter with the numbers in front of it. -/
structure Term where
  /-- The letter, made small. -/
  letter : UInt8
  /-- At most four numbers. -/
  numbers : List Int
deriving DecidableEq, Repr

namespace Term

/-- The number at a position, if there are that many. -/
def number? (t : Term) (position : Nat) : Option Int := t.numbers[position]?

/-- The terms of a body, and the bytes that were not read.  A zero byte in the
place of a letter ends the body; numbers without a letter are dropped. -/
def split : List UInt8 → List Term × List UInt8
  | [] => ([], [])
  | b :: tail =>
    match _ : Decimal.readUpTo 4 (b :: tail) with
    | (_, []) => ([], [])
    | (numbers, letter :: rest) =>
      if Byte.lower letter = 0 then
        ([], rest)
      else
        let more := split rest
        (⟨Byte.lower letter, numbers⟩ :: more.1, more.2)
termination_by bytes => bytes.length
decreasing_by
  have hle := Decimal.readUpTo_rest_le 4 (b :: tail)
  rw [‹Decimal.readUpTo 4 (b :: tail) = _›] at hle
  simp only [List.length_cons] at hle ⊢
  omega

end Term

end GraphicsTerminal
