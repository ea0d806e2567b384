/-!
# Packed binary numbers

A packed number is a fixed count of bytes in 0x20 to 0x3F.  Each carries five
bits, the most significant group first, so one byte holds 0 to 31, two hold 0
to 1023 and three hold 0 to 32767.

Main definitions:

- {lit}`Packed.read?`: a packed number from the front of a byte string.
-/

namespace GraphicsTerminal

namespace Packed

/-- The lowest byte that carries a group. -/
abbrev lowest : UInt8 := 0x20

/-- The highest byte that carries a group. -/
abbrev highest : UInt8 := 0x3F

/-- A byte that carries a group of five bits. -/
def isGroup (b : UInt8) : Bool := lowest ≤ b && b ≤ highest

/-- The value of groups as base-32 digits, the most significant first. -/
def value (groups : List UInt8) : Nat :=
  groups.foldl (fun acc b => 32 * acc + b.toNat % 32) 0

/-- Read a number of {lit}`count` groups from the front. -/
def read? (count : Nat) (bytes : List UInt8) : Option (Nat × List UInt8) :=
  let groups := bytes.take count
  if groups.length = count ∧ groups.all isGroup then
    some (value groups, bytes.drop count)
  else
    none

/-- Reading a packed number consumes exactly its groups. -/
theorem read?_rest_length {count n : Nat} {bytes rest : List UInt8}
    (h : read? count bytes = some (n, rest)) :
    rest.length + count = bytes.length := by
  unfold read? at h
  simp only [Option.ite_none_right_eq_some, Option.some.injEq, Prod.mk.injEq] at h
  obtain ⟨⟨hcount, -⟩, -, rfl⟩ := h
  simp only [List.length_take, List.length_drop] at *
  omega

end Packed

end GraphicsTerminal
