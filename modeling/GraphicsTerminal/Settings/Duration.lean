import GraphicsTerminal.Number.Decimal

/-!
# Durations

Durations are whole numbers of nanoseconds.  As text, a duration is written in
the largest unit that does not exceed it, with as many decimal places as it
needs.
-/

namespace GraphicsTerminal

namespace Duration

/-- Nanoseconds in a second. -/
abbrev second : Nat := 1000000000

/-- Nanoseconds in a millisecond. -/
abbrev millisecond : Nat := 1000000

/-- Nanoseconds in a microsecond. -/
abbrev microsecond : Nat := 1000

/-- The decimal places of a part of a unit, without zeros at the end. -/
def places (count part : Nat) : List Char :=
  let digits := Decimal.digits part
  let filled := List.replicate (count - digits.length) '0' ++ digits
  (filled.reverse.dropWhile (· == '0')).reverse

/-- A duration in a unit that has {lit}`10 ^ count` nanoseconds. -/
def inUnit (count nanoseconds : Nat) (name : String) : String :=
  let size := Nat.pow 10 count
  let decimals := places count (nanoseconds % size)
  Decimal.text (nanoseconds / size : Nat) ++
    (if decimals.isEmpty then "" else "." ++ String.ofList decimals) ++ name

/-- A duration as text. -/
def text (nanoseconds : Nat) : String :=
  if second ≤ nanoseconds then inUnit 9 nanoseconds "s"
  else if millisecond ≤ nanoseconds then inUnit 6 nanoseconds "ms"
  else if microsecond ≤ nanoseconds then inUnit 3 nanoseconds "µs"
  else inUnit 0 nanoseconds "ns"

end Duration

end GraphicsTerminal
