import GraphicsTerminal.Number.Word
import GraphicsTerminal.Text.Byte

/-!
# Decimal numbers

A number on the host line is written as spaces, an optional sign, decimal
digits, and an optional separator that belongs to it.  Reading takes it from
the front of a byte string and returns what follows; without a digit nothing
is read.  The value is the exact integer, clamped to a word.

Writing is the other side: the shortest decimal digits, or digits filled with
zeros to a width that counts the minus sign.

Main definitions:

- {lit}`Decimal.read?`: one number from the front of a byte string.
- {lit}`Decimal.readUpTo`: several numbers in a row.
- {lit}`Decimal.text`, {lit}`Decimal.padded`: the written forms.

Main results:

- Theorem {lit}`Decimal.read?_rest_lt`: reading a number consumes at least one
  byte.
- Theorem {lit}`Decimal.readUpTo_rest_le`: reading several never lengthens
  what follows.
-/

namespace GraphicsTerminal

namespace Decimal

/-! ## Reading -/

/-- One number read from the front of a byte string. -/
structure Reading where
  /-- The number, clamped to a word. -/
  value : Int
  /-- A separator followed the digits and was taken with them. -/
  separated : Bool
  /-- The bytes that follow the number. -/
  rest : List UInt8
deriving DecidableEq, Repr

/-- A byte that ends a number and belongs to it: space, comma or semicolon. -/
def isSeparator (b : UInt8) : Bool := b == 0x20 || b == 0x2C || b == 0x3B

/-- Split off a single sign; the flag says that it was a minus. -/
def takeSign : List UInt8 → Bool × List UInt8
  | 0x2D :: rest => (true, rest)
  | 0x2B :: rest => (false, rest)
  | rest => (false, rest)

/-- The value of a run of decimal digits. -/
def magnitude (digits : List UInt8) : Nat :=
  digits.foldl (fun value d => 10 * value + (d.toNat - 48)) 0

/-- Split off one separator; the flag says that there was one. -/
def takeSeparator : List UInt8 → Bool × List UInt8
  | [] => (false, [])
  | b :: rest => if isSeparator b then (true, rest) else (false, b :: rest)

/-- Read one number from the front: spaces, a sign, digits, a separator.
Without a digit nothing is read. -/
def read? (bytes : List UInt8) : Option Reading :=
  let signed := takeSign (bytes.dropWhile (· == Byte.space))
  let digits := signed.2.takeWhile Byte.isDigit
  let ended := takeSeparator (signed.2.dropWhile Byte.isDigit)
  if digits.isEmpty then
    none
  else
    let exact : Int := magnitude digits
    some
      { value := Word.saturate (if signed.1 then -exact else exact)
        separated := ended.1
        rest := ended.2 }

/-- Read numbers from the front until the limit is reached or none follows. -/
def readUpTo : Nat → List UInt8 → List Int × List UInt8
  | 0, bytes => ([], bytes)
  | limit + 1, bytes =>
    match read? bytes with
    | none => ([], bytes)
    | some r =>
      let more := readUpTo limit r.rest
      (r.value :: more.1, more.2)

/-- Dropping a run of bytes never lengthens a byte string. -/
theorem length_dropWhile_le (p : UInt8 → Bool) (bytes : List UInt8) :
    (bytes.dropWhile p).length ≤ bytes.length :=
  (List.dropWhile_sublist p).length_le

/-- Splitting off a sign never lengthens a byte string. -/
theorem length_takeSign_le (bytes : List UInt8) :
    (takeSign bytes).2.length ≤ bytes.length := by
  unfold takeSign
  split <;> simp

/-- Splitting off a separator never lengthens a byte string. -/
theorem length_takeSeparator_le (bytes : List UInt8) :
    (takeSeparator bytes).2.length ≤ bytes.length := by
  unfold takeSeparator
  split
  · simp
  · split <;> simp

/-- Reading a number consumes at least one byte. -/
theorem read?_rest_lt {bytes : List UInt8} {r : Reading} (h : read? bytes = some r) :
    r.rest.length < bytes.length := by
  unfold read? at h
  simp only [List.isEmpty_iff, Option.ite_none_left_eq_some, Option.some.injEq] at h
  obtain ⟨hdigits, rfl⟩ := h
  have hsign := length_takeSign_le (bytes.dropWhile (· == Byte.space))
  have hspace := length_dropWhile_le (· == Byte.space) bytes
  have hended :=
    length_takeSeparator_le
      ((takeSign (bytes.dropWhile (· == Byte.space))).2.dropWhile Byte.isDigit)
  have hsplit := congrArg List.length
    (List.takeWhile_append_dropWhile
      (p := Byte.isDigit) (l := (takeSign (bytes.dropWhile (· == Byte.space))).2))
  have hpos := List.length_pos_iff.2 hdigits
  simp only [List.length_append] at hsplit
  simp only
  omega

/-- Reading several numbers never lengthens what follows. -/
theorem readUpTo_rest_le (limit : Nat) (bytes : List UInt8) :
    (readUpTo limit bytes).2.length ≤ bytes.length := by
  induction limit generalizing bytes with
  | zero => simp [readUpTo]
  | succ limit ih =>
    unfold readUpTo
    split
    · simp
    · rename_i r hr
      exact Nat.le_trans (ih r.rest) (Nat.le_of_lt (read?_rest_lt hr))

/-! ## Writing -/

/-- The shortest decimal digits of a natural number. -/
def digits (n : Nat) : List Char := Nat.toDigits 10 n

/-- The shortest decimal form of an integer. -/
def text (v : Int) : String :=
  String.ofList ((if v < 0 then ['-'] else []) ++ digits v.natAbs)

/-- An integer filled with zeros to a width that counts the minus sign. -/
def padded (width : Nat) (v : Int) : String :=
  let sign := if v < 0 then ['-'] else []
  let body := digits v.natAbs
  String.ofList
    (sign ++ List.replicate (width - sign.length - body.length) '0' ++ body)

end Decimal

end GraphicsTerminal
