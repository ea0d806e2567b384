import Mathlib.Data.List.Induction
import Mathlib.Data.Nat.Digits.Defs
import GraphicsTerminal.Number.Decimal
import GraphicsTerminal.Number.Packed

/-!
# Positional notation

The digits of a number arrive with the most significant one first, and a reader takes them one
at a time.  The value of packed groups is that of digits in base 32, and the value of decimal
digits is that in base 10.  A reader of decimal digits has no room for values of any size: it
stops at one above the greatest word, which is the least value that no word of either sign is
beyond.  Stopping there after every digit is as good as clamping the exact value at the end.

Main definitions:

- {lit}`Decimal.exact`: the value of decimal digits in base 10.
- {lit}`Decimal.accumulate`, {lit}`Decimal.scan`: digits taken one at a time, with a limit.
- {lit}`Decimal.scan?`: a number read in this way.

Main results:

- Theorem {lit}`Packed.value_eq_ofDigits`: packed groups are digits in base 32.
- Theorem {lit}`Decimal.foldl_accumulate`: a limit after every digit is one limit at the end.
- Theorem {lit}`Decimal.scan?_eq_read?`: the limit changes no number that is read.
-/

namespace GraphicsTerminal

/-- Digits that are taken from the front, in a base. -/
theorem foldl_eq_ofDigits (base : Nat) (digit : UInt8 → Nat) (bytes : List UInt8) :
    bytes.foldl (fun value b => base * value + digit b) 0 =
      Nat.ofDigits base (bytes.map digit).reverse := by
  induction bytes using List.reverseRecOn with
  | nil => rfl
  | append_singleton bytes b ih =>
    rw [List.foldl_append, List.foldl_cons, List.foldl_nil, ih, List.map_append,
      List.reverse_append, List.map_singleton, List.reverse_singleton, List.singleton_append,
      Nat.ofDigits_cons, Nat.add_comm]

/-- Packed groups are digits in base 32, which are their low five bits. -/
theorem Packed.value_eq_ofDigits (groups : List UInt8) :
    value groups = Nat.ofDigits 32 (groups.map fun b => (b &&& 0x1F).toNat).reverse := by
  have hlow (b : UInt8) : (b &&& 0x1F).toNat = b.toNat % 32 := by
    rw [UInt8.toNat_and]
    exact Nat.and_two_pow_sub_one_eq_mod b.toNat 5
  simp only [hlow]
  exact foldl_eq_ofDigits 32 (fun b => b.toNat % 32) groups

namespace Decimal

/-! ## One digit after another -/

/-- The value of a decimal digit. -/
def digitValue (d : UInt8) : Nat := d.toNat - 48

/-- The value of decimal digits. -/
def exact (digits : List UInt8) : Nat := Nat.ofDigits 10 (digits.map digitValue).reverse

theorem magnitude_eq_exact (digits : List UInt8) : magnitude digits = exact digits :=
  foldl_eq_ofDigits 10 digitValue digits

/-- One above the greatest word. -/
abbrev limit : Nat := 2147483648

/-- One more digit, as far as the limit allows. -/
def accumulate (value : Nat) (d : UInt8) : Nat := min (10 * value + digitValue d) limit

/-- Take the digits from the front one at a time: their value, how many there were, and what
follows them. -/
def scan (value count : Nat) : List UInt8 → Nat × Nat × List UInt8
  | [] => (value, count, [])
  | b :: rest =>
    if Byte.isDigit b then scan (accumulate value b) (count + 1) rest else (value, count, b :: rest)

/-- One number from the front, read with a limit. -/
def scan? (bytes : List UInt8) : Option Reading :=
  let signed := takeSign (bytes.dropWhile (· == Byte.space))
  let scanned := scan 0 0 signed.2
  let ended := takeSeparator scanned.2.2
  if scanned.2.1 = 0 then
    none
  else
    some
      { value := Word.saturate (if signed.1 then -(scanned.1 : Int) else scanned.1)
        separated := ended.1
        rest := ended.2 }

theorem scan_eq (value count : Nat) (bytes : List UInt8) :
    scan value count bytes = ((bytes.takeWhile Byte.isDigit).foldl accumulate value,
      count + (bytes.takeWhile Byte.isDigit).length, bytes.dropWhile Byte.isDigit) := by
  induction bytes generalizing value count with
  | nil => rfl
  | cons b rest ih =>
    rw [scan]
    by_cases hdigit : Byte.isDigit b = true
    · rw [if_pos hdigit, ih, List.takeWhile_cons_of_pos hdigit, List.dropWhile_cons_of_pos hdigit,
        List.foldl_cons, List.length_cons, Nat.add_assoc, Nat.add_comm 1]
    · rw [if_neg hdigit, List.takeWhile_cons_of_neg hdigit, List.dropWhile_cons_of_neg hdigit]
      rfl

/-! ## The limit -/

/-- A value that has reached the limit stays there. -/
theorem accumulate_min (value : Nat) (d : UInt8) :
    accumulate (min value limit) d = min (10 * value + digitValue d) limit := by
  rw [accumulate]
  omega

/-- A limit after every digit is one limit at the end. -/
theorem foldl_accumulate (digits : List UInt8) :
    digits.foldl accumulate 0 = min (exact digits) limit := by
  -- From any value on, what is beyond the limit at the start is beyond it at the end.
  have hfrom (value : Nat) : digits.foldl accumulate (min value limit) =
      min (digits.foldl (fun value d => 10 * value + digitValue d) value) limit := by
    induction digits generalizing value with
    | nil => rfl
    | cons d digits ih => rw [List.foldl_cons, List.foldl_cons, accumulate_min, ih]
  rw [← magnitude_eq_exact]
  exact hfrom 0

/-- Of either sign, no word is beyond the limit. -/
theorem saturate_min (negative : Bool) (value : Nat) :
    Word.saturate (if negative then -((min value limit : Nat) : Int) else (min value limit : Nat)) =
      Word.saturate (if negative then -(value : Int) else value) := by
  simp only [Word.saturate, Word.clamp, Word.least, Word.greatest, limit]
  cases negative with
  | false =>
    simp only [Bool.false_eq_true, ↓reduceIte]
    omega
  | true =>
    simp only [↓reduceIte]
    omega

/-- The limit changes no number that is read. -/
theorem scan?_eq_read? (bytes : List UInt8) : scan? bytes = read? bytes := by
  unfold scan? read?
  simp only [scan_eq, foldl_accumulate, saturate_min, Nat.zero_add, List.length_eq_zero_iff,
    List.isEmpty_iff, magnitude_eq_exact]

end Decimal

end GraphicsTerminal
