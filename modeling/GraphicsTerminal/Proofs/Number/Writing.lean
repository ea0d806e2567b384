import Mathlib.Data.Nat.ModEq
import GraphicsTerminal.Number.Packed
import GraphicsTerminal.Proofs.Number.Grammar

/-!
# Writing numbers

A number that was written is read back as it was, whatever follows it.  In decimal form
something else than a digit must follow, and a separator there is taken with the number;
in packed form the count of groups says where the number ends.

Main definitions:

- {lit}`Decimal.bytes`, {lit}`Decimal.paddedBytes`: a number in decimal form, as it is sent.
- {lit}`Packed.bytes`: a number in packed form; negative numbers are written as their
  remainders.

Main results:

- Theorems {lit}`Decimal.read?_bytes` and {lit}`Decimal.read?_paddedBytes`: a decimal number
  is read back, also with zeros in front.
- Theorem {lit}`Packed.read?_bytes`: a packed number is read back.
-/

namespace GraphicsTerminal

namespace Decimal

/-! ## Decimal form -/

/-- A number in decimal form, as it is sent. -/
def bytes (v : Int) : List UInt8 := Text.utf8 (text v)

/-- The digits of a natural number, as they are sent. -/
def digitBytes (n : Nat) : List UInt8 := (digits n).map Char.toUInt8

/-- Numbers are written in decimal digits. -/
theorem isDigit_of_mem_digits {n : Nat} {c : Char} (h : c ∈ digits n) : c.isDigit = true :=
  Nat.isDigit_of_mem_toDigits (by decide) (by decide) h

/-- A decimal digit has the code of its byte. -/
theorem toNat_of_isDigit {c : Char} (h : c.isDigit = true) :
    48 ≤ c.toNat ∧ c.toNat ≤ 57 ∧ c.toUInt8.toNat = c.toNat := by
  simp only [Char.isDigit, Bool.and_eq_true, decide_eq_true_eq] at h
  have hlow : 48 ≤ c.toNat := h.1
  have hhigh : c.toNat ≤ 57 := h.2
  have hbyte : c.toUInt8.toNat = c.toNat % 256 := UInt32.toNat_toUInt8 c.val
  omega

/-- A decimal digit is sent as one byte. -/
theorem utf8EncodeChar_of_isDigit {c : Char} (h : c.isDigit = true) :
    String.utf8EncodeChar c = [c.toUInt8] := by
  have hcode : c.val.toNat ≤ 127 := Nat.le_trans (toNat_of_isDigit h).2.1 (by decide)
  rw [String.utf8EncodeChar]
  exact if_pos hcode

/-- Decimal digits are sent as one byte each. -/
theorem flatMap_utf8EncodeChar {cs : List Char} (h : ∀ c ∈ cs, c.isDigit = true) :
    cs.flatMap String.utf8EncodeChar = cs.map Char.toUInt8 := by
  induction cs with
  | nil => rfl
  | cons c cs ih =>
    rw [List.flatMap_cons, utf8EncodeChar_of_isDigit (h c (.head cs)),
      ih fun d hd => h d (.tail c hd)]
    rfl

/-- A number is sent as a minus sign, if it needs one, and its digits. -/
theorem bytes_eq (v : Int) :
    bytes v = (if v < 0 then [0x2D] else []) ++ digitBytes v.natAbs := by
  have hdigits := flatMap_utf8EncodeChar fun c (hc : c ∈ digits v.natAbs) =>
    isDigit_of_mem_digits hc
  rw [bytes, Text.utf8, text, String.toList_ofList, List.flatMap_append, hdigits]
  split
  · rfl
  · rfl

/-- The bytes of a natural number are digits. -/
theorem isDigit_of_mem_digitBytes {n : Nat} {b : UInt8} (h : b ∈ digitBytes n) :
    Byte.isDigit b = true := by
  obtain ⟨c, hc, rfl⟩ := List.mem_map.1 h
  obtain ⟨hlow, hhigh, hbyte⟩ := toNat_of_isDigit (isDigit_of_mem_digits hc)
  have hfirst : 48 ≤ c.toUInt8.toNat := hbyte ▸ hlow
  have hlast : c.toUInt8.toNat ≤ 57 := hbyte ▸ hhigh
  simp only [Byte.isDigit, Bool.and_eq_true, decide_eq_true_eq]
  exact ⟨UInt8.le_iff_toNat_le.2 hfirst, UInt8.le_iff_toNat_le.2 hlast⟩

/-- A natural number has at least one digit, zero included. -/
theorem exists_digitBytes (n : Nat) :
    ∃ b more, digitBytes n = b :: more ∧ Byte.isDigit b = true := by
  have hne : digitBytes n ≠ [] := by
    rw [digitBytes, Ne, List.map_eq_nil_iff]
    exact Nat.toDigits_ne_nil
  obtain ⟨b, more, heq⟩ := List.exists_cons_of_ne_nil hne
  exact ⟨b, more, heq, isDigit_of_mem_digitBytes (heq ▸ List.mem_cons_self)⟩

/-- A decimal number is sent in digits and a minus sign. -/
theorem mem_bytes {v : Int} {b : UInt8} (h : b ∈ bytes v) : b = 0x2D ∨ Byte.isDigit b = true := by
  rw [bytes_eq] at h
  rcases List.mem_append.1 h with hsign | hdigit
  · split at hsign
    · exact Or.inl (List.mem_singleton.1 hsign)
    · cases hsign
  · exact Or.inr (isDigit_of_mem_digitBytes hdigit)

/-- A decimal number is at least one byte. -/
theorem bytes_ne_nil (v : Int) : bytes v ≠ [] := by
  obtain ⟨b, more, heq, -⟩ := exists_digitBytes v.natAbs
  rw [bytes_eq, heq]
  exact List.append_ne_nil_of_right_ne_nil _ (List.cons_ne_nil _ _)

/-- Digits that are read from some value on go on as the digits of a number do. -/
theorem foldl_digits {cs : List Char} (h : ∀ c ∈ cs, c.isDigit = true) (value : Nat) :
    (cs.map Char.toUInt8).foldl (fun value d => 10 * value + (d.toNat - 48)) value =
      Nat.ofDigitChars 10 cs value := by
  induction cs generalizing value with
  | nil => rfl
  | cons c cs ih =>
    rw [List.map_cons, List.foldl_cons, ih fun d hd => h d (.tail c hd),
      (toNat_of_isDigit (h c (.head cs))).2.2]
    rfl

/-- The digits of a natural number have its value. -/
theorem magnitude_digitBytes (n : Nat) : magnitude (digitBytes n) = n := by
  rw [magnitude, digitBytes, foldl_digits (fun c hc => isDigit_of_mem_digits hc), digits]
  exact Nat.ofDigitChars_toDigits (by decide) (by decide)

/-! ### Reading back -/

/-- A number that begins with a digit has no sign. -/
theorem takeSign_of_isDigit {b : UInt8} (h : Byte.isDigit b = true) (rest : List UInt8) :
    takeSign ((b :: rest).dropWhile (· == Byte.space)) = (false, b :: rest) := by
  have hends : (none : Option Sign) = none →
      ∀ c ∈ (b :: rest).head?, c ≠ Byte.space ∧ c ≠ 0x2B ∧ c ≠ 0x2D := by
    intro _ c hc
    obtain rfl : b = c := Option.some.inj hc
    exact ne_sign_of_isDigit h
  exact takeSign_of_sign hends

/-- The sign of a number is split off. -/
theorem takeSign_bytes (v : Int) (rest : List UInt8) :
    takeSign ((bytes v ++ rest).dropWhile (· == Byte.space)) =
      (decide (v < 0), digitBytes v.natAbs ++ rest) := by
  rw [bytes_eq]
  by_cases hneg : v < 0
  · rw [if_pos hneg, decide_eq_true hneg]
    rfl
  · rw [if_neg hneg, decide_eq_false hneg, List.nil_append]
    obtain ⟨b, more, heq, hdigit⟩ := exists_digitBytes v.natAbs
    rw [heq]
    exact takeSign_of_isDigit hdigit _

/-- A decimal number is read back, unless a digit follows it. -/
theorem read?_bytes (v : Int) {rest : List UInt8}
    (h : ∀ b, rest.head? = some b → Byte.isDigit b = false) :
    read? (bytes v ++ rest) =
      some ⟨Word.saturate v, (takeSeparator rest).1, (takeSeparator rest).2⟩ := by
  have hnonempty : (digitBytes v.natAbs).isEmpty = false := by
    obtain ⟨b, more, heq, -⟩ := exists_digitBytes v.natAbs
    rw [heq]
    rfl
  have hvalue : (if decide (v < 0) = true then -(v.natAbs : Int) else v.natAbs) = v := by
    split
    · rename_i hneg
      have := of_decide_eq_true hneg
      omega
    · rename_i hneg
      have := of_decide_eq_false (Bool.eq_false_iff.2 hneg)
      omega
  have hdigits : ∀ b ∈ digitBytes v.natAbs, Byte.isDigit b = true :=
    fun b hb => isDigit_of_mem_digitBytes hb
  obtain ⟨htake, hdrop⟩ := span_digits hdigits h
  simp only [read?, takeSign_bytes, htake, hdrop, magnitude_digitBytes, hnonempty, hvalue]
  rfl

/-! ### With zeros in front -/

/-- A natural number that is filled with zeros to a width, as it is sent. -/
def paddedBytes (width n : Nat) : List UInt8 :=
  List.replicate (width - (digitBytes n).length) 0x30 ++ digitBytes n

/-- A number that is filled with zeros is sent as zeros and its digits. -/
theorem utf8_padded (width n : Nat) : Text.utf8 (padded width n) = paddedBytes width n := by
  have hzeros (count : Nat) :
      (List.replicate count '0').flatMap String.utf8EncodeChar = List.replicate count 0x30 := by
    rw [flatMap_utf8EncodeChar fun c hc => by rw [List.eq_of_mem_replicate hc]; rfl,
      List.map_replicate]
    rfl
  have hdigits := flatMap_utf8EncodeChar fun c (hc : c ∈ digits n) => isDigit_of_mem_digits hc
  have hlength : (digitBytes n).length = (digits n).length := List.length_map _
  rw [Text.utf8, padded, String.toList_ofList, if_neg (Int.not_lt.2 (Int.natCast_nonneg n)),
    Int.natAbs_natCast, List.flatMap_append, List.flatMap_append, hzeros, hdigits, paddedBytes,
    hlength]
  rfl

/-- The zeros in front are digits. -/
theorem isDigit_of_mem_paddedBytes {width n : Nat} {b : UInt8} (h : b ∈ paddedBytes width n) :
    Byte.isDigit b = true := by
  rcases List.mem_append.1 h with hzero | hdigit
  · rw [List.eq_of_mem_replicate hzero]
    rfl
  · exact isDigit_of_mem_digitBytes hdigit

theorem exists_paddedBytes (width n : Nat) :
    ∃ b more, paddedBytes width n = b :: more ∧ Byte.isDigit b = true := by
  have hne : paddedBytes width n ≠ [] := by
    obtain ⟨b, more, heq, -⟩ := exists_digitBytes n
    rw [paddedBytes, heq]
    exact List.append_ne_nil_of_right_ne_nil _ (List.cons_ne_nil _ _)
  obtain ⟨b, more, heq⟩ := List.exists_cons_of_ne_nil hne
  exact ⟨b, more, heq, isDigit_of_mem_paddedBytes (heq ▸ List.mem_cons_self)⟩

/-- Zeros in front do not count. -/
theorem magnitude_paddedBytes (width n : Nat) : magnitude (paddedBytes width n) = n := by
  have hzeros (count : Nat) : magnitude (List.replicate count 0x30) = 0 := by
    induction count with
    | zero => rfl
    | succ count ih => exact ih
  rw [paddedBytes, magnitude, List.foldl_append, ← magnitude, hzeros, ← magnitude,
    magnitude_digitBytes]

/-- A number that is filled with zeros is read back, unless a digit follows it. -/
theorem read?_paddedBytes (width n : Nat) {rest : List UInt8}
    (h : ∀ b, rest.head? = some b → Byte.isDigit b = false) :
    read? (paddedBytes width n ++ rest) =
      some ⟨Word.saturate n, (takeSeparator rest).1, (takeSeparator rest).2⟩ := by
  obtain ⟨b, more, heq, hdigit⟩ := exists_paddedBytes width n
  have hsign : takeSign ((paddedBytes width n ++ rest).dropWhile (· == Byte.space)) =
      (false, paddedBytes width n ++ rest) := by
    rw [heq]
    exact takeSign_of_isDigit hdigit _
  have hnonempty : (paddedBytes width n).isEmpty = false := by
    rw [heq]
    rfl
  have hdigits : ∀ b ∈ paddedBytes width n, Byte.isDigit b = true :=
    fun b hb => isDigit_of_mem_paddedBytes hb
  obtain ⟨htake, hdrop⟩ := span_digits hdigits h
  simp only [read?, hsign, htake, hdrop, hnonempty, magnitude_paddedBytes]
  rfl

end Decimal

namespace Packed

/-! ## Packed form -/

/-- The lowest groups of a natural number, the most significant first. -/
def groups : Nat → Nat → List UInt8
  | 0, _ => []
  | count + 1, n => groups count (n / 32) ++ [UInt8.ofNat (32 + n % 32)]

/-- A number in packed form; a negative number is written as its remainder. -/
def bytes (count : Nat) (v : Int) : List UInt8 := groups count (v % 32 ^ count).toNat

/-- A packed number has as many groups as asked for. -/
theorem length_groups (count n : Nat) : (groups count n).length = count := by
  induction count generalizing n with
  | zero => rfl
  | succ count ih => rw [groups, List.length_append, ih, List.length_singleton]

/-- A packed number of at least one group is at least one byte. -/
theorem bytes_ne_nil (count : Nat) (v : Int) : bytes (count + 1) v ≠ [] := by
  refine List.length_pos_iff.1 ?_
  rw [bytes, length_groups]
  exact Nat.succ_pos count

/-- Five bits above the first printing code fit into a byte. -/
theorem toNat_group (n : Nat) : (UInt8.ofNat (32 + n % 32)).toNat = 32 + n % 32 := by
  rw [UInt8.toNat_ofNat_of_lt']
  exact Nat.lt_trans (Nat.add_lt_add_left (Nat.mod_lt n (by decide)) 32) (by decide)

/-- The bytes of a packed number are groups. -/
theorem isGroup_of_mem_groups {count n : Nat} {b : UInt8} (h : b ∈ groups count n) :
    isGroup b = true := by
  induction count generalizing n with
  | zero => cases h
  | succ count ih =>
    rcases List.mem_append.1 h with hfront | hlast
    · exact ih hfront
    · rw [List.mem_singleton.1 hlast]
      have hmod := Nat.mod_lt n (show 0 < 32 by decide)
      simp only [isGroup, Bool.and_eq_true, decide_eq_true_eq, UInt8.le_iff_toNat_le,
        toNat_group]
      exact ⟨Nat.le_add_right 32 _, Nat.add_le_add_left (Nat.le_of_lt_succ hmod) 32⟩

/-- The groups of a number have its value, as far as they go. -/
theorem value_groups (count n : Nat) : value (groups count n) = n % 32 ^ count := by
  induction count generalizing n with
  | zero => rw [Nat.pow_zero, Nat.mod_one]; rfl
  | succ count ih =>
    have hlast : value (groups (count + 1) n) =
        32 * value (groups count (n / 32)) + (32 + n % 32) % 32 := by
      rw [groups, value, List.foldl_append, ← value, List.foldl_cons, List.foldl_nil, toNat_group]
    rw [hlast, ih, Nat.pow_succ, Nat.mul_comm, Nat.mul_comm (32 ^ count), Nat.mod_mul]
    omega

/-- A packed number is read back. -/
theorem read?_bytes (count : Nat) (v : Int) (rest : List UInt8) :
    read? count (bytes count v ++ rest) = some ((v % 32 ^ count).toNat, rest) := by
  have hlength : (bytes count v).length = count := length_groups _ _
  have hall : (bytes count v).all isGroup = true :=
    List.all_eq_true.2 fun b hb => isGroup_of_mem_groups hb
  have hvalue : value (bytes count v) = (v % 32 ^ count).toNat := by
    rw [bytes, value_groups]
    refine Nat.mod_eq_of_lt ?_
    have hpos : (0 : Int) < 32 ^ count := Int.pow_pos (by decide)
    have hnonneg := Int.emod_nonneg v (Int.ne_of_gt hpos)
    have hless := Int.emod_lt_of_pos v hpos
    exact (Int.toNat_lt hnonneg).2 (by exact_mod_cast hless)
  simp only [read?, List.take_left' hlength, List.drop_left' hlength, hvalue]
  exact if_pos ⟨hlength, hall⟩

end Packed

end GraphicsTerminal
