import Mathlib.Data.List.TakeWhile
import GraphicsTerminal.Proofs.Number.Reading

/-!
# The grammar of decimal numbers

A number on the host line is written as spaces, perhaps a sign, digits, and perhaps a
separator.  Reading takes exactly such a number from the front, and the longest one: without
a separator, neither a digit nor a separator follows.

Main definitions:

- {lit}`Decimal.Written`: a number as it is written.
- {lit}`Decimal.Written.EndsBefore`: the number ends where these bytes begin.
- {lit}`Decimal.Spares`: a change of bytes that no number uses.

Main results:

- Theorem {lit}`Decimal.read?_written`: a written number is read back.
- Theorem {lit}`Decimal.exists_written`: whatever is read was written.
- Theorem {lit}`Decimal.read?_map`: bytes that no number uses can be changed.
-/

namespace GraphicsTerminal

namespace Decimal

/-! ## Numbers as they are written -/

/-- The sign of a number. -/
inductive Sign where
  | plus
  | minus
deriving DecidableEq, Repr

/-- The byte of a sign. -/
def Sign.byte : Sign → UInt8
  | plus => 0x2B
  | minus => 0x2D

/-- A number as it is written. -/
structure Written where
  /-- The number of spaces in front. -/
  spaces : Nat
  sign : Option Sign
  digits : List UInt8
  /-- The byte that ends the number and belongs to it. -/
  separator : Option UInt8
  digits_ne_nil : digits ≠ []
  isDigit_of_mem : ∀ b ∈ digits, Byte.isDigit b = true
  isSeparator_of_mem : ∀ b ∈ separator, isSeparator b = true

namespace Written

/-- The bytes of a number behind its spaces. -/
def core (w : Written) : List UInt8 :=
  (w.sign.map Sign.byte).toList ++ (w.digits ++ w.separator.toList)

/-- The bytes of a number. -/
def bytes (w : Written) : List UInt8 := List.replicate w.spaces Byte.space ++ w.core

/-- The value of a number, clamped to a word. -/
def value (w : Written) : Int :=
  Word.saturate (if w.sign = some .minus then -(magnitude w.digits : Int) else magnitude w.digits)

/-- The number ends where the given bytes begin: they do not go on with it. -/
def EndsBefore (w : Written) (rest : List UInt8) : Prop :=
  w.separator = none → ∀ b ∈ rest.head?, Byte.isDigit b = false ∧ isSeparator b = false

/-- The number with more spaces in front. -/
def pad (w : Written) (count : Nat) : Written := { w with spaces := count + w.spaces }

/-- The first byte of a number is its sign. -/
def beginsWithSign (w : Written) : Bool := w.spaces == 0 && w.sign.isSome

variable {w : Written} {rest : List UInt8} {b : UInt8}

/-- More spaces stand in front of the number. -/
theorem bytes_pad (w : Written) (count : Nat) :
    (w.pad count).bytes = List.replicate count Byte.space ++ w.bytes := by
  rw [bytes, bytes, ← List.append_assoc, List.replicate_append_replicate]
  rfl

/-- Spaces do not change the value. -/
theorem value_pad (w : Written) (count : Nat) : (w.pad count).value = w.value := rfl

/-- Behind a space the sign is no longer the first byte. -/
theorem beginsWithSign_pad (w : Written) (count : Nat) :
    (w.pad count).beginsWithSign = (w.beginsWithSign && count == 0) := by
  cases count <;> simp [beginsWithSign, pad]

/-- A number has at least one digit. -/
theorem bytes_ne_nil (w : Written) : w.bytes ≠ [] := by
  simp [bytes, core, w.digits_ne_nil]

/-- What follows matters only by its first byte. -/
theorem EndsBefore.congr {letter : UInt8} {tail tail' : List UInt8}
    (h : w.EndsBefore (letter :: tail)) : w.EndsBefore (letter :: tail') := h

end Written

/-! ## The bytes of a number -/

/-- A sign, a digit and a separator are parts of numbers. -/
theorem not_stops_of_mem_core {w : Written} {b : UInt8} (h : b ∈ w.core) : ¬ Stops b := by
  intro hstops
  simp only [Written.core, List.mem_append, Option.mem_toList, Option.map_eq_some_iff] at h
  rcases h with ⟨sign, -, rfl⟩ | hdigit | hseparator
  · cases sign
    · exact hstops.plus rfl
    · exact hstops.minus rfl
  · have := w.isDigit_of_mem b hdigit
    rw [hstops.digit] at this
    cases this
  · have := w.isSeparator_of_mem b hseparator
    rw [hstops.separator] at this
    cases this

/-- A byte that is no part of any number is no part of this one. -/
theorem not_stops_of_mem_bytes {w : Written} {b : UInt8} (h : b ∈ w.bytes) : ¬ Stops b := by
  rcases List.mem_append.1 h with hspace | hcore
  · rw [List.eq_of_mem_replicate hspace]
    intro hstops
    cases hstops.space
  · exact not_stops_of_mem_core hcore

theorem stops_zero : Stops 0 := ⟨rfl, by decide, by decide, rfl, rfl⟩

/-- The end sentinel of a body is no byte of a number. -/
theorem zero_not_mem_bytes (w : Written) : 0 ∉ w.bytes := fun h =>
  not_stops_of_mem_bytes h stops_zero

/-! ## Reading what was written -/

/-- No byte below the digits is one. -/
theorem ne_of_isDigit {b c : UInt8} (h : Byte.isDigit b = true) (hc : c.toNat < 0x30) :
    b ≠ c := by
  simp only [Byte.isDigit, Bool.and_eq_true, decide_eq_true_eq, UInt8.le_iff_toNat_le,
    UInt8.reduceToNat] at h
  rintro rfl
  omega

/-- The first byte of a number tells whether it begins with a sign. -/
theorem Written.exists_cons_bytes (w : Written) :
    ∃ b tail, w.bytes = b :: tail ∧ (b == 0x2B || b == 0x2D) = w.beginsWithSign := by
  obtain ⟨first, more, hfirst⟩ := List.exists_cons_of_ne_nil w.digits_ne_nil
  have hdigit := w.isDigit_of_mem first (by rw [hfirst]; exact List.mem_cons_self)
  have hplus := ne_of_isDigit (c := 0x2B) hdigit (by decide)
  have hminus := ne_of_isDigit (c := 0x2D) hdigit (by decide)
  cases hspaces : w.spaces with
  | succ count =>
    exact ⟨Byte.space, List.replicate count Byte.space ++ w.core,
      by rw [bytes, hspaces]; rfl, by rw [beginsWithSign, hspaces]; rfl⟩
  | zero =>
    cases hsign : w.sign with
    | none =>
      refine ⟨first, more ++ w.separator.toList, ?_, ?_⟩
      · simp [bytes, core, hspaces, hsign, hfirst]
      · simp [beginsWithSign, hsign, hplus, hminus]
    | some sign =>
      refine ⟨sign.byte, w.digits ++ w.separator.toList, ?_, ?_⟩
      · simp [bytes, core, hspaces, hsign]
      · cases sign <;> simp [beginsWithSign, hspaces, hsign, Sign.byte]

/-- A sign ends the spaces and is taken; without one, what follows ends them, unless it is a
space or a sign. -/
theorem takeSign_of_sign {sign : Option Sign} {number : List UInt8}
    (hends : sign = none → ∀ b ∈ number.head?, b ≠ Byte.space ∧ b ≠ 0x2B ∧ b ≠ 0x2D) :
    takeSign (((sign.map Sign.byte).toList ++ number).dropWhile (· == Byte.space)) =
      (decide (sign = some .minus), number) := by
  cases sign with
  | some sign => cases sign <;> rfl
  | none =>
    cases number with
    | nil => rfl
    | cons b rest =>
      obtain ⟨hspace, hplus, hminus⟩ := hends rfl b rfl
      simp [hspace, takeSign, hplus, hminus]

/-- A digit is no space and no sign. -/
theorem ne_sign_of_isDigit {b : UInt8} (h : Byte.isDigit b = true) :
    b ≠ Byte.space ∧ b ≠ 0x2B ∧ b ≠ 0x2D :=
  ⟨ne_of_isDigit h (by decide), ne_of_isDigit h (by decide), ne_of_isDigit h (by decide)⟩

/-- The sign of a number is split off. -/
theorem takeSign_core (w : Written) (rest : List UInt8) :
    takeSign ((w.core ++ rest).dropWhile (· == Byte.space)) =
      (decide (w.sign = some .minus), w.digits ++ (w.separator.toList ++ rest)) := by
  obtain ⟨first, more, hfirst⟩ := List.exists_cons_of_ne_nil w.digits_ne_nil
  have hdigit := w.isDigit_of_mem first (by rw [hfirst]; exact List.mem_cons_self)
  rw [Written.core, List.append_assoc, List.append_assoc]
  apply takeSign_of_sign
  intro _ b hb
  rw [hfirst] at hb
  obtain rfl : first = b := Option.some.inj hb
  exact ne_sign_of_isDigit hdigit

/-- A separator is no digit. -/
theorem not_isDigit_of_isSeparator {b : UInt8} (h : isSeparator b = true) :
    Byte.isDigit b = false := by
  simp only [isSeparator, Bool.or_eq_true, beq_iff_eq] at h
  rcases h with (rfl | rfl) | rfl <;> rfl

/-- What follows the digits does not begin with one. -/
theorem Written.EndsBefore.not_isDigit {w : Written} {rest : List UInt8} (h : w.EndsBefore rest) :
    ∀ b ∈ (w.separator.toList ++ rest).head?, Byte.isDigit b = false := by
  intro b hb
  cases hseparator : w.separator with
  | none =>
    rw [hseparator] at hb
    exact (h hseparator b hb).1
  | some c =>
    rw [hseparator] at hb
    obtain rfl : c = b := Option.some.inj hb
    exact not_isDigit_of_isSeparator (w.isSeparator_of_mem c hseparator)

/-- The digits end where no digit follows. -/
theorem span_digits {digits rest : List UInt8} (hdigits : ∀ b ∈ digits, Byte.isDigit b = true)
    (hrest : ∀ b ∈ rest.head?, Byte.isDigit b = false) :
    (digits ++ rest).takeWhile Byte.isDigit = digits ∧
      (digits ++ rest).dropWhile Byte.isDigit = rest := by
  rw [List.takeWhile_append_of_pos hdigits, List.dropWhile_append_of_pos hdigits]
  cases rest with
  | nil => simp
  | cons b rest => simp [hrest b rfl]

/-- A separator is taken; without one, none follows. -/
theorem takeSeparator_of_separator {separator : Option UInt8} {rest : List UInt8}
    (hseparator : ∀ b ∈ separator, isSeparator b = true)
    (hends : separator = none → ∀ b ∈ rest.head?, isSeparator b = false) :
    takeSeparator (separator.toList ++ rest) = (separator.isSome, rest) := by
  cases separator with
  | none =>
    cases rest with
    | nil => rfl
    | cons b rest => simp [takeSeparator, hends rfl b rfl]
  | some c => simp [takeSeparator, hseparator c rfl]

/-- All spaces in front are dropped. -/
theorem dropWhile_replicate_space (count : Nat) (rest : List UInt8) :
    (List.replicate count Byte.space ++ rest).dropWhile (· == Byte.space) =
      rest.dropWhile (· == Byte.space) :=
  List.dropWhile_append_of_pos fun b hb => by
    rw [List.eq_of_mem_replicate hb, beq_self_eq_true]

/-- A written number is read back. -/
theorem read?_written {w : Written} {rest : List UInt8} (h : w.EndsBefore rest) :
    read? (w.bytes ++ rest) = some ⟨w.value, w.separator.isSome, rest⟩ := by
  obtain ⟨htake, hdrop⟩ := span_digits w.isDigit_of_mem h.not_isDigit
  have hnonempty : w.digits.isEmpty = false := by simp [w.digits_ne_nil]
  have hseparator : takeSeparator (w.separator.toList ++ rest) = (w.separator.isSome, rest) :=
    takeSeparator_of_separator w.isSeparator_of_mem fun hnone b hb => (h hnone b hb).2
  rw [Written.bytes, List.append_assoc, read?]
  simp only [dropWhile_replicate_space, takeSign_core, htake, hdrop, hseparator, hnonempty,
    Written.value, decide_eq_true_eq, Bool.false_eq_true, ↓reduceIte]

/-! ## Where no number begins -/

/-- No number begins where no digit stands behind the spaces and the sign. -/
theorem read?_eq_none_iff (bytes : List UInt8) :
    read? bytes = none ↔
      ∀ b ∈ (takeSign (bytes.dropWhile (· == Byte.space))).2.head?, Byte.isDigit b = false := by
  have hdigits : read? bytes = none ↔
      (takeSign (bytes.dropWhile (· == Byte.space))).2.takeWhile Byte.isDigit = [] := by
    simp [read?]
  rw [hdigits]
  cases (takeSign (bytes.dropWhile (· == Byte.space))).2 with
  | nil => simp
  | cons b rest => cases hb : Byte.isDigit b <;> simp [hb]

/-- Where a number begins is seen from the first byte, and from where the next one begins. -/
theorem read?_cons_eq_none {b : UInt8} {tail tail' : List UInt8}
    (htail : read? tail = none → read? tail' = none)
    (hdigit : ∀ c ∈ tail'.head?, Byte.isDigit c = true → c ∈ tail.head?)
    (h : read? (b :: tail) = none) : read? (b :: tail') = none := by
  by_cases hspace : b = Byte.space
  · subst hspace
    exact htail h
  have hstands (rest : List UInt8) :
      (b :: rest).dropWhile (· == Byte.space) = b :: rest := by
    rw [List.dropWhile_cons, if_neg (by simpa using hspace)]
  rw [read?_eq_none_iff, hstands] at h ⊢
  by_cases hsign : b = 0x2D ∨ b = 0x2B
  · have hsigned (rest : List UInt8) : (takeSign (b :: rest)).2 = rest := by
      rcases hsign with rfl | rfl <;> rfl
    rw [hsigned] at h ⊢
    intro c hc
    by_contra hdigits
    rw [h c (hdigit c hc (by simpa using hdigits))] at hdigits
    exact hdigits rfl
  · have hunsigned (rest : List UInt8) : (takeSign (b :: rest)).2 = b :: rest := by
      rw [not_or] at hsign
      simp [takeSign, hsign.1, hsign.2]
    rw [hunsigned] at h ⊢
    exact h

/-! ## What was read -/

/-- What was taken as a sign is one. -/
theorem exists_sign (bytes : List UInt8) :
    ∃ sign : Option Sign, bytes = (sign.map Sign.byte).toList ++ (takeSign bytes).2 ∧
      (takeSign bytes).1 = decide (sign = some .minus) := by
  unfold takeSign
  split
  · exact ⟨some .minus, rfl, rfl⟩
  · exact ⟨some .plus, rfl, rfl⟩
  · exact ⟨none, rfl, rfl⟩

/-- What was taken as a separator is one, and if nothing was taken, none stood there. -/
theorem exists_separator (bytes : List UInt8) :
    ∃ separator : Option UInt8, bytes = separator.toList ++ (takeSeparator bytes).2 ∧
      (takeSeparator bytes).1 = separator.isSome ∧
      (∀ b ∈ separator, isSeparator b = true) ∧
      (separator = none → ∀ b ∈ (takeSeparator bytes).2.head?, isSeparator b = false) := by
  cases bytes with
  | nil => exact ⟨none, rfl, rfl, by simp, by simp [takeSeparator]⟩
  | cons b rest =>
    by_cases hb : isSeparator b = true
    · exact ⟨some b, by simp [takeSeparator, hb]⟩
    · exact ⟨none, by simp [takeSeparator, hb]⟩

/-- Whatever is read was written. -/
theorem exists_written {bytes : List UInt8} {r : Reading} (h : read? bytes = some r) :
    ∃ w : Written, bytes = w.bytes ++ r.rest ∧ w.EndsBefore r.rest ∧
      r = ⟨w.value, w.separator.isSome, r.rest⟩ := by
  unfold read? at h
  simp only [List.isEmpty_iff, Option.ite_none_left_eq_some, Option.some.injEq] at h
  obtain ⟨hdigits, rfl⟩ := h
  obtain ⟨sign, hsign, hminus⟩ := exists_sign (bytes.dropWhile (· == Byte.space))
  generalize htail : takeSign (bytes.dropWhile (· == Byte.space)) = signed at *
  obtain ⟨separator, hseparator, hended, hmem, hends⟩ :=
    exists_separator (signed.2.dropWhile Byte.isDigit)
  generalize hrest : takeSeparator (signed.2.dropWhile Byte.isDigit) = ended at *
  have hspaces : bytes.takeWhile (· == Byte.space) =
      List.replicate (bytes.takeWhile (· == Byte.space)).length Byte.space := by
    refine List.eq_replicate_of_mem fun b hb => ?_
    exact beq_iff_eq.1 (List.mem_takeWhile_imp (p := (· == Byte.space)) hb)
  refine ⟨⟨(bytes.takeWhile (· == Byte.space)).length, sign, signed.2.takeWhile Byte.isDigit,
    separator, hdigits, fun b hb => List.mem_takeWhile_imp hb, hmem⟩, ?_, ?_, ?_⟩
  · calc
      bytes = bytes.takeWhile (· == Byte.space) ++ bytes.dropWhile (· == Byte.space) :=
        List.takeWhile_append_dropWhile.symm
      _ = List.replicate (bytes.takeWhile (· == Byte.space)).length Byte.space ++
          ((sign.map Sign.byte).toList ++
            (signed.2.takeWhile Byte.isDigit ++ (separator.toList ++ ended.2))) := by
        rw [← hspaces, ← hseparator, List.takeWhile_append_dropWhile (p := Byte.isDigit), ← hsign]
      _ = _ := by simp [Written.bytes, Written.core]
  · intro hnone b hb
    refine ⟨?_, hends hnone b hb⟩
    obtain rfl : separator = none := hnone
    have hhead : ended.2.head? = some b := hb
    have hdropped := List.head?_dropWhile_not Byte.isDigit signed.2
    rw [hseparator] at hdropped
    simpa [hhead] using hdropped
  · simp only [Written.value, hminus, hended, decide_eq_true_eq]

/-! ## Bytes that no number uses -/

/-- The bytes that are changed are no part of a number, before and after. -/
def Spares (f : UInt8 → UInt8) : Prop := ∀ b, f b = b ∨ Stops b ∧ Stops (f b)

section

variable {f : UInt8 → UInt8} (hf : Spares f)
include hf

/-- The change makes no digit and removes none. -/
theorem Spares.isDigit (b : UInt8) : Byte.isDigit (f b) = Byte.isDigit b := by
  rcases hf b with heq | ⟨hb, hfb⟩
  · rw [heq]
  · rw [hb.digit, hfb.digit]

/-- The change makes no separator and removes none. -/
theorem Spares.isSeparator (b : UInt8) : isSeparator (f b) = isSeparator b := by
  rcases hf b with heq | ⟨hb, hfb⟩
  · rw [heq]
  · rw [hb.separator, hfb.separator]

theorem Spares.eq_of_not_stops {b : UInt8} (h : ¬ Stops (f b)) : f b = b :=
  (hf b).resolve_right fun hstops => h hstops.2

/-- A number stays as it is. -/
theorem Spares.map_bytes (w : Written) : w.bytes.map f = w.bytes := by
  have hsame : ∀ b ∈ w.bytes, f b = id b := fun b hb =>
    (hf b).resolve_right fun hstops => not_stops_of_mem_bytes hb hstops.1
  rw [List.map_congr_left hsame, List.map_id]

/-- A number ends in the changed bytes where it ended before. -/
theorem Spares.endsBefore_map {w : Written} {rest : List UInt8} :
    w.EndsBefore (rest.map f) ↔ w.EndsBefore rest := by
  cases rest with
  | nil => exact Iff.rfl
  | cons b rest => simp [Written.EndsBefore, hf.isDigit, hf.isSeparator]

/-- A number is read in the same way when bytes that no number uses are changed. -/
theorem read?_map (bytes : List UInt8) :
    read? (bytes.map f) = (read? bytes).map fun r => { r with rest := r.rest.map f } := by
  cases hread : read? bytes with
  | some r =>
    obtain ⟨w, hbytes, hends, hr⟩ := exists_written hread
    rw [hbytes, List.map_append, hf.map_bytes, read?_written (hf.endsBefore_map.2 hends), hr]
    rfl
  | none =>
    -- A number in the changed bytes was one before.
    cases hread' : read? (bytes.map f) with
    | none => rfl
    | some r =>
      obtain ⟨w, hbytes, hends, -⟩ := exists_written hread'
      obtain ⟨number, rest, rfl, hnumber, hrest⟩ := List.map_eq_append_iff.1 hbytes
      have hsame : ∀ b ∈ number, f b = id b := fun b hb =>
        hf.eq_of_not_stops (not_stops_of_mem_bytes (hnumber ▸ List.mem_map_of_mem hb))
      rw [List.map_congr_left hsame, List.map_id] at hnumber
      rw [← hrest, hf.endsBefore_map] at hends
      rw [hnumber, read?_written hends] at hread
      cases hread

end

end Decimal

end GraphicsTerminal
