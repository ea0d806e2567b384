import Mathlib.Data.List.Infix
import GraphicsTerminal.Number.Decimal

/-!
# Reading numbers in front of a letter

Reading decimal numbers takes bytes from the front and never looks behind a letter: what
stands in front of it is read in the same way whatever follows.

Main results:

- Theorem {lit}`Decimal.read?_rest_suffix`: what follows a number is the end of the bytes.
- Theorem {lit}`Decimal.readUpTo_append_stop`: numbers in front of a letter.
-/

namespace GraphicsTerminal

/-- A letter, capital or small. -/
def Byte.isLetter (b : UInt8) : Bool := isUpper b || isLower b

namespace Decimal

/-! ## What is left -/

/-- What follows a number is the end of the bytes. -/
theorem read?_rest_suffix {bytes : List UInt8} {r : Reading}
    (h : read? bytes = some r) : r.rest <:+ bytes := by
  have hsign (front : List UInt8) : (takeSign front).2 <:+ front := by
    unfold takeSign
    split
    · exact List.suffix_cons _ _
    · exact List.suffix_cons _ _
    · exact List.suffix_refl _
  have hseparator (front : List UInt8) : (takeSeparator front).2 <:+ front := by
    unfold takeSeparator
    split
    · exact List.suffix_refl _
    · split
      · exact List.suffix_cons _ _
      · exact List.suffix_refl _
  unfold read? at h
  simp only [Option.ite_none_left_eq_some, Option.some.injEq] at h
  obtain ⟨-, rfl⟩ := h
  refine (hseparator _).trans ?_
  refine (List.dropWhile_suffix _).trans ?_
  exact (hsign _).trans (List.dropWhile_suffix _)

theorem readUpTo_rest_suffix (limit : Nat) (bytes : List UInt8) :
    (readUpTo limit bytes).2 <:+ bytes := by
  induction limit generalizing bytes with
  | zero => exact List.suffix_refl bytes
  | succ limit ih =>
    unfold readUpTo
    cases hread : read? bytes with
    | none => exact List.suffix_refl bytes
    | some r => exact (ih r.rest).trans (read?_rest_suffix hread)

/-! ## Letters -/

/-- A letter is no part of a number. -/
structure Stops (c : UInt8) : Prop where
  space : (c == Byte.space) = false
  minus : c ≠ 0x2D
  plus : c ≠ 0x2B
  digit : Byte.isDigit c = false
  separator : isSeparator c = false

/-- From the at sign on no byte is part of a number. -/
theorem stops_of_le {c : UInt8} (h : 0x40 ≤ c) : Stops c := by
  simp only [UInt8.le_iff_toNat_le, UInt8.reduceToNat] at h
  have hne (b : UInt8) (hb : b.toNat < 0x40) : c ≠ b := by
    rintro rfl
    omega
  refine ⟨beq_false_of_ne (hne _ (by decide)), hne _ (by decide), hne _ (by decide), ?_, ?_⟩
  · simp only [Byte.isDigit, Bool.and_eq_false_iff, decide_eq_false_iff_not,
      UInt8.le_iff_toNat_le, UInt8.reduceToNat]
    omega
  · simp only [isSeparator, beq_false_of_ne (hne 0x20 (by decide)),
      beq_false_of_ne (hne 0x2C (by decide)), beq_false_of_ne (hne 0x3B (by decide)),
      Bool.or_false]

theorem stops_of_isLetter {c : UInt8} (h : Byte.isLetter c = true) : Stops c := by
  refine stops_of_le ?_
  simp only [Byte.isLetter, Byte.isUpper, Byte.isLower, Bool.or_eq_true, Bool.and_eq_true,
    decide_eq_true_eq, UInt8.le_iff_toNat_le, UInt8.reduceToNat] at h ⊢
  omega

section

variable {c : UInt8} (front back : List UInt8)

theorem dropWhile_append_stop {p : UInt8 → Bool} (hp : p c = false) :
    (front ++ c :: back).dropWhile p = front.dropWhile p ++ c :: back := by
  induction front with
  | nil =>
    rw [List.nil_append, List.dropWhile_cons, hp]
    rfl
  | cons b front ih =>
    rw [List.cons_append, List.dropWhile_cons, List.dropWhile_cons, ih]
    split <;> rfl

theorem takeWhile_append_stop {p : UInt8 → Bool} (hp : p c = false) :
    (front ++ c :: back).takeWhile p = front.takeWhile p := by
  induction front with
  | nil =>
    rw [List.nil_append, List.takeWhile_cons, hp]
    rfl
  | cons b front ih =>
    rw [List.cons_append, List.takeWhile_cons, List.takeWhile_cons, ih]

variable (h : Stops c)
include h

theorem takeSign_append_stop :
    takeSign (front ++ c :: back) = ((takeSign front).1, (takeSign front).2 ++ c :: back) := by
  cases front with
  | nil =>
    rw [List.nil_append]
    unfold takeSign
    split
    · rename_i heq
      exact absurd (List.cons.inj heq).1 h.minus
    · rename_i heq
      exact absurd (List.cons.inj heq).1 h.plus
    · rfl
  | cons b front =>
    rw [List.cons_append]
    unfold takeSign
    split
    · rename_i heq
      obtain ⟨rfl, rfl⟩ := List.cons.inj heq
      rfl
    · rename_i heq
      obtain ⟨rfl, rfl⟩ := List.cons.inj heq
      rfl
    · rename_i hminus hplus
      split
      · rename_i heq
        exact absurd (congrArg (· ++ c :: back) heq) (hminus _)
      · rename_i heq
        exact absurd (congrArg (· ++ c :: back) heq) (hplus _)
      · rfl

theorem takeSeparator_append_stop :
    takeSeparator (front ++ c :: back) =
      ((takeSeparator front).1, (takeSeparator front).2 ++ c :: back) := by
  cases front with
  | nil => exact if_neg (Bool.eq_false_iff.1 h.separator)
  | cons b front =>
    rw [List.cons_append, takeSeparator, takeSeparator]
    split <;> rfl

/-- One number in front of a letter is read whatever follows. -/
theorem read?_append_stop :
    read? (front ++ c :: back) =
      (read? front).map fun r => { r with rest := r.rest ++ c :: back } := by
  have hspace : (front ++ c :: back).dropWhile (· == Byte.space) =
      front.dropWhile (· == Byte.space) ++ c :: back :=
    dropWhile_append_stop (p := (· == Byte.space)) front back h.space
  unfold read?
  dsimp only
  rw [hspace, takeSign_append_stop _ back h,
    takeWhile_append_stop _ back h.digit, dropWhile_append_stop _ back h.digit,
    takeSeparator_append_stop _ back h]
  split <;> rfl

/-- Numbers in front of a letter are read whatever follows. -/
theorem readUpTo_append_stop (limit : Nat) :
    readUpTo limit (front ++ c :: back) =
      ((readUpTo limit front).1, (readUpTo limit front).2 ++ c :: back) := by
  induction limit generalizing front with
  | zero => rfl
  | succ limit ih =>
    rw [readUpTo, readUpTo, read?_append_stop front back h]
    cases read? front with
    | none => rfl
    | some r => simp only [Option.map_some, ih]

end

end Decimal

end GraphicsTerminal
