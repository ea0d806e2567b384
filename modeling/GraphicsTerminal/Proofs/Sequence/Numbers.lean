import GraphicsTerminal.Sequence.Payload
import GraphicsTerminal.Proofs.Number.Grammar
import GraphicsTerminal.Proofs.Number.Positional
import GraphicsTerminal.Proofs.Number.Writing

/-!
# Numbers in a payload

A reader of numbers takes the bytes apart from its position on: spaces, perhaps a sign, all
digits that follow, and perhaps one separator.  With digits the result is their value, clamped
to a word, and the position moves behind all that was taken.  Without digits there is no result
and the position stays, though spaces, a sign or a separator may stand there.

Main definitions:

- {lit}`Decimal.Layout`: bytes that are taken apart in this way.
- {lit}`Decimal.Layout.Of`: the layout is that of some bytes.
- {lit}`Payload.scanInt`: a number read with a limit after every digit.

Main results:

- Theorem {lit}`Decimal.exists_layout`: all bytes have a layout.
- Theorem {lit}`Decimal.read?_of_layout`: what is read, by the layout.
- Theorem {lit}`Payload.readInt_by_layout`: what is read at any position of a payload, and words
  that are read back.
-/

namespace GraphicsTerminal

namespace Decimal

/-! ## Layouts -/

/-- Bytes, taken apart as a number and what follows it. -/
structure Layout where
  /-- The number of spaces in front. -/
  spaces : Nat
  sign : Option Sign
  digits : List UInt8
  separator : Option UInt8
  rest : List UInt8

namespace Layout

/-- The digits and all that follows them. -/
def number (l : Layout) : List UInt8 := l.digits ++ (l.separator.toList ++ l.rest)

/-- All that stands in front of the rest. -/
def front (l : Layout) : List UInt8 :=
  List.replicate l.spaces Byte.space ++
    ((l.sign.map Sign.byte).toList ++ (l.digits ++ l.separator.toList))

/-- The exact value of the digits with their sign. -/
def value (l : Layout) : Int :=
  if l.sign = some .minus then -(exact l.digits : Int) else exact l.digits

/-- The layout is that of the bytes: every part is as long as it can be. -/
structure Of (l : Layout) (bytes : List UInt8) : Prop where
  eq : bytes = l.front ++ l.rest
  isDigit : ∀ b ∈ l.digits, Byte.isDigit b = true
  isSeparator : ∀ b ∈ l.separator, isSeparator b = true
  /-- Without a sign, neither a space nor a sign follows the spaces. -/
  unsigned : l.sign = none → ∀ b ∈ l.number.head?, b ≠ Byte.space ∧ b ≠ 0x2B ∧ b ≠ 0x2D
  digitsEnd : ∀ b ∈ (l.separator.toList ++ l.rest).head?, Byte.isDigit b = false
  separatorEnd : l.separator = none → ∀ b ∈ l.rest.head?, Decimal.isSeparator b = false

variable {l : Layout} {bytes : List UInt8}

/-- The spaces and the sign stand in front of the number. -/
theorem Of.eq_number (h : l.Of bytes) : bytes =
    List.replicate l.spaces Byte.space ++ ((l.sign.map Sign.byte).toList ++ l.number) := by
  rw [h.eq, front, number]
  simp only [List.append_assoc]

/-- The spaces are dropped, and the sign is split off. -/
theorem Of.takeSign (h : l.Of bytes) :
    takeSign (bytes.dropWhile (· == Byte.space)) = (decide (l.sign = some .minus), l.number) := by
  rw [h.eq_number, dropWhile_replicate_space]
  exact takeSign_of_sign h.unsigned

end Layout

/-- What is read, by the layout of the bytes. -/
theorem read?_of_layout {l : Layout} {bytes : List UInt8} (h : l.Of bytes) :
    read? bytes = if l.digits = [] then none
      else some ⟨Word.saturate l.value, l.separator.isSome, l.rest⟩ := by
  obtain ⟨htake, hdrop⟩ := span_digits h.isDigit h.digitsEnd
  have hseparator := takeSeparator_of_separator h.isSeparator h.separatorEnd
  rw [← Layout.number] at htake hdrop
  unfold read?
  simp only [h.takeSign, htake, hdrop, hseparator, List.isEmpty_iff, magnitude_eq_exact,
    decide_eq_true_eq]
  rfl

/-! ## All bytes have a layout -/

/-- A run of bytes of one kind is split off as far as it goes. -/
theorem exists_run (p : UInt8 → Bool) (bytes : List UInt8) :
    ∃ run more, bytes = run ++ more ∧ (∀ b ∈ run, p b = true) ∧
      ∀ b ∈ more.head?, p b = false := by
  refine ⟨bytes.takeWhile p, bytes.dropWhile p, List.takeWhile_append_dropWhile.symm,
    fun b hb => List.mem_takeWhile_imp hb, fun b hb => ?_⟩
  have hends := List.head?_dropWhile_not p bytes
  rw [Option.mem_def.1 hb] at hends
  exact hends

/-- Without a sign, none stands in front. -/
theorem exists_sign_or_unsigned (bytes : List UInt8) :
    ∃ (sign : Option Sign) (more : List UInt8),
      bytes = (sign.map Sign.byte).toList ++ more ∧
        (sign = none → ∀ b ∈ more.head?, b ≠ 0x2B ∧ b ≠ 0x2D) := by
  obtain ⟨sign, hbytes, -⟩ := exists_sign bytes
  refine ⟨sign, _, hbytes, ?_⟩
  rintro rfl b hb
  rw [Option.map_none, Option.toList_none, List.nil_append] at hbytes
  rw [← hbytes] at hb
  obtain ⟨more, rfl⟩ := List.head?_eq_some_iff.1 hb
  -- A sign is taken off, and then the bytes are not what is left of them.
  refine ⟨?_, ?_⟩
  · rintro rfl
    exact absurd hbytes (List.cons_ne_self 0x2B more)
  · rintro rfl
    exact absurd hbytes (List.cons_ne_self 0x2D more)

/-- Bytes of any kind can be taken apart; the digits may be none. -/
theorem exists_layout (bytes : List UInt8) : ∃ l : Layout, l.Of bytes := by
  obtain ⟨spaces, behind, rfl, hspaces, hspacesEnd⟩ := exists_run (· == Byte.space) bytes
  obtain ⟨sign, number, rfl, hunsigned⟩ := exists_sign_or_unsigned behind
  obtain ⟨digits, after, rfl, hdigits, hdigitsEnd⟩ := exists_run Byte.isDigit number
  obtain ⟨separator, hafter, -, hseparator, hseparatorEnd⟩ := exists_separator after
  refine ⟨⟨spaces.length, sign, digits, separator, (takeSeparator after).2⟩, ?_, hdigits,
    hseparator, ?_, ?_, hseparatorEnd⟩
  · have hreplicate : spaces = List.replicate spaces.length Byte.space :=
      List.eq_replicate_of_mem fun b hb => beq_iff_eq.1 (hspaces b hb)
    rw [Layout.front, ← hreplicate]
    simp only [List.append_assoc]
    rw [← hafter]
  · rintro rfl b hb
    rw [Layout.number, ← hafter] at hb
    exact ⟨beq_eq_false_iff_ne.1 (hspacesEnd b hb), hunsigned rfl b hb⟩
  · rw [← hafter]
    exact hdigitsEnd

/-! ## Words as they are sent -/

/-- The layout of a word as it is sent, with a separator behind it or without. -/
def sent (v : Int) (separator : Option UInt8) (rest : List UInt8) : Layout where
  spaces := 0
  sign := if v < 0 then some .minus else none
  digits := digitBytes v.natAbs
  separator := separator
  rest := rest

/-- A word as it is sent is its own front. -/
theorem front_sent (v : Int) (separator : Option UInt8) (rest : List UInt8) :
    (sent v separator rest).front = bytes v ++ separator.toList := by
  rw [bytes_eq, Layout.front, sent, List.append_assoc]
  split
  · rfl
  · rfl

/-- A word as it is sent has its own value. -/
theorem value_sent (v : Int) (separator : Option UInt8) (rest : List UInt8) :
    (sent v separator rest).value = v := by
  have hsign : (sent v separator rest).sign = some .minus ↔ v < 0 := by
    rw [sent]
    split
    · next hneg => exact iff_of_true rfl hneg
    · next hpos => exact iff_of_false (fun h => nomatch h) hpos
  have hexact : exact (sent v separator rest).digits = v.natAbs := by
    rw [← magnitude_eq_exact]
    exact magnitude_digitBytes v.natAbs
  simp only [Layout.value, hsign, hexact]
  omega

/-- A word as it is sent has digits. -/
theorem digits_sent_ne_nil (v : Int) (separator : Option UInt8) (rest : List UInt8) :
    (sent v separator rest).digits ≠ [] := by
  obtain ⟨b, more, heq, -⟩ := exists_digitBytes v.natAbs
  rw [sent, heq]
  exact List.cons_ne_nil b more

/-- A word as it is sent ends where neither a digit nor a separator of another one follows. -/
theorem of_sent {v : Int} {separator : Option UInt8} {rest : List UInt8}
    (hseparator : ∀ b ∈ separator, isSeparator b = true)
    (hrest : separator = none →
      ∀ b ∈ rest.head?, Byte.isDigit b = false ∧ isSeparator b = false) :
    (sent v separator rest).Of (bytes v ++ separator.toList ++ rest) where
  eq := by
    rw [front_sent]
    rfl
  isDigit := fun b hb => isDigit_of_mem_digitBytes hb
  isSeparator := hseparator
  unsigned := by
    intro _ b hb
    obtain ⟨first, more, heq, hdigit⟩ := exists_digitBytes v.natAbs
    rw [Layout.number, sent, heq] at hb
    obtain rfl := Option.some.inj hb
    exact ⟨ne_of_isDigit hdigit (by decide), ne_of_isDigit hdigit (by decide),
      ne_of_isDigit hdigit (by decide)⟩
  digitsEnd := by
    intro b hb
    cases separator with
    | none => exact (hrest rfl b hb).1
    | some c =>
      obtain rfl : c = b := Option.some.inj hb
      exact not_isDigit_of_isSeparator (hseparator c rfl)
  separatorEnd := fun hnone b hb => (hrest hnone b hb).2

end Decimal

namespace Payload

/-! ## Reading at a position -/

/-- Read a signed decimal number with a limit after every digit. -/
def scanInt (p : Payload) : Option Int × Payload :=
  match Decimal.scan? p.rest with
  | some r => (some r.value, p.resume r.rest)
  | none => (none, p)

/-- A limit after each digit gives what a limit at the end gives. -/
theorem scanInt_eq_readInt (p : Payload) : p.scanInt = p.readInt := by
  rw [scanInt, Decimal.scan?_eq_read?]
  rfl

/-- What is left to read is what lies behind the index. -/
theorem length_rest (p : Payload) : p.rest.length = p.size - p.index := by
  rw [rest, List.length_drop]
  rfl

/-- The position moves behind what is taken. -/
theorem resume_of_rest {p : Payload} {front tail : List UInt8} (h : p.rest = front ++ tail)
    (hfront : front ≠ []) : p.resume tail = { p with index := p.index + front.length } := by
  have hlength := congrArg List.length h
  rw [length_rest, List.length_append] at hlength
  have hpos := List.length_pos_iff.2 hfront
  have hindex : p.bytes.size - tail.length = p.index + front.length := by
    rw [size] at hlength
    omega
  rw [resume, hindex]

/-- What is read at a position, by the layout of the bytes from there on. -/
theorem readInt_of_layout {p : Payload} {l : Decimal.Layout} (h : l.Of p.rest) :
    p.readInt = if l.digits = [] then (none, p)
      else (some (Word.saturate l.value), { p with index := p.index + l.front.length }) := by
  rw [readInt, Decimal.read?_of_layout h]
  by_cases hdigits : l.digits = []
  · rw [if_pos hdigits, if_pos hdigits]
  · have hfront : l.front ≠ [] := by simp [Decimal.Layout.front, hdigits]
    rw [if_neg hdigits, if_neg hdigits]
    exact congrArg (Prod.mk _) (resume_of_rest h.eq hfront)

/-- A word as it is sent is read back, and the position moves behind it. -/
theorem readInt_of_sent {p : Payload} {v : Int} {separator : Option UInt8} {rest : List UInt8}
    (hlow : Word.least ≤ v) (hhigh : v ≤ Word.greatest)
    (hseparator : ∀ b ∈ separator, Decimal.isSeparator b = true)
    (hends : separator = none →
      ∀ b ∈ rest.head?, Byte.isDigit b = false ∧ Decimal.isSeparator b = false)
    (hrest : p.rest = Decimal.bytes v ++ separator.toList ++ rest) :
    p.readInt =
      (some v, { p with index := p.index + (Decimal.bytes v ++ separator.toList).length }) := by
  have hlayout := readInt_of_layout (hrest ▸ Decimal.of_sent hseparator hends)
  rw [if_neg (Decimal.digits_sent_ne_nil v separator rest), Decimal.value_sent,
    Decimal.front_sent, Word.saturate_eq_self hlow hhigh] at hlayout
  exact hlayout

/-- At any position of any payload, the layout of the bytes from there on says what is read and
how far the position moves, and every word that stands there as it is sent is read back.  The
reader with a limit after every digit does the same. -/
theorem readInt_by_layout (p : Payload) :
    p.scanInt = p.readInt ∧
      (∃ l : Decimal.Layout, l.Of p.rest) ∧
      (∀ l : Decimal.Layout, l.Of p.rest →
        p.readInt = if l.digits = [] then (none, p)
          else (some (Word.saturate l.value), { p with index := p.index + l.front.length })) ∧
      ∀ (v : Int) (separator : Option UInt8) (rest : List UInt8),
        Word.least ≤ v → v ≤ Word.greatest →
        (∀ b ∈ separator, Decimal.isSeparator b = true) →
        (separator = none →
          ∀ b ∈ rest.head?, Byte.isDigit b = false ∧ Decimal.isSeparator b = false) →
        p.rest = Decimal.bytes v ++ separator.toList ++ rest →
        p.readInt =
          (some v, { p with index := p.index + (Decimal.bytes v ++ separator.toList).length }) :=
  ⟨p.scanInt_eq_readInt, Decimal.exists_layout p.rest, fun _ h => readInt_of_layout h,
    fun _ _ _ hlow hhigh hseparator hends hrest =>
      readInt_of_sent hlow hhigh hseparator hends hrest⟩

/-- Behind a letter, a number beyond all words, with spaces and a zero in front, and then the
greatest word with a comma. -/
theorem readInt_by_layout_twice :
    let nines : List UInt8 := List.replicate 11 0x39
    let greatest : List UInt8 := [0x32, 0x31, 0x34, 0x37, 0x34, 0x38, 0x33, 0x36, 0x34, 0x37]
    let p : Payload :=
      ⟨([0x61, 0x20, 0x20, 0x2D, 0x30] ++ nines ++ [0x3B] ++ greatest ++ [0x2C, 0x52]).toArray, 1⟩
    p.readInt = (some Word.least, { p with index := 17 }) ∧
      { p with index := 17 }.readInt = (some Word.greatest, { p with index := 28 }) := by
  intro nines greatest p
  obtain ⟨-, -, hlayout, -⟩ := readInt_by_layout p
  obtain ⟨-, -, -, hsent⟩ := readInt_by_layout { p with index := 17 }
  have hgreatest : Decimal.bytes Word.greatest = greatest := by decide +kernel
  refine ⟨hlayout ⟨2, some .minus, 0x30 :: nines, some 0x3B, greatest ++ [0x2C, 0x52]⟩ ?_, ?_⟩
  · exact
      { eq := rfl
        isDigit := by simp [nines, Byte.isDigit]
        isSeparator := by simp [Decimal.isSeparator]
        unsigned := by simp
        digitsEnd := by simp [Byte.isDigit]
        separatorEnd := by simp }
  · have hread := hsent Word.greatest (some 0x2C) [0x52] (by decide) (by decide)
      (by simp [Decimal.isSeparator]) (by simp) (by rw [hgreatest]; rfl)
    rw [hgreatest] at hread
    exact hread

end Payload

end GraphicsTerminal
