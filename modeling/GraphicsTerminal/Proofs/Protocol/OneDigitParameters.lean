import GraphicsTerminal.Proofs.Number.Writing
import GraphicsTerminal.Proofs.Protocol.Parameters

/-!
# Commands that are told by one digit

The cursor report and the two line wrap switches are asked for by a number: 6, and 7 behind a
question mark.  Their decoder does not read this number.  It looks at its first digit only, so
every longer number that begins with this digit asks for the same command.

Main definitions:

- {lit}`ControlSequence.OneDigit`: these commands.
- {lit}`ControlSequence.OneDigit.Begins`: what the decoder looks at.
- {lit}`ControlSequence.OneDigit.Whole`: the number that is meant.

Main results:

- Theorem {lit}`ControlSequence.OneDigit.Begins.whole_iff`: the number is the one that is meant
  when no digit follows the first one.
- Theorem {lit}`Parser.AtBoundary.feed_oneDigit`: the action of such a sequence.
-/

namespace GraphicsTerminal

/-! ## Numbers of several digits -/

namespace Decimal

/-- Reading digits never makes a value smaller. -/
theorem le_foldl_digits (digits : List UInt8) (value : Nat) :
    value ≤ digits.foldl (fun value d => 10 * value + (d.toNat - 48)) value := by
  induction digits generalizing value with
  | nil => exact Nat.le_refl value
  | cons d digits ih =>
    have hnext := ih (10 * value + (d.toNat - 48))
    rw [List.foldl_cons]
    omega

/-- With a second digit a number is at least ten times its first one. -/
theorem ten_mul_le_magnitude (first second : UInt8) (more : List UInt8) :
    10 * (first.toNat - 48) ≤ magnitude (first :: second :: more) := by
  have hmore := le_foldl_digits more (10 * (10 * 0 + (first.toNat - 48)) + (second.toNat - 48))
  rw [magnitude, List.foldl_cons, List.foldl_cons]
  omega

/-- Where a digit comes first, a number without sign is read. -/
theorem value_of_digit {first : UInt8} (hfirst : Byte.isDigit first = true) (rest : List UInt8) :
    (read? (first :: rest)).map Reading.value =
      some (Word.saturate (magnitude (first :: rest.takeWhile Byte.isDigit))) := by
  simp [read?, takeSign_of_isDigit hfirst, hfirst]

end Decimal

/-! ## What the decoder looks at -/

namespace Payload

/-- The byte at the reading position is the first of those that are left. -/
theorem peek_eq (p : Payload) : p.peek = p.rest.headD 0 := by
  simp [peek, byteAt, rest, List.headD_eq_head?_getD, List.head?_drop]

/-- A byte behind the reading position is passed. -/
theorem rest_advance_one {p : Payload} (h : p.rest ≠ []) : (p.advance 1).rest = p.rest.tail := by
  have hinside : p.index + 1 ≤ p.bytes.size := by
    by_contra houtside
    apply h
    simp only [rest, List.drop_eq_nil_iff, Array.length_toList]
    omega
  simp [advance, hinside, rest]

end Payload

namespace ControlSequence

/-- The commands that are told by one digit. -/
inductive OneDigit where
  | report
  | wrap (on : Bool)
deriving DecidableEq, Repr

namespace OneDigit

/-- The command that is asked for. -/
def command : OneDigit → ControlSequence
  | report => .cursorReport
  | wrap on => .lineWrap on

/-- The last byte of the sequence. -/
def final : OneDigit → UInt8
  | report => 0x6E
  | wrap true => 0x68
  | wrap false => 0x6C

/-- What stands in front of the number. -/
def mark : OneDigit → List UInt8
  | report => []
  | wrap _ => [0x3F]

/-- The number that is meant. -/
def number : OneDigit → Nat
  | report => 6
  | wrap _ => 7

/-- The digit that the decoder looks for. -/
def digit : OneDigit → UInt8
  | report => 0x36
  | wrap _ => 0x37

/-- The parameter begins with the digit, behind its mark. -/
def Begins (d : OneDigit) (body : List UInt8) : Prop := d.mark ++ [d.digit] <+: body

/-- The parameter is the mark and the number that is meant, as numbers are read elsewhere. -/
def Whole (d : OneDigit) (body : List UInt8) : Prop :=
  ∃ rest, body = d.mark ++ rest ∧ (Decimal.read? rest).map Decimal.Reading.value = some ↑d.number

instance (d : OneDigit) (body : List UInt8) : Decidable (d.Begins body) :=
  inferInstanceAs (Decidable (_ <+: _))

theorem isFinal_final (d : OneDigit) : Parser.isFinal d.final = true := by
  rcases d with _ | _ | _ <;> rfl

theorem isDigit_digit (d : OneDigit) : Byte.isDigit d.digit = true := by
  cases d <;> rfl

theorem toNat_digit (d : OneDigit) : d.digit.toNat - 48 = d.number := by
  cases d <;> rfl

theorem magnitude_digit (d : OneDigit) : Decimal.magnitude [d.digit] = d.number := by
  cases d <;> rfl

/-- The number that is meant is no end of the range of words. -/
theorem saturate_eq_number_iff (d : OneDigit) (n : Nat) :
    Word.saturate n = d.number ↔ n = d.number := by
  cases d <;> simp only [number, Word.saturate, Word.clamp, Word.least, Word.greatest] <;> omega

/-! ## The first digit and the number -/

/-- A further digit makes the number larger. -/
theorem magnitude_eq_number_iff (d : OneDigit) (rest : List UInt8) :
    Decimal.magnitude (d.digit :: rest.takeWhile Byte.isDigit) = d.number ↔
      ∀ b ∈ rest.head?, Byte.isDigit b = false := by
  cases rest with
  | nil => simp [magnitude_digit]
  | cons b rest =>
    cases hb : Byte.isDigit b with
    | false => simp [hb, magnitude_digit]
    | true =>
      have hlarge := Decimal.ten_mul_le_magnitude d.digit b (rest.takeWhile Byte.isDigit)
      rw [toNat_digit] at hlarge
      have hpos : 0 < d.number := by cases d <;> simp [number]
      simp only [List.takeWhile_cons_of_pos hb, List.head?_cons, Option.mem_some_iff,
        forall_eq', hb, Bool.true_eq_false, iff_false]
      omega

/-- A parameter that begins with the digit is the number that is meant when no further digit
follows. -/
theorem Begins.whole_iff {d : OneDigit} {body : List UInt8} (h : d.Begins body) :
    d.Whole body ↔ ∀ b ∈ (body.drop (d.mark.length + 1)).head?, Byte.isDigit b = false := by
  obtain ⟨rest, rfl⟩ := h
  have hdrop : (d.mark ++ [d.digit] ++ rest).drop (d.mark.length + 1) = rest :=
    List.drop_left' (by simp)
  rw [hdrop, ← d.magnitude_eq_number_iff, ← d.saturate_eq_number_iff, ← Option.some.injEq,
    ← Decimal.value_of_digit d.isDigit_digit, List.append_assoc]
  constructor
  · rintro ⟨number, hnumber, hread⟩
    rw [List.append_cancel_left_eq] at hnumber
    rwa [← hnumber] at hread
  · intro hread
    exact ⟨_, rfl, hread⟩

/-! ## The action -/

/-- The first byte of a parameter is looked for; the last byte of the sequence is another one. -/
theorem headD_concat_eq_iff {body : List UInt8} {final b : UInt8} (h : final ≠ b) :
    (body ++ [final]).headD 0 = b ↔ [b] <+: body := by
  cases body with
  | nil => simp [h]
  | cons c body => simp [eq_comm]

/-- The decoder looks at the first digit of the parameter only. -/
theorem decode?_eq (d : OneDigit) (body : List UInt8) :
    (decode? (.ofList (0x5B :: body ++ [d.final]))).1 =
      if d.Begins body then some d.command else none := by
  have hlast : (Payload.ofList (0x5B :: body ++ [d.final])).last? = some d.final :=
    Payload.last?_concat _ _
  have hrest : ((Payload.ofList (0x5B :: body ++ [d.final])).seek 1).rest = body ++ [d.final] :=
    Payload.rest_seek_one 0x5B (List.append_ne_nil_of_right_ne_nil _ (List.cons_ne_nil _ _))
  generalize hp : Payload.ofList (0x5B :: body ++ [d.final]) = p at hlast hrest
  cases d with
  | report =>
    have hdecode : decode? p = (if (p.seek 1).peek = 0x36 then some .cursorReport else none,
        p.seek 1) := by
      rw [decode?, hlast]
      rfl
    have hdigit : report.final ≠ 0x36 := by decide
    simp only [hdecode, Payload.peek_eq, hrest, headD_concat_eq_iff hdigit]
    rfl
  | wrap on =>
    have hdecode : decode? p = privateMode (p.seek 1) on := by
      rw [decode?, hlast]
      cases on <;> rfl
    have hmark : (wrap on).final ≠ 0x3F := by cases on <;> decide
    simp only [hdecode, privateMode, Payload.peek_eq, hrest, headD_concat_eq_iff hmark]
    by_cases hmarked : [0x3F] <+: body
    · obtain ⟨rest, rfl⟩ := hmarked
      have hnext : ((p.seek 1).advance 1).rest = rest ++ [(wrap on).final] := by
        rw [Payload.rest_advance_one (by simp [hrest]), hrest]
        rfl
      have hdigit : (wrap on).final ≠ 0x37 := by cases on <;> decide
      have hbegins : (wrap on).Begins ([0x3F] ++ rest) ↔ [0x37] <+: rest :=
        List.prefix_append_right_inj [0x3F]
      rw [if_pos (List.prefix_append _ rest), hnext]
      simp only [headD_concat_eq_iff hdigit, hbegins]
      rfl
    · have hbegins : ¬ (wrap on).Begins body := fun h => hmarked ((List.prefix_append _ _).trans h)
      rw [if_neg hmarked, if_neg hbegins]

end OneDigit

end ControlSequence

namespace Parser

open ControlSequence

/-- The action of a complete sequence. -/
theorem controlAction_oneDigit (d : OneDigit) (body : List UInt8) :
    controlAction (.ofList (0x5B :: body ++ [d.final])) =
      if d.Begins body then .control d.command
      else .unrecognized (0x5B :: body ++ [d.final]) := by
  rw [controlAction, d.decode?_eq]
  split
  · rfl
  · rfl

/-- Between two units such a sequence asks for its command when its parameter begins with the
digit, and for nothing otherwise.  Where the digit is the whole number, this is the number that
is meant; the decoder does not see whether another digit follows it. -/
theorem AtBoundary.feed_oneDigit {p : Parser} (h : p.AtBoundary) (d : OneDigit)
    {body : List UInt8} (hbody : ∀ b ∈ body, isFinal b = false) :
    (p.feed (Byte.esc :: 0x5B :: body ++ [d.final])).1 =
        (p.advance Byte.esc).1.toList ++
          [if d.Begins body then .control d.command
            else .unrecognized (0x5B :: body ++ [d.final])] ∧
      (d.Begins body →
        (d.Whole body ↔ ∀ b ∈ (body.drop (d.mark.length + 1)).head?, Byte.isDigit b = false)) := by
  refine ⟨?_, OneDigit.Begins.whole_iff⟩
  obtain ⟨text, hopened, -⟩ := h.advance_esc
  have hsequence := feed_control text hbody d.isFinal_final
  rw [controlAction_oneDigit] at hsequence
  rw [List.cons_append, List.cons_append, feed, hopened, ← List.cons_append, hsequence]

/-- The line wrap is switched off behind graphics text that has not ended yet. -/
theorem AtBoundary.feed_oneDigit_whole :
    let p : Parser := ⟨.graphicsText, .empty, #[0x41], false⟩
    p.AtBoundary ∧ (∀ b ∈ [0x3F, 0x37], isFinal b = false) ∧
      (p.feed [Byte.esc, 0x5B, 0x3F, 0x37, 0x6C]).1 =
        [.graphicsText "A", .control (.lineWrap false)] ∧
      (OneDigit.wrap false).Begins [0x3F, 0x37] ∧ (OneDigit.wrap false).Whole [0x3F, 0x37] := by
  intro p
  have hboundary : p.AtBoundary := .inr (.inr rfl)
  have hbody : ∀ b ∈ [0x3F, 0x37], isFinal b = false := by simp [isFinal]
  have hbegins : (OneDigit.wrap false).Begins [0x3F, 0x37] := by decide
  obtain ⟨hactions, hwhole⟩ := AtBoundary.feed_oneDigit hboundary (.wrap false) hbody
  refine ⟨hboundary, hbody, ?_, hbegins, (hwhole hbegins).2 (by simp [OneDigit.mark])⟩
  rw [if_pos hbegins] at hactions
  exact hactions

/-- Sixty asks for the cursor report as six does, and seventy-two switches the line wrap on as
seven does. -/
theorem longer_numbers_accepted :
    (initial.feed [Byte.esc, 0x5B, 0x36, 0x30, 0x6E]).1 = [.control .cursorReport] ∧
      ¬ OneDigit.report.Whole [0x36, 0x30] ∧
      (initial.feed [Byte.esc, 0x5B, 0x3F, 0x37, 0x32, 0x68]).1 = [.control (.lineWrap true)] ∧
      ¬ (OneDigit.wrap true).Whole [0x3F, 0x37, 0x32] := by
  refine ⟨by cbv, ?_, by cbv, ?_⟩
  · rintro ⟨rest, hrest, hread⟩
    obtain rfl : [0x36, 0x30] = rest := hrest
    exact absurd (Option.some.inj hread) (by decide)
  · rintro ⟨rest, hrest, hread⟩
    obtain rfl : [0x37, 0x32] = rest := List.tail_eq_of_cons_eq hrest
    exact absurd (Option.some.inj hread) (by decide)

end Parser

end GraphicsTerminal
