import GraphicsTerminal.Proofs.Number.Grammar
import GraphicsTerminal.Proofs.Protocol.Framing

/-!
# Control sequences with one parameter

Most control sequences have one number between the bracket and the last byte.  It may be written
in any way, with spaces, a sign, zeros in front and a separator, and it may be missing; then the
command has a value of its own for it.

Main definitions:

- {lit}`ControlSequence.spelled`: such a sequence, without its escape byte.
- {lit}`ControlSequence.Reads`: commands of one parameter.

Main results:

- Theorem {lit}`Payload.readInt_spelled`: the number is read.
- Theorem {lit}`Parser.feed_control`: the last byte of any control sequence completes its action.
- Theorem {lit}`Parser.feed_spelled`: such a sequence completes its command.
-/

namespace GraphicsTerminal

namespace ControlSequence

/-- A control sequence with one number, or none, behind its escape byte. -/
def spelled (number : Option Decimal.Written) (final : UInt8) : List UInt8 :=
  0x5B :: number.elim [] Decimal.Written.bytes ++ [final]

/-- The value of a number that may be missing. -/
def parameter (missing : Int) (number : Option Decimal.Written) : Int :=
  number.elim missing Decimal.Written.value

/-- A last byte names a command of one parameter. -/
def Reads (final : UInt8) (missing : Int) (command : Int → ControlSequence) : Prop :=
  ∀ p : Payload, p.last? = some final → decode? p = withInt (p.seek 1) missing command

/-! ## The commands -/

theorem reads_eraseInDisplay : Reads 0x4A 0 eraseInDisplay := by
  intro p hlast
  rw [decode?, hlast]
  rfl

theorem reads_eraseInLine : Reads 0x4B 0 eraseInLine := by
  intro p hlast
  rw [decode?, hlast]
  rfl

theorem reads_insertLines : Reads 0x4C 1 insertLines := by
  intro p hlast
  rw [decode?, hlast]
  rfl

theorem reads_deleteLines : Reads 0x4D 1 deleteLines := by
  intro p hlast
  rw [decode?, hlast]
  rfl

theorem reads_eraseChars : Reads 0x58 1 eraseChars := by
  intro p hlast
  rw [decode?, hlast]
  rfl

end ControlSequence

/-! ## Reading the parameter -/

/-- The last byte of a control sequence is no part of a number. -/
theorem Decimal.stops_of_isFinal {b : UInt8} (h : Parser.isFinal b = true) : Stops b := by
  simp only [Parser.isFinal, Bool.and_eq_true, decide_eq_true_eq] at h
  exact stops_of_le h.1

theorem Payload.last?_concat (bytes : List UInt8) (b : UInt8) :
    (ofList (bytes ++ [b])).last? = some b := by
  simp [last?, ofList]

/-- The parameters begin behind the bracket. -/
theorem Payload.rest_seek_one (opener : UInt8) {body : List UInt8} (h : body ≠ []) :
    ((ofList (opener :: body)).seek 1).rest = body := by
  have hlength := List.length_pos_of_ne_nil h
  have hinside : 1 < (ofList (opener :: body)).bytes.size := by
    simp only [ofList, List.size_toArray, List.length_cons]
    omega
  rw [seek, if_pos hinside]
  rfl

/-- The number in front of the last byte is read, if there is one. -/
theorem Payload.readInt_spelled (number : Option Decimal.Written) {final : UInt8}
    (hfinal : Parser.isFinal final = true) :
    ((ofList (ControlSequence.spelled number final)).seek 1).readInt.1 =
      number.map Decimal.Written.value := by
  have hstops := Decimal.stops_of_isFinal hfinal
  have hrest : ((ofList (ControlSequence.spelled number final)).seek 1).rest =
      number.elim [] Decimal.Written.bytes ++ [final] :=
    rest_seek_one 0x5B (List.append_ne_nil_of_right_ne_nil _ (List.cons_ne_nil _ _))
  rw [readInt, hrest]
  cases number with
  | none =>
    have hnone : Decimal.read? [final] = none := Decimal.read?_append_stop [] [] hstops
    rw [Option.elim_none, List.nil_append, hnone]
    rfl
  | some w =>
    have hends : w.EndsBefore [final] := by
      intro _ b hb
      obtain rfl : final = b := Option.some.inj hb
      exact ⟨hstops.digit, hstops.separator⟩
    rw [Option.elim_some, Decimal.read?_written hends]
    rfl

namespace Parser

/-- No byte of a number ends a control sequence. -/
theorem isFinal_of_mem_written {number : Option Decimal.Written} {b : UInt8}
    (h : b ∈ number.elim [] Decimal.Written.bytes) : isFinal b = false := by
  cases number with
  | none => cases h
  | some w =>
    rw [← Bool.not_eq_true]
    intro hfinal
    exact Decimal.not_stops_of_mem_bytes h (Decimal.stops_of_isFinal hfinal)

variable {final : UInt8} {missing : Int} {command : Int → ControlSequence}

/-- The action of a control sequence with one number. -/
theorem controlAction_spelled (hreads : ControlSequence.Reads final missing command)
    (hfinal : isFinal final = true) (number : Option Decimal.Written) :
    controlAction (.ofList (ControlSequence.spelled number final)) =
      .control (command (ControlSequence.parameter missing number)) := by
  have hlast : (Payload.ofList (ControlSequence.spelled number final)).last? = some final :=
    Payload.last?_concat _ _
  rw [controlAction, hreads _ hlast, ControlSequence.withInt, Payload.readInt_spelled _ hfinal]
  cases number with
  | none => rfl
  | some w => rfl

/-- Behind an escape byte the last byte of a control sequence completes its action. -/
theorem feed_control (text : Array UInt8) {body : List UInt8}
    (hbody : ∀ b ∈ body, isFinal b = false) (hfinal : isFinal final = true) :
    (within text .inEscape []).feed (0x5B :: body ++ [final]) =
      ([controlAction (.ofList (0x5B :: body ++ [final]))],
        within text .idle (0x5B :: body ++ [final])) := by
  have hopened : (within text .inEscape []).advance 0x5B = (none, within text .inBracket [0x5B]) :=
    rfl
  have hcollected : (within text .inBracket [0x5B]).feed body =
      ([], within text .inBracket (0x5B :: body)) := by
    refine feed_within (fun _ => .inBracket) (fun _ b => isFinal b = false) ?_ [] _ ?_
    · intro collected b hb
      simp [advance_within_bracket, hb]
    · intro front b back heq
      exact hbody b (heq ▸ List.mem_append_right _ (.head back))
  rw [List.cons_append, feed, hopened, feed_append, hcollected, feed_singleton,
    advance_within_bracket, if_pos hfinal]
  rfl

/-- Behind an escape byte a control sequence with one number completes its command. -/
theorem feed_spelled (hreads : ControlSequence.Reads final missing command)
    (hfinal : isFinal final = true) (text : Array UInt8) (number : Option Decimal.Written) :
    (within text .inEscape []).feed (ControlSequence.spelled number final) =
      ([.control (command (ControlSequence.parameter missing number))],
        within text .idle (ControlSequence.spelled number final)) := by
  have haction := controlAction_spelled hreads hfinal number
  rw [ControlSequence.spelled] at haction ⊢
  rw [feed_control text (fun b => isFinal_of_mem_written) hfinal, haction]

end Parser

end GraphicsTerminal
