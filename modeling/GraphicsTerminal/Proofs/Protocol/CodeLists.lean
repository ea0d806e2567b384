import GraphicsTerminal.Proofs.Number.Writing
import GraphicsTerminal.Proofs.Protocol.Parameters
import GraphicsTerminal.Screen.Basic

/-!
# Lists of enhancement codes

A control sequence may list several enhancement codes, with semicolons between them.  Four
numbers are read at most, so the codes behind the fourth are passed over.  Codes are clamped to
words as all numbers are, which turns no unknown code into a known one.

Main definitions:

- {lit}`Decimal.listed`: numbers with semicolons between them.
- {lit}`ControlSequence.listed`: the sequence that lists codes, without its escape byte.

Main results:

- Theorem {lit}`Decimal.readUpTo_listed`: the numbers of a list are read, as many as are asked for.
- Theorem {lit}`Enhancement.applyCode_saturate`: clamping a code does not change its effect.
- Theorem {lit}`Parser.feed_codeList`: the action of such a sequence.
-/

namespace GraphicsTerminal

/-! ## Numbers with semicolons between them -/

namespace Decimal

/-- Numbers in decimal form, with semicolons between them. -/
def listed (values : List Int) : List UInt8 := [0x3B].intercalate (values.map bytes)

@[simp]
theorem listed_singleton (v : Int) : listed [v] = bytes v := List.intercalate_singleton

theorem listed_cons_cons (v w : Int) (values : List Int) :
    listed (v :: w :: values) = bytes v ++ 0x3B :: listed (w :: values) := by
  simp [listed, List.intercalate_cons_cons]

/-- A list begins with its first number. -/
theorem bytes_prefix_listed (v : Int) (values : List Int) : bytes v <+: listed (v :: values) := by
  cases values with
  | nil => exact listed_singleton v ▸ List.prefix_rfl
  | cons w values => exact listed_cons_cons v w values ▸ List.prefix_append _ _

/-- No byte of a list ends a sequence. -/
theorem not_stops_of_mem_listed {values : List Int} {b : UInt8} (h : b ∈ listed values) :
    ¬ Stops b := by
  induction values with
  | nil => cases h
  | cons v values ih =>
    have hnumber (hb : b ∈ bytes v) : ¬ Stops b := by
      intro hstops
      rcases mem_bytes hb with rfl | hdigit
      · exact hstops.minus rfl
      · rw [hstops.digit] at hdigit
        cases hdigit
    cases values with
    | nil => exact hnumber (listed_singleton v ▸ h)
    | cons w values =>
      rw [listed_cons_cons] at h
      rcases List.mem_append.1 h with hb | hb
      · exact hnumber hb
      · rcases List.mem_cons.1 hb with rfl | hb
        · intro hstops
          cases hstops.separator
        · exact ih hb

/-- The numbers of a list are read, as many as are asked for. -/
theorem readUpTo_listed (limit : Nat) {values : List Int} (hvalues : values ≠ []) {final : UInt8}
    (hfinal : Stops final) :
    (readUpTo limit (listed values ++ [final])).1 = (values.take limit).map Word.saturate := by
  induction values generalizing limit with
  | nil => exact absurd rfl hvalues
  | cons v values ih =>
    cases limit with
    | zero => rfl
    | succ limit =>
      cases values with
      | nil =>
        have hread : read? (bytes v ++ [final]) = some ⟨Word.saturate v, false, [final]⟩ := by
          rw [read?_bytes v (by simpa using hfinal.digit)]
          simp [takeSeparator, hfinal.separator]
        have hnone : read? [final] = none := read?_append_stop [] [] hfinal
        cases limit with
        | zero => simp [readUpTo, hread]
        | succ limit => simp [readUpTo, hread, hnone]
      | cons w values =>
        have hread : read? (bytes v ++ 0x3B :: (listed (w :: values) ++ [final])) =
            some ⟨Word.saturate v, true, listed (w :: values) ++ [final]⟩ :=
          read?_bytes v (by simp [Byte.isDigit])
        rw [listed_cons_cons, List.append_assoc, List.cons_append, readUpTo, hread,
          List.take_succ_cons, List.map_cons]
        simp only [ih limit (List.cons_ne_nil w values)]

end Decimal

/-! ## The effect of codes -/

namespace Enhancement

/-- Codes beyond those of the colours have no effect, and no negative code has one. -/
theorem applyCode_of_unknown (a : Enhancement) {code : Int} (h : code < 0 ∨ 47 < code) :
    a.applyCode code = a := by
  unfold applyCode
  repeat rw [if_neg (by omega)]

/-- Clamping a code to a word does not change its effect. -/
theorem applyCode_saturate (a : Enhancement) (code : Int) :
    a.applyCode (Word.saturate code) = a.applyCode code := by
  by_cases hword : Word.least ≤ code ∧ code ≤ Word.greatest
  · rw [Word.saturate_eq_self hword.1 hword.2]
  · have hclamped : Word.saturate code < 0 ∨ 47 < Word.saturate code := by
      simp only [Word.saturate, Word.clamp, Word.least, Word.greatest] at hword ⊢
      omega
    have hbeyond : code < 0 ∨ 47 < code := by
      simp only [Word.least, Word.greatest] at hword
      omega
    rw [applyCode_of_unknown a hclamped, applyCode_of_unknown a hbeyond]

end Enhancement

/-- Codes change the enhancement of the cursor, and nothing else of a screen. -/
theorem Screen.applyCodes_eq (s : Screen) (codes : List Int) :
    s.applyCodes codes =
      { s with cursor :=
        { s.cursor with style := codes.foldl Enhancement.applyCode s.cursor.style } } := by
  induction codes generalizing s with
  | nil => rfl
  | cons code codes ih => exact ih (s.applyCode code)

/-- Clamping codes to words does not change their effect. -/
theorem Screen.applyCodes_saturate (s : Screen) (codes : List Int) :
    s.applyCodes (codes.map Word.saturate) = s.applyCodes codes := by
  simp only [applyCodes_eq, List.foldl_map, Enhancement.applyCode_saturate]

/-! ## The sequence -/

/-- The control sequence that lists codes, behind its escape byte. -/
def ControlSequence.listed (codes : List Int) : List UInt8 := 0x5B :: Decimal.listed codes ++ [0x6D]

theorem ControlSequence.enq_not_mem_listed (codes : List Int) : Byte.enq ∉ listed codes := by
  have hstops : Decimal.Stops Byte.enq := ⟨rfl, by decide, by decide, rfl, rfl⟩
  intro h
  simp only [listed, List.cons_append, List.mem_cons, List.mem_append, List.not_mem_nil,
    or_false] at h
  rcases h with hopener | hlisted | hfinal
  · cases hopener
  · exact Decimal.not_stops_of_mem_listed hlisted hstops
  · cases hfinal

namespace Parser

variable {codes : List Int}

/-- The action of a sequence that lists codes has the first four of them. -/
theorem controlAction_listed (h : codes ≠ []) :
    controlAction (.ofList (ControlSequence.listed codes)) =
      .control (.enhance ((codes.take Payload.mostNumbers).map Word.saturate)) := by
  have hlast : (Payload.ofList (ControlSequence.listed codes)).last? = some 0x6D :=
    Payload.last?_concat _ _
  have hrest : ((Payload.ofList (ControlSequence.listed codes)).seek 1).rest =
      Decimal.listed codes ++ [0x6D] :=
    Payload.rest_seek_one 0x5B (List.append_ne_nil_of_right_ne_nil _ (List.cons_ne_nil _ _))
  have hnumbers := Decimal.readUpTo_listed Payload.mostNumbers h
    (Decimal.stops_of_isFinal (b := 0x6D) rfl)
  have hsome : ((codes.take Payload.mostNumbers).map Word.saturate).isEmpty = false := by
    cases codes with
    | nil => exact absurd rfl h
    | cons code codes => rfl
  have hdecode : ControlSequence.decode? (.ofList (ControlSequence.listed codes)) =
      ControlSequence.enhanceCodes ((Payload.ofList (ControlSequence.listed codes)).seek 1) := by
    rw [ControlSequence.decode?, hlast]
    rfl
  rw [controlAction, hdecode, ControlSequence.enhanceCodes, Payload.readNumbers, hrest,
    Nat.min_self, hnumbers, hsome]
  rfl

/-- Behind an escape byte a sequence that lists codes completes its action. -/
theorem feed_codeList (text : Array UInt8) (h : codes ≠ []) :
    (within text .inEscape []).feed (ControlSequence.listed codes) =
      ([.control (.enhance ((codes.take Payload.mostNumbers).map Word.saturate))],
        within text .idle (ControlSequence.listed codes)) := by
  have hbody : ∀ b ∈ Decimal.listed codes, isFinal b = false := by
    intro b hb
    rw [← Bool.not_eq_true]
    exact fun hfinal => Decimal.not_stops_of_mem_listed hb (Decimal.stops_of_isFinal hfinal)
  have haction := controlAction_listed h
  rw [ControlSequence.listed] at haction ⊢
  rw [feed_control text hbody rfl, haction]

/-- One sequence for each code completes one action for each. -/
theorem feed_codeList_each (text : Array UInt8) (code : Int) (codes : List Int) :
    ∃ last, (within text .inEscape []).feed (ControlSequence.listed [code] ++
        (codes.map fun code => Byte.esc :: ControlSequence.listed [code]).flatten) =
      ((code :: codes).map fun code => .control (.enhance [Word.saturate code]),
        within text .idle (ControlSequence.listed [last])) := by
  induction codes generalizing code with
  | nil =>
    refine ⟨code, ?_⟩
    rw [List.map_nil, List.flatten_nil, List.append_nil, feed_codeList text (List.cons_ne_nil _ _)]
    rfl
  | cons next codes ih =>
    obtain ⟨last, hlast⟩ := ih next
    have hopened : (within text .idle (ControlSequence.listed [code])).advance Byte.esc =
        (none, within text .inEscape []) := advance_esc (.inl rfl)
    refine ⟨last, ?_⟩
    rw [List.map_cons, List.flatten_cons, List.cons_append, feed_append,
      feed_codeList text (List.cons_ne_nil _ _), feed, hopened, hlast]
    rfl

end Parser

end GraphicsTerminal
