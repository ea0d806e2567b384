import GraphicsTerminal.Proofs.Number.Grammar
import GraphicsTerminal.Proofs.Protocol.Reached

/-!
# Cursor addresses as they are written

The body of a cursor address is a list of code letters, each perhaps behind a number.  The
spaces in front of a number are read together with it and leave its value as it is, but the
sign is looked for at the first byte of the term: behind spaces a signed number is taken for
an absolute one.

Main definitions:

- {lit}`AddressTerm.Written`: one term as it is written.
- {lit}`AddressTerm.Separate`: terms that are read one by one.
- {lit}`AddressTerm.meant`: what written terms ask for.

Main results:

- Theorem {lit}`AddressTerm.split_written`: written terms are read back.
- Theorem {lit}`AddressTerm.exists_written`: whatever body ends with a letter was written.
- Theorem {lit}`Parser.feed_address_widened`: spaces in front of the numbers of an address.
-/

namespace GraphicsTerminal

namespace AddressTerm

/-! ## Terms as they are written -/

/-- A code letter as it is written, perhaps behind a number. -/
structure Written where
  number : Option Decimal.Written
  letter : UInt8
  ends : ∀ w ∈ number, w.EndsBefore [letter]

namespace Written

/-- The bytes of a term. -/
def bytes (t : Written) : List UInt8 := t.number.elim [] Decimal.Written.bytes ++ [t.letter]

/-- The coordinate that a term gives, if it has a number and its letter names one.  A sign
counts only as the first byte of the term. -/
def term? (t : Written) : Option AddressTerm :=
  match AddressAxis.ofLetter? (Byte.lower t.letter), t.number with
  | some axis, some number => some ⟨axis, number.value, number.beginsWithSign⟩
  | _, _ => none

/-- The term with more spaces in front of its number. -/
def pad (t : Written) (count : Nat) : Written where
  number := t.number.map (·.pad count)
  letter := t.letter
  ends := by
    intro w hw
    obtain ⟨number, hnumber, rfl⟩ := Option.map_eq_some_iff.1 hw
    exact t.ends number hnumber

end Written

/-- The bytes of a body. -/
def written (terms : List Written) : List UInt8 := terms.flatMap Written.bytes

/-- No letter that stands without a number is read as the beginning of one. -/
def Separate : List Written → Prop
  | [] => True
  | t :: rest => (t.number = none → Decimal.read? (t.letter :: written rest) = none) ∧ Separate rest

/-- What the terms of a body ask for.  A zero byte in the place of a letter ends them. -/
def meant (terms : List Written) : List AddressTerm :=
  (terms.takeWhile (·.letter != 0)).filterMap Written.term?

/-- Terms with as many more spaces in front of their numbers as are given. -/
def widen (terms : List (Written × Nat)) : List Written := terms.map fun t => t.1.pad t.2

variable {t : Written} {b letter : UInt8} {value : Option Int} {tail rest : List UInt8}

/-! ## Reading what was written -/

/-- A letter is split off with the value in front of it. -/
theorem split_of_readValue (h : readValue (b :: tail) = (value, letter :: rest)) :
    split (b :: tail) =
      if letter = 0 then ([], rest)
      else
        match AddressAxis.ofLetter? (Byte.lower letter), value with
        | some axis, some value =>
          (⟨axis, value, b == 0x2B || b == 0x2D⟩ :: (split rest).1, (split rest).2)
        | _, _ => split rest := by
  rw [split]
  split
  · next hread =>
    rw [h] at hread
    cases hread
  · next hread =>
    rw [h] at hread
    cases hread
    by_cases hzero : letter = 0
    · rw [if_pos (Byte.lower_eq_zero.2 hzero), if_pos hzero]
    · rw [if_neg (Byte.lower_ne_zero hzero), if_neg hzero]
      cases AddressAxis.ofLetter? (Byte.lower letter) <;> cases value <;> rfl

/-- One written term is split off. -/
theorem split_bytes (t : Written) (rest : List UInt8)
    (hbare : t.number = none → Decimal.read? (t.letter :: rest) = none) :
    (split (t.bytes ++ rest)).1 =
      if t.letter = 0 then [] else t.term?.toList ++ (split rest).1 := by
  cases hnumber : t.number with
  | none =>
    have hread : readValue (t.letter :: rest) = (none, t.letter :: rest) := by
      rw [readValue, hbare hnumber]
    have hterm : t.term? = none := by
      simp [Written.term?, hnumber]
    have hbytes : t.bytes ++ rest = t.letter :: rest := by
      simp [Written.bytes, hnumber]
    rw [hbytes, split_of_readValue hread, hterm]
    split_ifs <;> simp
  | some w =>
    have hends : w.EndsBefore (t.letter :: rest) := t.ends w hnumber
    obtain ⟨b, tail, hfirst, hsign⟩ := w.exists_cons_bytes
    have hbytes : t.bytes ++ rest = b :: (tail ++ t.letter :: rest) := by
      simp [Written.bytes, hnumber, hfirst]
    have hread : readValue (b :: (tail ++ t.letter :: rest)) =
        (some w.value, t.letter :: rest) := by
      rw [readValue, ← List.cons_append, ← hfirst, Decimal.read?_written hends]
    rw [hbytes, split_of_readValue hread, hsign]
    cases haxis : AddressAxis.ofLetter? (Byte.lower t.letter) <;>
      split_ifs <;> simp [Written.term?, hnumber, haxis]

/-- Written terms are read back. -/
theorem split_written {terms : List Written} (h : Separate terms) :
    (split (written terms)).1 = meant terms := by
  induction terms with
  | nil => rw [written, List.flatMap_nil, split, meant, List.takeWhile_nil, List.filterMap_nil]
  | cons t terms ih =>
    change (split (t.bytes ++ written terms)).1 = _
    rw [split_bytes t _ h.1, ih h.2]
    by_cases hzero : t.letter = 0
    · simp [meant, hzero]
    · cases hterm : t.term? <;> simp [meant, hzero, hterm]

/-! ## What was written -/

/-- Whatever body ends with a byte that is no part of a number was written. -/
theorem exists_written (body : List UInt8) (hlast : ∀ b ∈ body.getLast?, Decimal.Stops b) :
    ∃ terms, Separate terms ∧ body = written terms := by
  -- A term takes as many bytes as its number has, so the induction is on the length.
  induction hlength : body.length using Nat.strong_induction_on generalizing body with
  | _ length ih =>
  subst hlength
  cases body with
  | nil => exact ⟨[], trivial, rfl⟩
  | cons b tail =>
    cases hread : Decimal.read? (b :: tail) with
    | none =>
      obtain ⟨terms, hseparate, htail⟩ := ih tail.length (by simp) tail
        (fun c hc => hlast c (List.mem_getLast?_cons hc)) rfl
      subst htail
      exact ⟨⟨none, b, by simp⟩ :: terms, ⟨fun _ => hread, hseparate⟩, rfl⟩
    | some r =>
      obtain ⟨w, hbytes, hends, -⟩ := Decimal.exists_written hread
      cases hrest : r.rest with
      | nil =>
        obtain ⟨last, hmem⟩ : ∃ last, w.bytes.getLast? = some last :=
          ⟨_, List.getLast?_eq_some_getLast w.bytes_ne_nil⟩
        rw [hrest, List.append_nil] at hbytes
        rw [hbytes] at hlast
        exact absurd (hlast last hmem)
          (Decimal.not_stops_of_mem_bytes (List.mem_of_getLast? hmem))
      | cons letter rest =>
        rw [hrest] at hbytes hends
        have hshorter := Decimal.read?_rest_lt hread
        rw [hrest, List.length_cons] at hshorter
        obtain ⟨terms, hseparate, htail⟩ := ih rest.length (by omega) rest
          (fun c hc => hlast c (by
            rw [hbytes, List.getLast?_append, List.mem_getLast?_cons hc]
            rfl)) rfl
        subst htail
        refine ⟨⟨some w, letter, ?_⟩ :: terms, ⟨?_, hseparate⟩, ?_⟩
        · intro v hv
          exact Option.some.inj hv ▸ hends.congr
        · intro hnone
          cases hnone
        · rw [hbytes]
          simp [written, Written.bytes]

/-! ## Spaces in front of numbers -/

theorem bytes_pad (t : Written) (count : Nat) :
    (t.pad count).bytes =
      (if t.number = none then [] else List.replicate count Byte.space) ++ t.bytes := by
  cases hnumber : t.number with
  | none => simp [Written.bytes, Written.pad, hnumber]
  | some w => simp [Written.bytes, Written.pad, hnumber, Decimal.Written.bytes_pad]

/-- Spaces in front of a number make its term an absolute one, and change nothing else. -/
theorem term?_pad (t : Written) (count : Nat) :
    (t.pad count).term? =
      t.term?.map fun a => { a with relative := a.relative && count == 0 } := by
  cases hnumber : t.number with
  | none => simp [Written.term?, Written.pad, hnumber]
  | some w =>
    cases haxis : AddressAxis.ofLetter? (Byte.lower t.letter) with
    | none => simp [Written.term?, Written.pad, haxis]
    | some axis =>
      simp [Written.term?, Written.pad, hnumber, haxis, Decimal.Written.value_pad,
        Decimal.Written.beginsWithSign_pad]

/-- A term is relative when the sign of its number is its first byte. -/
theorem relative_iff {w : Decimal.Written} {a : AddressTerm} (hw : w ∈ t.number)
    (ha : a ∈ t.term?) : a.relative = true ↔ w.spaces = 0 ∧ w.sign ≠ none := by
  have hnumber : t.number = some w := hw
  cases haxis : AddressAxis.ofLetter? (Byte.lower t.letter) with
  | none => simp [Written.term?, haxis] at ha
  | some axis =>
    have hterm : ⟨axis, w.value, w.beginsWithSign⟩ = a := by
      simpa [Written.term?, haxis, hnumber] using ha
    rw [← hterm]
    simp [Decimal.Written.beginsWithSign, Option.isSome_iff_ne_none]

variable {terms : List (Written × Nat)}

/-- Spaces bring no digit to the front. -/
theorem mem_head_of_widen {c : UInt8} (hc : c ∈ (written (widen terms)).head?)
    (hdigit : Byte.isDigit c = true) : c ∈ (written (terms.map Prod.fst)).head? := by
  cases terms with
  | nil => exact hc
  | cons t terms =>
    obtain ⟨t, count⟩ := t
    have hfront : t.bytes ≠ [] := by simp [Written.bytes]
    simp only [widen, written, List.map_cons, List.flatMap_cons, bytes_pad] at hc ⊢
    by_cases hnumber : t.number = none
    · rw [if_pos hnumber, List.nil_append, List.head?_append_of_ne_nil _ hfront] at hc
      rwa [List.head?_append_of_ne_nil _ hfront]
    · cases count with
      | zero =>
        rw [if_neg hnumber, List.replicate_zero, List.nil_append,
          List.head?_append_of_ne_nil _ hfront] at hc
        rwa [List.head?_append_of_ne_nil _ hfront]
      | succ count =>
        rw [if_neg hnumber] at hc
        obtain rfl : Byte.space = c := Option.some.inj hc
        cases hdigit

/-- Terms stay apart when spaces are put in front of their numbers. -/
theorem separate_widen (h : Separate (terms.map Prod.fst)) :
    Separate (widen terms) ∧ (Decimal.read? (written (terms.map Prod.fst)) = none →
      Decimal.read? (written (widen terms)) = none) := by
  -- Spaces that stand alone may run up to a number behind several terms, so that no number
  -- begins with the rest is shown along with it.
  induction terms with
  | nil => exact ⟨trivial, id⟩
  | cons t terms ih =>
    obtain ⟨t, count⟩ := t
    obtain ⟨hbare, hrest⟩ := h
    obtain ⟨hwide, hread⟩ := ih hrest
    have hbareWide (hnumber : t.number = none) :
        Decimal.read? (t.letter :: written (widen terms)) = none :=
      Decimal.read?_cons_eq_none hread (fun c => mem_head_of_widen) (hbare hnumber)
    cases hnumber : t.number with
    | none =>
      refine ⟨⟨fun _ => hbareWide hnumber, hwide⟩, fun _ => ?_⟩
      have hbytes : written (widen ((t, count) :: terms)) = t.letter :: written (widen terms) := by
        simp [widen, written, Written.bytes, Written.pad, hnumber]
      rw [hbytes]
      exact hbareWide hnumber
    | some w =>
      refine ⟨⟨fun hnone => ?_, hwide⟩, fun hnone => ?_⟩
      · simp [Written.pad, hnumber] at hnone
      · have hends : w.EndsBefore (t.letter :: written (terms.map Prod.fst)) := t.ends w hnumber
        have hbytes : written (((t, count) :: terms).map Prod.fst) =
            w.bytes ++ t.letter :: written (terms.map Prod.fst) := by
          simp [written, Written.bytes, hnumber]
        rw [hbytes, Decimal.read?_written hends] at hnone
        cases hnone

/-- What is meant changes in the terms behind spaces alone. -/
theorem meant_widen (terms : List (Written × Nat)) :
    meant (widen terms) = (terms.takeWhile (·.1.letter != 0)).filterMap fun t =>
      t.1.term?.map fun a => { a with relative := a.relative && t.2 == 0 } := by
  rw [meant, widen, List.takeWhile_map, List.filterMap_map]
  simp only [Function.comp_def, term?_pad]
  rfl

theorem meant_fst (terms : List (Written × Nat)) :
    meant (terms.map Prod.fst) =
      (terms.takeWhile (·.1.letter != 0)).filterMap (·.1.term?) := by
  rw [meant, List.takeWhile_map, List.filterMap_map]
  rfl

/-- Spaces change no coordinate. -/
theorem coordinates_widen (terms : List (Written × Nat)) :
    (meant (widen terms)).map (fun a => (a.axis, a.value)) =
      (meant (terms.map Prod.fst)).map fun a => (a.axis, a.value) := by
  rw [meant_widen, meant_fst, List.map_filterMap, List.map_filterMap]
  simp only [Option.map_map, Function.comp_def]

/-- Spaces change what is meant when they stand in front of a relative term. -/
theorem meant_widen_eq_iff (terms : List (Written × Nat)) :
    meant (widen terms) = meant (terms.map Prod.fst) ↔
      ∀ t ∈ terms.takeWhile (·.1.letter != 0), 0 < t.2 → ∀ a ∈ t.1.term?, a.relative = false := by
  rw [meant_widen, meant_fst]
  induction terms.takeWhile (·.1.letter != 0) with
  | nil => simp
  | cons t rest ih =>
    cases hterm : t.1.term? with
    | none => simp [hterm, ih]
    | some a =>
      have hsame : ({ a with relative := a.relative && t.2 == 0 } : AddressTerm) = a ↔
          (0 < t.2 → a.relative = false) := by
        cases a with
        | mk axis value relative => cases relative <;> simp [Nat.pos_iff_ne_zero]
      simp only [List.filterMap_cons, hterm, Option.map_some, List.cons.injEq, hsame, ih,
        List.forall_mem_cons, Option.mem_some_iff, forall_eq']

/-- The third column ahead of the cursor. -/
def threeAhead : Written where
  number := some
    { spaces := 0
      sign := some .plus
      digits := [0x33]
      separator := none
      digits_ne_nil := by simp
      isDigit_of_mem := List.forall_mem_singleton.2 rfl
      isSeparator_of_mem := by simp }
  letter := 0x43
  ends := by
    intro w hw _ b hb
    obtain rfl : 0x43 = b := Option.some.inj hb
    exact ⟨rfl, rfl⟩

theorem separate_threeAhead : Separate [threeAhead] := ⟨(fun h => nomatch h), trivial⟩

end AddressTerm

namespace Parser

open AddressTerm

variable {p : Parser} {terms : List (Written × Nat)}

/-- What ends a sequence is no part of a number. -/
theorem stops_of_isTerminator {b : UInt8} (h : isTerminator b = true) : Decimal.Stops b := by
  simp only [isTerminator, Bool.or_eq_true, beq_iff_eq] at h
  rcases h with (((hupper | rfl) | rfl) | rfl) | rfl
  · exact Decimal.stops_of_isLetter (by rw [Byte.isLetter, hupper, Bool.true_or])
  all_goals exact ⟨rfl, by decide, by decide, rfl, rfl⟩

/-- Spaces in front of numbers do not end a sequence. -/
theorem isClosed_widen (h : IsClosed (written (terms.map Prod.fst))) :
    IsClosed (written (widen terms)) := by
  induction terms with
  | nil => exact h
  | cons t terms ih =>
    obtain ⟨t, count⟩ := t
    have hbytes : t.bytes ≠ [] := by simp [Written.bytes]
    have hspaces : ∀ b ∈ (if t.number = none then [] else List.replicate count Byte.space),
        isTerminator b = false := by
      intro b hb
      split at hb
      · cases hb
      · rw [List.eq_of_mem_replicate hb]
        rfl
    have hwide : written (widen ((t, count) :: terms)) =
        (if t.number = none then [] else List.replicate count Byte.space) ++
          (t.bytes ++ written (widen terms)) := by
      rw [← List.append_assoc, ← bytes_pad]
      rfl
    have hfront : t.bytes ++ written (widen terms) ≠ [] := by simp [hbytes]
    rw [hwide, isClosed_append hfront]
    refine ⟨hspaces, ?_⟩
    change IsClosed (t.bytes ++ written (terms.map Prod.fst)) at h
    cases terms with
    | nil => exact h
    | cons next terms =>
      have hnext : written ((next :: terms).map Prod.fst) ≠ [] := by
        simp [written, Written.bytes]
      have hnextWide : written (widen (next :: terms)) ≠ [] := by
        simp [written, widen, Written.bytes]
      rw [isClosed_append hnext] at h
      rw [isClosed_append hnextWide]
      exact ⟨h.1, ih h.2⟩

theorem isClosed_threeAhead : IsClosed (written [threeAhead]) where
  inner := List.forall_mem_cons.2 ⟨rfl, List.forall_mem_singleton.2 rfl⟩
  last := ⟨0x43, rfl, rfl⟩

section

variable (hp : p.Reached) (hphase : p.phase = .inEscape)
include hp hphase

/-- Written terms are decoded as they are meant. -/
theorem feed_written {terms : List Written} (hseparate : Separate terms)
    (hclosed : IsClosed (written terms)) :
    (p.feed (0x26 :: 0x61 :: written terms)).1 = [.cursorAddress (meant terms)] := by
  obtain ⟨last, hfeed⟩ := feed_device hp hphase (hclosed.cons (rfl : isTerminator 0x61 = false))
  have haction : deviceAction (.ofByte 0x61) (.ofList (0x26 :: 0x61 :: written terms)) last =
      .cursorAddress (AddressTerm.decode (.ofList (0x26 :: 0x61 :: written terms))).1 := rfl
  rw [hfeed, haction, AddressTerm.decode, Payload.rest_seek _ _ hclosed.ne_nil,
    split_written hseparate]

/-- Every body of an address consists of written terms.  Spaces in front of their numbers
change no coordinate, but make relative terms absolute: the sign of a number counts only when
no space stands in front of it. -/
theorem feed_address_widened {body : List UInt8} (hclosed : IsClosed body) :
    (∃ terms, Separate terms ∧ body = written terms) ∧
      ∀ terms : List (Written × Nat), Separate (terms.map Prod.fst) →
        body = written (terms.map Prod.fst) →
        (p.feed (0x26 :: 0x61 :: body)).1 = [.cursorAddress (meant (terms.map Prod.fst))] ∧
        (p.feed (0x26 :: 0x61 :: written (widen terms))).1 =
          [.cursorAddress (meant (widen terms))] ∧
        (meant (widen terms)).map (fun a => (a.axis, a.value)) =
          (meant (terms.map Prod.fst)).map (fun a => (a.axis, a.value)) ∧
        (∀ t ∈ terms, ∀ w ∈ t.1.number, ∀ a ∈ t.1.term?,
          a.relative = true ↔ w.spaces = 0 ∧ w.sign ≠ none) ∧
        (meant (widen terms) = meant (terms.map Prod.fst) ↔
          ∀ t ∈ terms.takeWhile (·.1.letter != 0), 0 < t.2 →
            ∀ a ∈ t.1.term?, a.relative = false) := by
  constructor
  · obtain ⟨last, hlast, hends⟩ := hclosed.last
    refine exists_written body fun b hb => ?_
    obtain rfl : last = b := Option.some.inj (hlast.symm.trans hb)
    exact stops_of_isTerminator hends
  · rintro terms hseparate rfl
    refine ⟨feed_written hp hphase hseparate hclosed,
      feed_written hp hphase (separate_widen hseparate).1 (isClosed_widen hclosed),
      coordinates_widen terms, ?_, meant_widen_eq_iff terms⟩
    intro t _ w hw a ha
    exact relative_iff hw ha

end

/-- The third column ahead, with a space in front of it. -/
theorem feed_address_widened_threeAhead :
    (initial.advance Byte.esc).2.Reached ∧ (initial.advance Byte.esc).2.phase = .inEscape ∧
      IsClosed (written [threeAhead]) ∧ Separate ([(threeAhead, 1)].map Prod.fst) ∧
      (meant (widen [(threeAhead, 1)]) = meant [threeAhead] ↔
        ∀ t ∈ [(threeAhead, 1)], 0 < t.2 → ∀ a ∈ t.1.term?, a.relative = false) := by
  obtain ⟨-, hwide⟩ := feed_address_widened reached_opened rfl isClosed_threeAhead
  obtain ⟨-, -, -, -, hsame⟩ := hwide [(threeAhead, 1)] separate_threeAhead rfl
  exact ⟨reached_opened, rfl, isClosed_threeAhead, separate_threeAhead, hsame⟩

/-- Behind a space the same column is the third one of the screen. -/
theorem relative_lost_behind_space :
    (initial.feed [Byte.esc, 0x26, 0x61, 0x2B, 0x33, 0x43]).1 =
        [.cursorAddress [⟨.column, 3, true⟩]] ∧
      (initial.feed [Byte.esc, 0x26, 0x61, 0x20, 0x2B, 0x33, 0x43]).1 =
        [.cursorAddress [⟨.column, 3, false⟩]] := by
  have hseparate : Separate ([(threeAhead, 1)].map Prod.fst) := separate_threeAhead
  have hclosed : IsClosed (written ([(threeAhead, 1)].map Prod.fst)) := isClosed_threeAhead
  have hnarrow := feed_written reached_opened rfl hseparate hclosed
  have hwide :=
    feed_written reached_opened rfl (separate_widen hseparate).1 (isClosed_widen hclosed)
  exact ⟨hnarrow, hwide⟩

end Parser

end GraphicsTerminal
