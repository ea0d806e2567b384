import GraphicsTerminal.Proofs.Graphics.PlotReading
import GraphicsTerminal.Proofs.Number.Writing

/-!
# Writing plot bodies

A drawing is written as a plot body, and the body draws it.  A stroke can be written by
itself, with the pen letter directly behind its point; or the points of a line are
written one after another, in decimal or in packed form, as they are or as distances.
Both forms draw the same.

Main definitions:

- {lit}`Plot.Reads`: what bytes do to a plot state, whatever follows them.
- {lit}`Plot.Stroke`, {lit}`Plot.drawing`: a drawing and its body.
- {lit}`NumberForm.writePair`, {lit}`Plot.line`: pairs in a form, and the body of a line.
- {lit}`MoveMode.points`, {lit}`PlotState.points`: the points that pairs stand for.

Main results:

- Theorem {lit}`Plot.reads_pair`: a pair in any form is a stroke.
- Theorem {lit}`Plot.run_drawing`: the body of a drawing makes its strokes.
- Theorem {lit}`Plot.run_line`: the body of a line moves to its first point and draws to
  the others, in every form.
-/

namespace GraphicsTerminal

/-- Both coordinates are words. -/
structure Point.IsWord (p : Point) : Prop where
  least_le_x : Word.least ≤ p.x
  x_le : p.x ≤ Word.greatest
  least_le_y : Word.least ≤ p.y
  y_le : p.y ≤ Word.greatest

/-- The nearest point whose coordinates are words. -/
def Point.saturate (p : Point) : Point := ⟨Word.saturate p.x, Word.saturate p.y⟩

/-- A point whose coordinates are words is its own nearest one. -/
theorem Point.saturate_eq_self {p : Point} (h : p.IsWord) : p.saturate = p := by
  rw [Point.saturate, Word.saturate_eq_self h.least_le_x h.x_le,
    Word.saturate_eq_self h.least_le_y h.y_le]

/-- The letter that chooses a pen. -/
def Pen.letter : Pen → UInt8
  | up => 0x61
  | down => 0x62

/-! ## Points of pairs -/

namespace Point

/-- The points that distances lead to, each from the point before it. -/
def runningSums (p : Point) : List Point → List Point
  | [] => []
  | d :: ds => p.offset d.x d.y :: (p.offset d.x d.y).runningSums ds

end Point

/-- The points that pairs stand for, when the relocation origin and the current point are
known. -/
def MoveMode.points (mode : MoveMode) (origin current : Point) (pairs : List Point) :
    List Point :=
  match mode with
  | .absolute => pairs
  | .incremental => current.runningSums pairs
  | .relocatable => pairs.map fun d => origin.offset d.x d.y

/-- No pairs stand for no points. -/
theorem MoveMode.points_nil (mode : MoveMode) (origin current : Point) :
    mode.points origin current [] = [] := by
  cases mode with
  | _ => rfl

/-! ## Numbers in a form -/

namespace NumberForm

/-- A number in a form.  In decimal form a separator stands behind it. -/
def write (form : NumberForm) (mode : MoveMode) (v : Int) (separator : UInt8) : List UInt8 :=
  match form, mode with
  | .ascii, _ => Decimal.bytes v ++ [separator]
  | .binary, .absolute => Packed.bytes 2 v
  | .binary, _ => Packed.bytes 3 v
  | .binaryShort, _ => Packed.bytes 1 v

/-- A number that can be written in a form. -/
def Fits (form : NumberForm) (mode : MoveMode) (v : Int) : Prop :=
  match form, mode with
  | .ascii, _ => True
  | .binary, .absolute => 0 ≤ v ∧ v ≤ 1023
  | .binary, _ => -16384 ≤ v ∧ v ≤ 16383
  | .binaryShort, _ => -15 ≤ v ∧ v ≤ 16

/-- The number that a form stands for.  In decimal form it is a word. -/
def value (form : NumberForm) (v : Int) : Int :=
  match form with
  | .ascii => Word.saturate v
  | _ => v

/-- The pair that a pair in a form stands for. -/
def valuePair (form : NumberForm) (pair : Point) : Point :=
  ⟨form.value pair.x, form.value pair.y⟩

/-- A pair of numbers in a form. -/
def writePair (form : NumberForm) (mode : MoveMode) (pair : Point) : List UInt8 :=
  form.write mode pair.x 0x2C ++ form.write mode pair.y Byte.space

end NumberForm

/-- A sign and digits are among the bytes that can also carry a group. -/
theorem isGroup_of_mem_bytes {v : Int} {b : UInt8} (h : b ∈ Decimal.bytes v) :
    Packed.isGroup b = true ∧ b ≠ 0x2C ∧ b ≠ Byte.space := by
  rcases Decimal.mem_bytes h with rfl | hdigit
  · decide
  · refine ⟨?_, Decimal.ne_of_isDigit hdigit (by decide),
      Decimal.ne_of_isDigit hdigit (by decide)⟩
    simp only [Byte.isDigit, Bool.and_eq_true, decide_eq_true_eq] at hdigit
    obtain ⟨hlow, hhigh⟩ := hdigit
    simp only [Packed.isGroup, Bool.and_eq_true, decide_eq_true_eq]
    exact ⟨Nat.le_trans (show 0x20 ≤ 0x30 by decide) hlow,
      Nat.le_trans hhigh (show 0x39 ≤ 0x3F by decide)⟩

namespace NumberForm

variable {form : NumberForm} {mode : MoveMode}

/-- A number is written in bytes that can carry a group, its separator included. -/
theorem isGroup_of_mem_write {v : Int} {separator b : UInt8}
    (hseparator : Packed.isGroup separator = true) (h : b ∈ form.write mode v separator) :
    Packed.isGroup b = true := by
  unfold write at h
  split at h
  · rcases List.mem_append.1 h with hnumber | hlast
    · exact (isGroup_of_mem_bytes hnumber).1
    · rw [List.mem_singleton.1 hlast]
      exact hseparator
  · exact Packed.isGroup_of_mem_groups h
  · exact Packed.isGroup_of_mem_groups h
  · exact Packed.isGroup_of_mem_groups h

/-- A pair is written in bytes that can carry a group. -/
theorem isGroup_of_mem_writePair {pair : Point} {b : UInt8} (h : b ∈ form.writePair mode pair) :
    Packed.isGroup b = true := by
  rcases List.mem_append.1 h with hx | hy
  · exact isGroup_of_mem_write (by decide) hx
  · exact isGroup_of_mem_write (by decide) hy

/-- A number is at least one byte in every form. -/
theorem write_ne_nil (form : NumberForm) (mode : MoveMode) (v : Int) (separator : UInt8) :
    form.write mode v separator ≠ [] := by
  unfold write
  split
  · exact List.append_ne_nil_of_right_ne_nil _ (List.cons_ne_nil _ _)
  · exact Packed.bytes_ne_nil 1 v
  · exact Packed.bytes_ne_nil 2 v
  · exact Packed.bytes_ne_nil 0 v

/-- A number begins with a byte that is no separator of decimal numbers. -/
theorem exists_write (form : NumberForm) (mode : MoveMode) (v : Int) {separator : UInt8}
    (hseparator : Packed.isGroup separator = true) :
    ∃ b tail, form.write mode v separator = b :: tail ∧ Packed.isGroup b = true ∧
      (form = .ascii → b ≠ 0x2C ∧ b ≠ Byte.space) := by
  obtain ⟨b, tail, heq⟩ := List.exists_cons_of_ne_nil (write_ne_nil form mode v separator)
  refine ⟨b, tail, heq, isGroup_of_mem_write hseparator (heq ▸ List.mem_cons_self), ?_⟩
  rintro rfl
  obtain ⟨first, more, hnumber⟩ := List.exists_cons_of_ne_nil (Decimal.bytes_ne_nil v)
  have hfirst : first = b := by
    rw [write, hnumber, List.cons_append] at heq
    exact List.head_eq_of_cons_eq heq
  rw [← hfirst]
  exact (isGroup_of_mem_bytes (hnumber ▸ List.mem_cons_self)).2

end NumberForm

namespace PlotState

variable {st : PlotState}

/-- Above the greatest value the remainders of negative numbers begin. -/
theorem withSign_remainder {greatest range v : Int} (hlow : greatest < v + range)
    (hhigh : v ≤ greatest) (hgreatest : 0 ≤ greatest) (hrange : greatest < range) :
    withSign greatest range (v % range).toNat = v := by
  have hnonneg := Int.emod_nonneg v (show range ≠ 0 by omega)
  unfold withSign
  rw [Int.toNat_of_nonneg hnonneg]
  by_cases hneg : v < 0
  · have hmod : v % range = v + range := by
      rw [← Int.add_emod_right]
      exact Int.emod_eq_of_lt (by omega) (by omega)
    rw [hmod, if_pos hlow]
    omega
  · rw [Int.emod_eq_of_lt (by omega) (by omega), if_neg (by omega)]

/-- A number that was written in the current form is read as what it stands for. -/
theorem readNumber?_write {v : Int} (h : st.form.Fits st.mode v) {separator : UInt8}
    (hseparator : Decimal.isSeparator separator = true) (rest : List UInt8) :
    st.readNumber? (st.form.write st.mode v separator ++ rest) =
      some (st.form.value v, false, rest) := by
  revert h
  unfold readNumber? NumberForm.Fits NumberForm.write NumberForm.value
  cases st.form with
  | ascii =>
    rintro -
    have hdigit : ∀ b, (separator :: rest).head? = some b → Byte.isDigit b = false := by
      rintro b ⟨⟩
      exact Decimal.not_isDigit_of_isSeparator hseparator
    have htaken : Decimal.takeSeparator (separator :: rest) = (true, rest) :=
      if_pos hseparator
    simp only [List.append_assoc, List.singleton_append]
    rw [Decimal.read?_bytes v hdigit, htaken]
    rfl
  | binary =>
    have hrange : (32 : Int) ^ 3 = 32768 := by decide
    cases st.mode with
    | absolute =>
      rintro ⟨hlow, hhigh⟩
      have hvalue : ((v % 32 ^ 2).toNat : Int) = v := by omega
      simp only [Packed.read?_bytes, Option.map_some, hvalue]
    | incremental =>
      rintro ⟨hlow, hhigh⟩
      simp only [Packed.read?_bytes, Option.map_some, hrange]
      rw [withSign_remainder (by omega) hhigh (by decide) (by decide)]
    | relocatable =>
      rintro ⟨hlow, hhigh⟩
      simp only [Packed.read?_bytes, Option.map_some, hrange]
      rw [withSign_remainder (by omega) hhigh (by decide) (by decide)]
  | binaryShort =>
    rintro ⟨hlow, hhigh⟩
    have hrange : (32 : Int) ^ 1 = 32 := by decide
    simp only [Packed.read?_bytes, Option.map_some, hrange]
    rw [withSign_remainder (by omega) hhigh (by decide) (by decide)]

/-- A byte that begins a number is no selector. -/
theorem select?_of_isGroup {b : UInt8} (h : Packed.isGroup b = true)
    (hform : st.form = .ascii → b ≠ 0x2C ∧ b ≠ Byte.space) :
    Byte.lower b = b ∧ ¬ b < 0x20 ∧ st.select? b = none := by
  simp only [Packed.isGroup, Bool.and_eq_true, decide_eq_true_eq] at h
  obtain ⟨hlow, hhigh⟩ := h
  have hupper : Byte.isUpper b = false := by
    have hless : ¬ (0x41 : UInt8) ≤ b := fun hle =>
      absurd (Nat.le_trans hle hhigh) (by decide)
    simp only [Byte.isUpper, hless, decide_false, Bool.false_and]
  refine ⟨?_, Nat.not_lt.2 hlow, ?_⟩
  · rw [Byte.lower, hupper]
    rfl
  · have hcode : b.toNat ≤ 63 := UInt8.le_iff_toNat_le.1 hhigh
    have hletter (c : Char) (hc : 64 ≤ c.toNat) : Byte.char b ≠ c := by
      rintro rfl
      exact absurd (Nat.le_trans hc hcode) (by decide)
    unfold select?
    split
    case h_16 hchar =>
      exact if_neg fun hascii =>
        (hform hascii).1 (UInt8.toNat_inj.1 (congrArg Char.toNat hchar))
    case h_17 hchar =>
      exact if_neg fun hascii =>
        (hform hascii).2 (UInt8.toNat_inj.1 (congrArg Char.toNat hchar))
    case h_18 => rfl
    all_goals
      rename_i hchar
      exact absurd hchar (hletter _ (by decide))

/-! ## Strokes of pairs -/

/-- The points that the pairs of a body stand for from here on. -/
def points (st : PlotState) (pairs : List Point) : List Point :=
  st.mode.points st.origin st.current (pairs.map st.form.valuePair)

theorem points_nil (st : PlotState) : st.points [] = [] := MoveMode.points_nil _ _ _

/-- The first pair leads to a point, and the others go on from there. -/
theorem points_cons (st : PlotState) (pair : Point) (pairs : List Point) :
    st.points (pair :: pairs) =
      st.target (st.form.valuePair pair) ::
        { st with current := st.target (st.form.valuePair pair) }.points pairs := by
  unfold points PlotState.target
  cases st.mode with
  | _ => rfl

/-- With the pen down, a pair is a draw. -/
theorem stroke_of_down (hpen : st.pen = .down) (hfilling : st.filling = false) (pair : Point) :
    st.stroke pair false = ({ st with current := st.target pair }, .lineTo (st.target pair)) := by
  simp only [PlotState.stroke, hpen, hfilling]
  rfl

/-- With the pen up, a pair is a move that lowers the pen. -/
theorem stroke_of_up (hpen : st.pen = .up) (hfilling : st.filling = false) (pair : Point) :
    st.stroke pair false =
      ({ st with pen := .down, current := st.target pair }, .moveTo (st.target pair)) := by
  simp only [PlotState.stroke, hpen, hfilling]
  rfl

end PlotState

namespace Plot

/-! ## Reading a body -/

variable {size : Nat} {st st' st'' : PlotState} {front back : List UInt8}
  {calls calls' : List SurfaceCall}

/-- Some bytes lead from one state to another and make some calls, whatever follows
them.  No number waits for its second before and after them. -/
def Reads (size : Nat) (st : PlotState) (bytes : List UInt8) (st' : PlotState)
    (calls : List SurfaceCall) : Prop :=
  ∀ rest, interpret size st none (bytes ++ rest) = (interpret size st' none rest).after calls

/-- No bytes do nothing. -/
theorem Reads.nil (st : PlotState) : Reads size st [] st [] := fun _ => rfl

/-- Bytes do one after another what each part does. -/
theorem Reads.append (h : Reads size st front st' calls) (h' : Reads size st' back st'' calls') :
    Reads size st (front ++ back) st'' (calls ++ calls') := by
  intro rest
  rw [List.append_assoc, h, h']
  simp only [Outcome.after, List.append_assoc]

/-- A selector letter is read by itself. -/
theorem reads_select {letter : UInt8} (h : st.select? (Byte.lower letter) = some (st', calls)) :
    Reads size st [letter] st' calls := by
  intro rest
  exact interpret_of_next (step_of_letter h)

/-- A byte that begins a number is handled together with the rest of it. -/
theorem step_of_readNumber {first : Option Int} {b : UInt8} {tail rest : List UInt8} {v : Int}
    {glued : Bool} (hb : Packed.isGroup b = true)
    (hform : st.form = .ascii → b ≠ 0x2C ∧ b ≠ Byte.space)
    (hread : st.readNumber? (b :: tail) = some (v, glued, rest)) :
    step size st first b tail = number st first v glued rest := by
  obtain ⟨hlower, hvisible, hselect⟩ := PlotState.select?_of_isGroup hb hform
  exact step_of_number (by rwa [hlower]) (by rwa [hlower]) hread

/-- A separator can carry a group as well. -/
theorem isGroup_of_isSeparator {b : UInt8} (h : Decimal.isSeparator b = true) :
    Packed.isGroup b = true := by
  simp only [Decimal.isSeparator, Bool.or_eq_true, beq_iff_eq] at h
  rcases h with (rfl | rfl) | rfl
  · rfl
  · rfl
  · rfl

/-- A number that was written is the first or the second of its pair. -/
theorem interpret_write {first first' : Option Int} {v : Int} {separator : UInt8}
    {rest rest' : List UInt8} (hfits : st.form.Fits st.mode v)
    (hseparator : Decimal.isSeparator separator = true)
    (hnumber : number st first (st.form.value v) false rest = .next st' first' calls rest') :
    interpret size st first (st.form.write st.mode v separator ++ rest) =
      (interpret size st' first' rest').after calls := by
  obtain ⟨b, tail, heq, hb, hform⟩ :=
    st.form.exists_write st.mode v (isGroup_of_isSeparator hseparator)
  have hread := PlotState.readNumber?_write hfits hseparator rest
  rw [heq, List.cons_append] at hread ⊢
  refine interpret_of_next ?_
  rw [step_of_readNumber hb hform hread, hnumber]

/-- A pair is a stroke. -/
theorem reads_pair {pair : Point} (hx : st.form.Fits st.mode pair.x)
    (hy : st.form.Fits st.mode pair.y) :
    Reads size st (st.form.writePair st.mode pair) (st.stroke (st.form.valuePair pair) false).1
      [(st.stroke (st.form.valuePair pair) false).2] := by
  intro rest
  rw [NumberForm.writePair, List.append_assoc, interpret_write hx (by decide) rfl,
    interpret_write hy (by decide) rfl]
  rfl

/-- The letter that ends a body selects nothing and draws nothing. -/
theorem select?_end (st : PlotState) : st.select? (Byte.lower 0x5A) = some (st, []) := rfl

/-- A body that was interpreted without a polygon left open made the calls of its strokes. -/
theorem run_of_interpret {body : Payload}
    (h : interpret body.size PlotState.initial none body.rest = ⟨calls, st, none, []⟩)
    (hfilling : st.filling = false) :
    (run body).1.calls = calls ∧ (run body).1.state.current = st.current ∧
      (run body).1.error = none := by
  have hopen : st.polygonCalls = [] := by
    rw [PlotState.polygonCalls, hfilling]
    rfl
  refine ⟨?_, ?_, ?_⟩
  · simp only [run, h, hopen, List.append_nil]
  · simp only [run, h]
    rfl
  · simp only [run, h]

/-- A body that was read without a polygon left open made the calls that were read. -/
theorem run_of_reads {body : Payload}
    (h : Reads body.size PlotState.initial body.rest st calls) (hfilling : st.filling = false) :
    (run body).1.calls = calls ∧ (run body).1.state.current = st.current ∧
      (run body).1.error = none := by
  have hread := h []
  rw [List.append_nil, interpret] at hread
  refine run_of_interpret (hread.trans ?_) hfilling
  rw [Outcome.after, List.append_nil]

/-! ## Drawings -/

/-- A move or a draw to a point. -/
structure Stroke where
  pen : Pen
  point : Point
deriving DecidableEq, Repr

namespace Stroke

/-- The call that makes the stroke. -/
def call (s : Stroke) : SurfaceCall :=
  match s.pen with
  | .up => .moveTo s.point
  | .down => .lineTo s.point

/-- A stroke by itself: a decimal pair and the pen letter directly behind it. -/
def bytes (s : Stroke) : List UInt8 :=
  Decimal.bytes s.point.x ++ 0x2C :: Decimal.bytes s.point.y ++ [s.pen.letter]

end Stroke

/-- The body of a drawing. -/
def drawing (strokes : List Stroke) : List UInt8 := 0x66 :: strokes.flatMap Stroke.bytes ++ [0x5A]

/-- The state between strokes that are written by themselves. -/
structure Free (st : PlotState) : Prop where
  form_eq : st.form = .ascii
  mode_eq : st.mode = .absolute
  filling_eq : st.filling = false

theorem select?_drawing : ∃ st, PlotState.initial.select? (Byte.lower 0x66) = some (st, []) ∧
    Free st := ⟨_, rfl, rfl, rfl, rfl⟩

/-- A number with a pen letter directly behind it. -/
theorem readNumber?_glued (h : st.form = .ascii) {v : Int} (hlow : Word.least ≤ v)
    (hhigh : v ≤ Word.greatest) (pen : Pen) (rest : List UInt8) :
    st.readNumber? (Decimal.bytes v ++ pen.letter :: rest) =
      some (v, true, pen.letter :: rest) := by
  have hdigit : ∀ b, (pen.letter :: rest).head? = some b → Byte.isDigit b = false := by
    rintro b ⟨⟩
    cases pen with
    | up => rfl
    | down => rfl
  have htaken : Decimal.takeSeparator (pen.letter :: rest) = (false, pen.letter :: rest) := by
    cases pen with
    | up => rfl
    | down => rfl
  unfold PlotState.readNumber?
  simp only [h, Decimal.read?_bytes v hdigit, htaken, Word.saturate_eq_self hlow hhigh]
  rfl

/-- The pen letter of a stroke is taken with its pair. -/
theorem number_glued (x y : Int) (pen : Pen) (rest : List UInt8) :
    number st (some x) y true (pen.letter :: rest) =
      .next ({ st with pen := pen }.stroke ⟨x, y⟩ true).1 none
        [({ st with pen := pen }.stroke ⟨x, y⟩ true).2] rest := by
  cases pen with
  | up => rfl
  | down => rfl

/-- A stroke whose pen was chosen for it leaves the selectors as they are. -/
theorem stroke_chosen (h : Free st) (s : Stroke) :
    ({ st with pen := s.pen }.stroke s.point true).2 = s.call ∧
      Free ({ st with pen := s.pen }.stroke s.point true).1 := by
  obtain ⟨pen, point⟩ := s
  obtain ⟨hform, hmode, hfilling⟩ := h
  have htarget : PlotState.target { st with pen := pen } point = point := by
    unfold PlotState.target
    simp only [hmode]
  cases pen with
  | up =>
    refine ⟨?_, hform, hmode, hfilling⟩
    simp only [PlotState.stroke, htarget]
    rfl
  | down =>
    refine ⟨?_, hform, hmode, hfilling⟩
    simp only [PlotState.stroke, htarget]
    rfl

/-- A stroke by itself is read as such. -/
theorem reads_stroke (size : Nat) (h : Free st) {s : Stroke} (hpoint : s.point.IsWord) :
    ∃ st', Reads size st s.bytes st' [s.call] ∧ Free st' := by
  obtain ⟨hcall, hfree⟩ := stroke_chosen h s
  refine ⟨_, fun rest => ?_, hfree⟩
  have hx : st.form.Fits st.mode s.point.x := by
    rw [h.form_eq]
    trivial
  have hvalue : st.form.value s.point.x = s.point.x := by
    rw [h.form_eq]
    exact Word.saturate_eq_self hpoint.least_le_x hpoint.x_le
  have hfirst : Decimal.bytes s.point.x ++ [0x2C] = st.form.write st.mode s.point.x 0x2C := by
    rw [h.form_eq]
    rfl
  have hsplit : s.bytes ++ rest =
      (Decimal.bytes s.point.x ++ [0x2C]) ++
        (Decimal.bytes s.point.y ++ s.pen.letter :: rest) := by
    simp [Stroke.bytes]
  obtain ⟨b, tail, heq⟩ := List.exists_cons_of_ne_nil (Decimal.bytes_ne_nil s.point.y)
  have hb := isGroup_of_mem_bytes (heq ▸ List.mem_cons_self)
  have hread := readNumber?_glued h.form_eq hpoint.least_le_y hpoint.y_le s.pen rest
  rw [hsplit, hfirst, interpret_write hx (by decide) rfl, hvalue]
  rw [heq, List.cons_append] at hread ⊢
  have hstep : step size st (some s.point.x) b (tail ++ s.pen.letter :: rest) = _ :=
    step_of_readNumber hb.1 (fun _ => hb.2) hread
  rw [number_glued] at hstep
  rw [interpret_of_next hstep, hcall]
  rfl

/-- Strokes by themselves are read one after another. -/
theorem reads_strokes (size : Nat) (h : Free st) {strokes : List Stroke}
    (hpoints : ∀ s ∈ strokes, s.point.IsWord) :
    ∃ st', Reads size st (strokes.flatMap Stroke.bytes) st' (strokes.map Stroke.call) ∧
      Free st' := by
  induction strokes generalizing st with
  | nil => exact ⟨st, .nil st, h⟩
  | cons s strokes ih =>
    obtain ⟨st', hnow, hfree⟩ := reads_stroke size h (hpoints s (.head strokes))
    obtain ⟨st'', hlater, hfree'⟩ := ih hfree fun s' hs' => hpoints s' (.tail s hs')
    exact ⟨st'', hnow.append hlater, hfree'⟩

/-- The body of a drawing makes its strokes. -/
theorem run_drawing {strokes : List Stroke} (hpoints : ∀ s ∈ strokes, s.point.IsWord)
    {body : Payload} (hbody : body.rest = drawing strokes) :
    (run body).1.calls = strokes.map Stroke.call := by
  obtain ⟨st, hselect, hfree⟩ := select?_drawing
  obtain ⟨st', hstrokes, hfree'⟩ := reads_strokes body.size hfree hpoints
  have hread := ((reads_select hselect).append hstrokes).append (reads_select (select?_end st'))
  rw [List.nil_append, List.append_nil] at hread
  exact (run_of_reads (by rw [hbody]; exact hread) hfree'.filling_eq).1

/-! ## Lines -/

/-- A move to the first point and a draw to each later one. -/
def polyline : List Point → List SurfaceCall
  | [] => []
  | p :: ps => .moveTo p :: ps.map .lineTo

/-- The letter that chooses a form and what pairs are relative to. -/
def selector : NumberForm → MoveMode → UInt8
  | .ascii, .absolute => 0x66
  | .ascii, .incremental => 0x67
  | .ascii, .relocatable => 0x68
  | .binary, .absolute => 0x69
  | .binary, .incremental => 0x6B
  | .binary, .relocatable => 0x6C
  | .binaryShort, _ => 0x6A

/-- Go to a point, if one is given, and make it the relocation origin. -/
def relocation : Option Point → List UInt8
  | none => []
  | some p => 0x66 :: Byte.space :: (NumberForm.ascii.writePair .absolute p ++ [0x65])

/-- The body of a line whose pairs are all in one form. -/
def line (form : NumberForm) (mode : MoveMode) (start : Option Point) (pairs : List Point) :
    List UInt8 :=
  relocation start ++ (selector form mode :: pairs.flatMap (form.writePair mode)) ++ [0x5A]

/-- The points of a line: the relocation origin, if one is given, and those that the pairs
stand for. -/
def linePoints (mode : MoveMode) (start : Option Point) (pairs : List Point) : List Point :=
  let first := (start.map Point.saturate).getD Point.origin
  (start.map Point.saturate).toList ++ mode.points first first pairs

/-- The selector of a form and a mode chooses both; the short form has distances alone. -/
theorem select?_selector (st : PlotState) {form : NumberForm} {mode : MoveMode}
    (h : form = .binaryShort → mode = .incremental) :
    st.select? (Byte.lower (selector form mode)) = some (st.choose form mode, []) := by
  cases form with
  | ascii =>
    cases mode with
    | _ => rfl
  | binary =>
    cases mode with
    | _ => rfl
  | binaryShort =>
    rw [h rfl]
    rfl

/-- With the pen down, pairs are draws. -/
theorem reads_draws (size : Nat) (hpen : st.pen = .down) (hfilling : st.filling = false)
    {pairs : List Point}
    (hfits : ∀ pair ∈ pairs, st.form.Fits st.mode pair.x ∧ st.form.Fits st.mode pair.y) :
    Reads size st (pairs.flatMap (st.form.writePair st.mode))
      { st with current := (st.points pairs).getLast?.getD st.current }
      ((st.points pairs).map .lineTo) := by
  induction pairs generalizing st with
  | nil =>
    rw [PlotState.points_nil]
    exact .nil st
  | cons pair pairs ih =>
    obtain ⟨hx, hy⟩ := hfits pair (.head pairs)
    have hnow : Reads size st _ _ _ := reads_pair hx hy
    rw [PlotState.stroke_of_down hpen hfilling] at hnow
    have hrest : ∀ pair' ∈ pairs, st.form.Fits st.mode pair'.x ∧ st.form.Fits st.mode pair'.y :=
      fun pair' hpair' => hfits pair' (.tail pair hpair')
    have hlater := @ih { st with current := st.target (st.form.valuePair pair) } hpen hfilling hrest
    rw [PlotState.points_cons, List.getLast?_cons]
    exact hnow.append hlater

/-- With the pen up, the first pair is a move. -/
theorem reads_polyline (size : Nat) (hpen : st.pen = .up) (hfilling : st.filling = false)
    {pairs : List Point}
    (hfits : ∀ pair ∈ pairs, st.form.Fits st.mode pair.x ∧ st.form.Fits st.mode pair.y) :
    ∃ pen, Reads size st (pairs.flatMap (st.form.writePair st.mode))
      { st with pen := pen, current := (st.points pairs).getLast?.getD st.current }
      (polyline (st.points pairs)) := by
  cases pairs with
  | nil =>
    rw [PlotState.points_nil]
    exact ⟨st.pen, .nil st⟩
  | cons pair pairs =>
    obtain ⟨hx, hy⟩ := hfits pair (.head pairs)
    have hnow : Reads size st _ _ _ := reads_pair hx hy
    rw [PlotState.stroke_of_up hpen hfilling] at hnow
    have hrest : ∀ pair' ∈ pairs, st.form.Fits st.mode pair'.x ∧ st.form.Fits st.mode pair'.y :=
      fun pair' hpair' => hfits pair' (.tail pair hpair')
    have hlater :=
      @reads_draws { st with pen := .down, current := st.target (st.form.valuePair pair) } size
        rfl hfilling pairs hrest
    rw [PlotState.points_cons, List.getLast?_cons]
    exact ⟨.down, hnow.append hlater⟩

/-- The state after a point became the relocation origin. -/
def relocated (p : Point) : PlotState :=
  { PlotState.initial with pen := .down, current := p, origin := p }

/-- The origin is moved to in decimal form, and later pairs count from there. -/
theorem reads_relocation (size : Nat) (p : Point) :
    Reads size PlotState.initial (relocation (some p)) (relocated p.saturate)
      [.moveTo p.saturate] := by
  have hletter : Reads size PlotState.initial [0x66] PlotState.initial [] := reads_select rfl
  have hspace : Reads size PlotState.initial [Byte.space] PlotState.initial [] := reads_select rfl
  have hpair : Reads size PlotState.initial (NumberForm.ascii.writePair .absolute p)
      { PlotState.initial with pen := .down, current := p.saturate } [.moveTo p.saturate] :=
    reads_pair trivial trivial
  have horigin : Reads size { PlotState.initial with pen := .down, current := p.saturate } [0x65]
      (relocated p.saturate) [] := reads_select rfl
  exact hletter.append (hspace.append (hpair.append horigin))

/-- The body of a line moves to its first point and draws to the others. -/
theorem run_line {form : NumberForm} {mode : MoveMode}
    (hform : form = .binaryShort → mode = .incremental) {start : Option Point}
    {pairs : List Point}
    (hfits : ∀ pair ∈ pairs, form.Fits mode pair.x ∧ form.Fits mode pair.y) {body : Payload}
    (hbody : body.rest = line form mode start pairs) :
    (run body).1.calls = polyline (linePoints mode start (pairs.map form.valuePair)) ∧
      (run body).1.state.current =
        (linePoints mode start (pairs.map form.valuePair)).getLast?.getD Point.origin ∧
      (run body).1.error = none := by
  cases start with
  | none =>
    have hselect : Reads body.size PlotState.initial [selector form mode]
        (PlotState.initial.choose form mode) [] := reads_select (select?_selector _ hform)
    obtain ⟨pen, hpairs⟩ :=
      @reads_polyline (PlotState.initial.choose form mode) body.size rfl rfl pairs hfits
    have hread := (hselect.append hpairs).append (reads_select (select?_end _))
    rw [List.append_nil] at hread
    exact run_of_reads (by rw [hbody]; exact hread) rfl
  | some p =>
    have hselect : Reads body.size (relocated p.saturate) [selector form mode]
        ((relocated p.saturate).choose form mode) [] := reads_select (select?_selector _ hform)
    have hpairs :=
      @reads_draws ((relocated p.saturate).choose form mode) body.size rfl rfl pairs hfits
    have hread := ((reads_relocation body.size p).append
      (hselect.append hpairs)).append (reads_select (select?_end _))
    rw [List.append_nil] at hread
    rw [linePoints, Option.map_some, Option.toList_some, List.singleton_append,
      List.getLast?_cons]
    exact run_of_reads (by rw [hbody]; exact hread) rfl

end Plot

end GraphicsTerminal
