import GraphicsTerminal.Proofs.Graphics.PlotBodies

/-!
# Increments in packed form

Small distances can be written in one group of five bits or in three, negative ones as their
remainders.  Both forms draw the same, but for the least distance of one group: its group is
taken for 16, and not for -16.

Main definitions:

- {lit}`Plot.increments`: the body of a list of distances.
- {lit}`Plot.pairs`: the pairs of a list of numbers.
- {lit}`Plot.inGroup`: the distance that one group is taken for.

Main results:

- Theorem {lit}`Plot.run_increments`: increments draw a line along their running sums.
- Theorem {lit}`Plot.run_increments_iff`: the two forms draw the same exactly when no pair has
  the least distance.
- Theorem {lit}`Plot.run_least_increment`: the least distance is taken for its opposite.
-/

namespace GraphicsTerminal

namespace Plot

variable {size : Nat} {st : PlotState} {form : NumberForm} {mode : MoveMode} {values : List Int}

/-! ## Lists of numbers -/

/-- The pairs of a list of numbers; a last number without a second one makes no pair. -/
def pairs : List Int → List Point
  | [] => []
  | [_] => []
  | x :: y :: values => ⟨x, y⟩ :: pairs values

/-- The numbers of a list in a form. -/
def writeAll (form : NumberForm) (mode : MoveMode) (values : List Int) : List UInt8 :=
  values.flatMap fun v => form.write mode v Byte.space

/-- The body of a list of distances. -/
def increments (form : NumberForm) (values : List Int) : List UInt8 :=
  selector form .incremental :: writeAll form .incremental values ++ [0x5A]

theorem pairs_map (f : Int → Int) (values : List Int) :
    pairs (values.map f) = (pairs values).map fun pair => ⟨f pair.x, f pair.y⟩ := by
  induction values using pairs.induct with
  | case1 => rfl
  | case2 x => rfl
  | case3 x y values ih => simp [pairs, ih]

theorem of_mem_pairs {P : Int → Prop} (h : ∀ v ∈ values, P v) :
    ∀ pair ∈ pairs values, P pair.x ∧ P pair.y := by
  induction values using pairs.induct with
  | case1 => simp [pairs]
  | case2 x => simp [pairs]
  | case3 x y values ih =>
    intro pair hpair
    rcases List.mem_cons.1 hpair with rfl | hlater
    · exact ⟨h x (by simp), h y (by simp)⟩
    · exact ih (fun v hv => h v (by simp [hv])) pair hlater

/-- A packed number has no separator. -/
theorem write_packed (hform : form ≠ .ascii) (mode : MoveMode) (v : Int)
    (separator separator' : UInt8) :
    form.write mode v separator = form.write mode v separator' := by
  cases form with
  | ascii => exact absurd rfl hform
  | _ =>
    cases mode with
    | _ => rfl

/-- A packed number stands for itself. -/
theorem valuePair_packed (hform : form ≠ .ascii) : form.valuePair = id := by
  cases form with
  | ascii => exact absurd rfl hform
  | _ => rfl

/-- Packed numbers are pairs and perhaps a last number. -/
theorem exists_writeAll (hform : form ≠ .ascii) (mode : MoveMode) (values : List Int) :
    ∃ last : Option Int, (∀ v ∈ last, v ∈ values) ∧
      writeAll form mode values =
        (pairs values).flatMap (form.writePair mode) ++ writeAll form mode last.toList := by
  induction values using pairs.induct with
  | case1 => exact ⟨none, by simp, rfl⟩
  | case2 x => exact ⟨some x, by simp, rfl⟩
  | case3 x y values ih =>
    obtain ⟨last, hlast, hwrite⟩ := ih
    refine ⟨last, fun v hv => by simp [hlast v hv], ?_⟩
    have hsplit : writeAll form mode (x :: y :: values) =
        form.write mode x Byte.space ++ (form.write mode y Byte.space ++
          writeAll form mode values) := by
      simp [writeAll]
    rw [hsplit, hwrite, pairs, List.flatMap_cons, NumberForm.writePair,
      write_packed hform mode x Byte.space 0x2C]
    simp only [List.append_assoc]

/-! ## Reading increments -/

/-- The last letter of a body ends it. -/
theorem interpret_end (size : Nat) (st : PlotState) (first : Option Int) :
    interpret size st first [0x5A] = ⟨[], st, none, []⟩ := by
  rw [interpret_of_next (step_of_letter (select?_end st)), interpret]
  rfl

/-- A last number without a second one draws nothing. -/
theorem interpret_last {last : Option Int} (hfits : ∀ v ∈ last, st.form.Fits st.mode v) :
    interpret size st none (writeAll st.form st.mode last.toList ++ [0x5A]) =
      ⟨[], st, none, []⟩ := by
  cases last with
  | none => exact interpret_end size st none
  | some v =>
    have hwrite : writeAll st.form st.mode (some v).toList =
        st.form.write st.mode v Byte.space := List.flatMap_singleton _ _
    rw [hwrite, interpret_write (hfits v rfl) (by decide) rfl, interpret_end]
    rfl

/-- What was read stands, whether or not a last number follows it. -/
theorem interpret_of_reads {st' : PlotState} {front : List UInt8} {calls : List SurfaceCall}
    (h : Reads size st front st' calls) {last : Option Int}
    (hfits : ∀ v ∈ last, st'.form.Fits st'.mode v) :
    interpret size st none (front ++ (writeAll st'.form st'.mode last.toList ++ [0x5A])) =
      ⟨calls, st', none, []⟩ := by
  rw [h, interpret_last hfits, Outcome.after, List.append_nil]

/-- Increments draw a line along their running sums. -/
theorem run_increments (hform : form ≠ .ascii)
    (hfits : ∀ v ∈ values, form.Fits .incremental v) {body : Payload}
    (hbody : body.rest = increments form values) :
    (run body).1.calls = polyline (Point.origin.runningSums (pairs values)) ∧
      (run body).1.state.current =
        (Point.origin.runningSums (pairs values)).getLast?.getD Point.origin ∧
      (run body).1.error = none := by
  have hvalue : (pairs values).map form.valuePair = pairs values := by
    rw [valuePair_packed hform, List.map_id]
  have hpoints : (PlotState.initial.choose form .incremental).points (pairs values) =
      Point.origin.runningSums (pairs values) := congrArg Point.origin.runningSums hvalue
  -- The pairs are a line of their own; only the odd number behind them is new.
  obtain ⟨last, hlast, hwrite⟩ := exists_writeAll hform .incremental values
  have hselect : Reads body.size PlotState.initial [selector form .incremental]
      (PlotState.initial.choose form .incremental) [] :=
    reads_select (select?_selector _ fun _ => rfl)
  obtain ⟨pen, hpairs⟩ :=
    @reads_polyline (PlotState.initial.choose form .incremental) body.size rfl rfl (pairs values)
      (of_mem_pairs hfits)
  rw [hpoints] at hpairs
  have hsplit : body.rest = ([selector form .incremental] ++
      (pairs values).flatMap (form.writePair .incremental)) ++
        (writeAll form .incremental last.toList ++ [0x5A]) := by
    rw [hbody, increments, hwrite]
    simp only [List.cons_append, List.nil_append, List.append_assoc]
  have hread := (congrArg (interpret body.size PlotState.initial none) hsplit).trans
    (interpret_of_reads (hselect.append hpairs) fun v hv => hfits v (hlast v hv))
  exact run_of_interpret hread rfl

/-! ## One group and three -/

/-- The distance that one group is taken for. -/
def inGroup (v : Int) : Int := if v = -16 then 16 else v

theorem fits_inGroup {v : Int} (h : -16 ≤ v ∧ v ≤ 15) :
    NumberForm.binaryShort.Fits .incremental (inGroup v) := by
  simp only [NumberForm.Fits, inGroup]
  split <;> omega

/-- The least distance has the group of its opposite. -/
theorem write_inGroup (v : Int) (separator : UInt8) :
    NumberForm.binaryShort.write .incremental (inGroup v) separator =
      NumberForm.binaryShort.write .incremental v separator := by
  by_cases hleast : v = -16
  · subst hleast
    rfl
  · rw [inGroup, if_neg hleast]

theorem increments_inGroup (values : List Int) :
    increments .binaryShort (values.map inGroup) = increments .binaryShort values := by
  simp only [increments, writeAll, List.flatMap_map, write_inGroup]

/-- At no word do the least distance and its opposite lead to the same word. -/
theorem add_inGroup {a : Int} (hlow : Word.least ≤ a) (hhigh : a ≤ Word.greatest) (v : Int) :
    Word.add a (inGroup v) = Word.add a v ↔ v ≠ -16 := by
  by_cases hleast : v = -16
  · subst hleast
    simp only [Word.least, Word.greatest] at hlow hhigh
    simp only [inGroup, Word.add, Word.saturate, Word.clamp, Word.least, Word.greatest, if_pos]
    omega
  · simp [inGroup, hleast]

/-- A distance leads to words. -/
theorem isWord_offset (p : Point) (dx dy : Int) : (p.offset dx dy).IsWord where
  least_le_x := (Word.clamp_mem (by decide) _).1
  x_le := (Word.clamp_mem (by decide) _).2
  least_le_y := (Word.clamp_mem (by decide) _).1
  y_le := (Word.clamp_mem (by decide) _).2

theorem offset_inGroup {p : Point} (hp : p.IsWord) (d : Point) :
    p.offset (inGroup d.x) (inGroup d.y) = p.offset d.x d.y ↔ d.x ≠ -16 ∧ d.y ≠ -16 := by
  rw [Point.offset, Point.offset, Point.mk.injEq, add_inGroup hp.least_le_x hp.x_le,
    add_inGroup hp.least_le_y hp.y_le]

/-- The running sums differ from the first pair on that has the least distance. -/
theorem runningSums_inGroup {p : Point} (hp : p.IsWord) (ds : List Point) :
    p.runningSums (ds.map fun d => ⟨inGroup d.x, inGroup d.y⟩) = p.runningSums ds ↔
      ∀ d ∈ ds, d.x ≠ -16 ∧ d.y ≠ -16 := by
  induction ds generalizing p with
  | nil => simp [Point.runningSums]
  | cons d ds ih =>
    rw [List.map_cons, Point.runningSums, Point.runningSums, List.cons.injEq,
      offset_inGroup hp, List.forall_mem_cons]
    refine and_congr_right fun hd => ?_
    rw [(offset_inGroup hp d).2 hd]
    exact ih (isWord_offset p d.x d.y)

theorem polyline_injective : Function.Injective polyline := by
  intro ps qs h
  cases ps with
  | nil =>
    cases qs with
    | nil => rfl
    | cons q qs => cases h
  | cons p ps =>
    cases qs with
    | nil => cases h
    | cons q qs =>
      rw [polyline, polyline, List.cons.injEq, SurfaceCall.moveTo.injEq] at h
      have hrest := List.map_injective_iff.2 (fun _ _ => SurfaceCall.lineTo.inj) h.2
      rw [h.1, hrest]

/-- Increments of one group and of three each draw a line along the running sums of the
distances, those of one group with 16 for the least distance.  They draw the same exactly when
no pair has it. -/
theorem run_increments_iff (hvalues : ∀ v ∈ values, -16 ≤ v ∧ v ≤ 15) {short long : Payload}
    (hshort : short.rest = increments .binaryShort values)
    (hlong : long.rest = increments .binary values) :
    (run short).1.error = none ∧ (run long).1.error = none ∧
      (run short).1.calls = polyline (Point.origin.runningSums (pairs (values.map inGroup))) ∧
      (run long).1.calls = polyline (Point.origin.runningSums (pairs values)) ∧
      (((run short).1.calls = (run long).1.calls ∧
          (run short).1.state.current = (run long).1.state.current) ↔
        ∀ d ∈ pairs values, d.x ≠ -16 ∧ d.y ≠ -16) := by
  have horigin : Point.origin.IsWord := by
    constructor <;> decide
  have hfits : ∀ v ∈ values.map inGroup, NumberForm.binaryShort.Fits .incremental v := by
    intro v hv
    obtain ⟨w, hw, rfl⟩ := List.mem_map.1 hv
    exact fits_inGroup (hvalues w hw)
  have hfits' : ∀ v ∈ values, NumberForm.binary.Fits .incremental v := by
    intro v hv
    obtain ⟨hlow, hhigh⟩ := hvalues v hv
    exact ⟨by omega, by omega⟩
  obtain ⟨hcalls, hcurrent, herror⟩ := run_increments (by decide) hfits
    (hshort.trans (increments_inGroup values).symm)
  obtain ⟨hcalls', hcurrent', herror'⟩ := run_increments (by decide) hfits' hlong
  refine ⟨herror, herror', hcalls, hcalls', ?_⟩
  have hsums := runningSums_inGroup horigin (pairs values)
  rw [← pairs_map] at hsums
  rw [hcalls, hcalls', hcurrent, hcurrent', polyline_injective.eq_iff, ← hsums]
  refine and_iff_left_of_imp fun h => ?_
  rw [h]

/-- A step forth and back, and a last number without a second one. -/
theorem run_increments_forth_back :
    let values : List Int := [3, -1, 3, -1, -16]
    let short : Payload := ⟨#[0x2A, 0x70, 0x6A, 0x23, 0x3F, 0x23, 0x3F, 0x30, 0x5A], 2⟩
    let long : Payload := Payload.ofList (increments .binary values)
    (∀ v ∈ values, -16 ≤ v ∧ v ≤ 15) ∧ short.rest = increments .binaryShort values ∧
      long.rest = increments .binary values ∧
      (run short).1.calls = [.moveTo ⟨3, -1⟩, .lineTo ⟨6, -2⟩] ∧
      (run short).1.calls = (run long).1.calls ∧
      (run short).1.state.current = (run long).1.state.current := by
  intro values short long
  have hvalues : ∀ v ∈ values, -16 ≤ v ∧ v ≤ 15 := by decide
  have hshort : short.rest = increments .binaryShort values := by decide
  have hlong : long.rest = increments .binary values := by decide
  obtain ⟨-, -, hcalls, -, hsame⟩ := run_increments_iff hvalues hshort hlong
  exact ⟨hvalues, hshort, hlong, hcalls.trans (by decide), hsame.2 (by decide)⟩

/-- The least distance leads the opposite way when it is written in one group. -/
theorem run_least_increment :
    let values : List Int := [-16, 0]
    let short : Payload := ⟨#[0x2A, 0x70, 0x6A, 0x30, 0x20, 0x5A], 2⟩
    let long : Payload := ⟨#[0x2A, 0x70, 0x6B, 0x3F, 0x3F, 0x30, 0x20, 0x20, 0x20, 0x5A], 2⟩
    (∀ v ∈ values, -16 ≤ v ∧ v ≤ 15) ∧ short.rest = increments .binaryShort values ∧
      long.rest = increments .binary values ∧
      (run short).1.calls = [.moveTo ⟨16, 0⟩] ∧ (run long).1.calls = [.moveTo ⟨-16, 0⟩] ∧
      (run short).1.state.current = ⟨16, 0⟩ ∧ (run long).1.state.current = ⟨-16, 0⟩ := by
  intro values short long
  refine ⟨by decide, by decide, by decide, ?_⟩
  decide +kernel

end Plot

end GraphicsTerminal
