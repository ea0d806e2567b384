import GraphicsTerminal.Proofs.Graphics.PlotReading
import GraphicsTerminal.Proofs.Number.Grammar

/-!
# Regions of plot bodies

The letters that open and close a region cut a body into parts.  The strokes of a part that was
opened are followed by one call that hands over their points, and all other calls are strokes.
The strokes themselves are those of the body in which each such letter is one without effect.

Main definitions:

- {lit}`Plot.regionLetter?`: the letters that open and close regions.
- {lit}`Plot.Part`: the strokes between two such letters.
- {lit}`Plot.parts`: the parts of a body.
- {lit}`Payload.plain`: the body without regions.

Main results:

- Theorem {lit}`Plot.step_plain`: a step between the letters does not depend on regions.
- Theorem {lit}`Plot.interpret_calls`: the calls of a body are those of its parts.
- Theorem {lit}`Plot.interpret_plain`: the strokes of a body are those of the plain one.
- Theorem {lit}`Plot.run_regions`: the regions of a run.
-/

namespace GraphicsTerminal

namespace SurfaceCall

/-- The point of a stroke. -/
def strokePoint? : SurfaceCall → Option Point
  | moveTo point => some point
  | lineTo point => some point
  | _ => none

/-- The points of a region that is handed over. -/
def polygon? : SurfaceCall → Option (List Point)
  | fillPolygon points => some points
  | _ => none

end SurfaceCall

/-- The state behind a letter that opens a region, or closes one. -/
def PlotState.inRegion (st : PlotState) (opened : Bool) : PlotState :=
  { st.closed with filling := opened }

namespace Plot

/-! ## Parts -/

/-- A letter that opens a region, or closes it. -/
def regionLetter? (b : UInt8) : Option Bool :=
  match Byte.char (Byte.lower b) with
  | 's' => some true
  | 't' => some false
  | _ => none

/-- What is drawn from the start of a body, or from a letter that opens or closes a region, up
to the next such letter. -/
structure Part where
  /-- The letter opened a region. -/
  opened : Bool
  strokes : List SurfaceCall
deriving DecidableEq, Repr

/-- Points are handed over if there are any and a region is open. -/
def handOver (opened : Bool) (points : List Point) : List SurfaceCall :=
  if opened && !points.isEmpty then [.fillPolygon points] else []

namespace Part

/-- The points of the strokes. -/
def points (part : Part) : List Point := part.strokes.filterMap SurfaceCall.strokePoint?

/-- The strokes, and the points of a region behind them. -/
def calls (part : Part) : List SurfaceCall := part.strokes ++ handOver part.opened part.points

end Part

/-- The strokes up to the next letter that opens or closes a region, and the parts that begin
at such letters. -/
def partsFrom (size : Nat) (st : PlotState) (first : Option Int) :
    List UInt8 → List SurfaceCall × List Part
  | [] => ([], [])
  | b :: tail =>
    match _ : step size st first b tail with
    | .halt _ => ([], [])
    | .next st' first' calls rest =>
      let later := partsFrom size st' first' rest
      match regionLetter? b with
      | some opens => ([], ⟨opens, later.1⟩ :: later.2)
      | none => (calls ++ later.1, later.2)
termination_by bytes => bytes.length
decreasing_by exact step_rest_lt ‹_›

/-- The parts of a body. -/
def parts (body : Payload) : List Part :=
  let found := partsFrom body.size .initial none body.rest
  ⟨false, found.1⟩ :: found.2

/-- In place of a letter that opens or closes a region, the letter without effect. -/
def plainLetter (b : UInt8) : UInt8 := if (regionLetter? b).isSome then 0x63 else b

end Plot

/-- The body in which no letter opens or closes a region. -/
def Payload.plain (body : Payload) : Payload :=
  { body with bytes := body.bytes.map Plot.plainLetter }

namespace Plot

variable {size : Nat} {st st' : PlotState} {first first' : Option Int} {b : UInt8}
  {tail rest : List UInt8} {calls : List SurfaceCall} {error : PlotError}

/-! ## Letters of regions -/

/-- The letters of regions are letters, of either case. -/
theorem isLetter_of_regionLetter {opens : Bool} (h : regionLetter? b = some opens) :
    Byte.isLetter b = true := by
  have hcode (letter : UInt8) (hchar : Byte.char (Byte.lower b) = Byte.char letter)
      (hletter : Byte.isLetter letter = true) : Byte.isLetter b = true := by
    have hlower : Byte.lower b = letter := UInt8.toNat_inj.1 (congrArg Char.toNat hchar)
    cases hupper : Byte.isUpper b with
    | true => rw [Byte.isLetter, hupper, Bool.true_or]
    | false =>
      have hsame : Byte.lower b = b := by rw [Byte.lower, hupper, if_neg Bool.false_ne_true]
      rwa [← hsame, hlower]
  unfold regionLetter? at h
  split at h
  · next hchar => exact hcode 0x73 hchar rfl
  · next hchar => exact hcode 0x74 hchar rfl
  · cases h

/-- A letter of a region hands an open region over, and opens or closes one. -/
theorem select?_of_regionLetter {opens : Bool} (h : regionLetter? b = some opens) :
    st.select? (Byte.lower b) = some (st.inRegion opens, st.polygonCalls) := by
  unfold regionLetter? at h
  split at h
  · next hchar =>
    cases h
    simp only [PlotState.select?, hchar]
    rfl
  · next hchar =>
    cases h
    simp only [PlotState.select?, hchar]
    rfl
  · cases h

/-- A letter of a region hands over the polygon and keeps a number that waits for its pair. -/
theorem step_of_regionLetter {opens : Bool} (h : regionLetter? b = some opens) :
    step size st first b tail = .next (st.inRegion opens) first st.polygonCalls tail :=
  step_of_letter (select?_of_regionLetter h)

/-- What selects nothing is no letter of a region. -/
theorem regionLetter?_of_select?_none (h : st.select? (Byte.lower b) = none) :
    regionLetter? b = none := by
  refine Option.eq_none_iff_forall_ne_some.2 fun opens hb => ?_
  rw [select?_of_regionLetter hb] at h
  cases h

/-- Every other letter selects the same without regions. -/
theorem select?_closed (h : regionLetter? b = none) :
    st.closed.select? (Byte.lower b) =
      (st.select? (Byte.lower b)).map fun r => (r.1.closed, r.2) := by
  unfold PlotState.select?
  split
  case h_14 hchar | h_15 hchar => simp [regionLetter?, hchar] at h
  case h_16 | h_17 =>
    have hform : st.closed.form = st.form := rfl
    rw [hform]
    split <;> rfl
  all_goals rfl

/-- Every other letter draws nothing and keeps the region. -/
theorem select?_keeps (h : regionLetter? b = none)
    (hselect : st.select? (Byte.lower b) = some (st', calls)) :
    calls = [] ∧ st'.filling = st.filling ∧ st'.polygon = st.polygon := by
  unfold PlotState.select? at hselect
  split at hselect
  case h_14 hchar | h_15 hchar => simp [regionLetter?, hchar] at h
  case h_16 | h_17 =>
    obtain ⟨-, hselect⟩ := Option.ite_none_right_eq_some.1 hselect
    cases hselect
    exact ⟨rfl, rfl, rfl⟩
  case h_18 => cases hselect
  all_goals
    cases hselect
    exact ⟨rfl, rfl, rfl⟩

/-! ## Strokes -/

/-- A stroke goes to the same point and makes the same call whether a region is open or not. -/
theorem stroke_closed (st : PlotState) (pair : Point) (chosen : Bool) :
    st.closed.stroke pair chosen =
      ((st.stroke pair chosen).1.closed, (st.stroke pair chosen).2) := by
  have hpen : st.closed.pen = st.pen := rfl
  unfold PlotState.stroke
  simp only [hpen]
  cases st.pen with
  | up => rfl
  | down => rfl

/-- A stroke goes to the current point, which a region takes up. -/
theorem stroke_region (st : PlotState) (pair : Point) (chosen : Bool) :
    (st.stroke pair chosen).1.filling = st.filling ∧
      (st.stroke pair chosen).1.polygon =
        (if st.filling then st.polygon.push (st.target pair) else st.polygon) ∧
      (st.stroke pair chosen).2.strokePoint? = some (st.target pair) := by
  unfold PlotState.stroke
  cases st.pen with
  | up => exact ⟨rfl, rfl, rfl⟩
  | down => exact ⟨rfl, rfl, rfl⟩

/-- Only strokes have a point to go to. -/
theorem isStroke_of_strokePoint {call : SurfaceCall} {point : Point}
    (h : call.strokePoint? = some point) : call.isStroke = true := by
  cases call with
  | moveTo p => rfl
  | lineTo p => rfl
  | _ => cases h

/-- What a step between the letters of regions does to a region: its strokes are taken up. -/
structure Strokes (st st' : PlotState) (calls : List SurfaceCall) : Prop where
  filling : st'.filling = st.filling
  polygon : st.filling = true →
    st'.polygon.toList = st.polygon.toList ++ calls.filterMap SurfaceCall.strokePoint?
  isStroke : ∀ call ∈ calls, call.isStroke = true

/-- A step without a call takes nothing up. -/
theorem Strokes.refl (st : PlotState) : Strokes st st [] where
  filling := rfl
  polygon := fun _ => (List.append_nil _).symm
  isStroke := fun _ hcall => by cases hcall

/-- A pair is one stroke, with the pen chosen before it or not. -/
theorem strokes_stroke (st : PlotState) (pen : Pen) (pair : Point) (chosen : Bool) :
    Strokes st ({ st with pen := pen }.stroke pair chosen).1
      [({ st with pen := pen }.stroke pair chosen).2] := by
  obtain ⟨hfilling, hpolygon, hpoint⟩ := stroke_region { st with pen := pen } pair chosen
  refine ⟨hfilling, fun hopen => ?_, ?_⟩
  · rw [hpolygon, if_pos hopen, Array.toList_push, List.filterMap_cons_some hpoint]
    rfl
  · simpa using isStroke_of_strokePoint hpoint

/-- Every step that is no letter of a region draws strokes alone. -/
theorem Takes.strokes (h : Takes st first b tail st' first' calls rest)
    (hb : regionLetter? b = none) : Strokes st st' calls := by
  cases h with
  | letter hselect =>
    obtain ⟨rfl, hfilling, hpolygon⟩ := select?_keeps hb hselect
    refine ⟨hfilling, fun _ => ?_, fun _ hcall => by cases hcall⟩
    rw [hpolygon]
    exact (List.append_nil _).symm
  | lineEnd hselect hend htail => exact .refl st
  | waiting hselect hvisible hread hfirst => exact .refl st
  | pair hselect hvisible hread hfirst hapart => exact strokes_stroke st st.pen _ false
  | penPair hselect hvisible hread hfirst hpen => exact strokes_stroke st _ _ true

/-! ## The calls of the parts -/

/-- The polygon of a state is handed over where its region is open and has points. -/
theorem polygonCalls_eq (st : PlotState) :
    st.polygonCalls = handOver st.filling st.polygon.toList := by
  simp [PlotState.polygonCalls, handOver]

/-- No part goes on behind an error. -/
theorem partsFrom_of_halt (h : step size st first b tail = .halt error) :
    partsFrom size st first (b :: tail) = ([], []) := by
  rw [partsFrom]
  split
  · rfl
  · rename_i hnext
    rw [h] at hnext
    cases hnext

/-- A letter of a region begins a part; what any other step draws belongs to the part that
is open. -/
theorem partsFrom_of_next (h : step size st first b tail = .next st' first' calls rest) :
    partsFrom size st first (b :: tail) =
      match regionLetter? b with
      | some opens =>
        ([], ⟨opens, (partsFrom size st' first' rest).1⟩ :: (partsFrom size st' first' rest).2)
      | none => (calls ++ (partsFrom size st' first' rest).1,
          (partsFrom size st' first' rest).2) := by
  rw [partsFrom]
  split
  · rename_i hhalt
    rw [h] at hhalt
    cases hhalt
  · rename_i hnext
    rw [h] at hnext
    cases hnext
    rfl

/-- The calls of a body are those of its parts: the first part goes on with the points that
were collected before, and the last one is handed over at the end. -/
theorem interpret_calls (size : Nat) (st : PlotState) (first : Option Int)
    (bytes : List UInt8) :
    (interpret size st first bytes).calls ++
        (interpret size st first bytes).state.polygonCalls =
      (partsFrom size st first bytes).1 ++
        handOver st.filling (st.polygon.toList ++
          (partsFrom size st first bytes).1.filterMap SurfaceCall.strokePoint?) ++
        (partsFrom size st first bytes).2.flatMap Part.calls := by
  fun_induction interpret size st first bytes with
  | case1 st first => simp [partsFrom, polygonCalls_eq]
  | case2 st first b tail error hstep => simp [partsFrom_of_halt hstep, polygonCalls_eq]
  | case3 st first b tail st' first' calls rest hstep later ih =>
    change calls ++ (interpret size st' first' rest).calls ++
      (interpret size st' first' rest).state.polygonCalls = _
    rw [List.append_assoc, ih, partsFrom_of_next hstep]
    cases hb : regionLetter? b with
    | some opens =>
      rw [step_of_regionLetter hb] at hstep
      cases hstep
      simp [Part.calls, Part.points, PlotState.inRegion, PlotState.closed, polygonCalls_eq]
    | none =>
      obtain ⟨hfilling, hpolygon, -⟩ := (step_eq_next_iff.1 hstep).strokes hb
      rw [hfilling]
      cases hopen : st.filling with
      | false => simp [handOver]
      | true => simp [hpolygon hopen]

/-! ## The plain body -/

/-- The letters of regions are replaced by the one without effect. -/
theorem plainLetter_of_some {opens : Bool} (h : regionLetter? b = some opens) :
    plainLetter b = 0x63 := by
  rw [plainLetter, h]
  rfl

theorem plainLetter_of_none (h : regionLetter? b = none) : plainLetter b = b := by
  rw [plainLetter, h]
  rfl

/-- No letter of a region is part of a number. -/
theorem spares_plainLetter : Decimal.Spares plainLetter := by
  intro b
  cases hb : regionLetter? b with
  | none => exact .inl (plainLetter_of_none hb)
  | some opens =>
    rw [plainLetter_of_some hb]
    exact .inr ⟨Decimal.stops_of_isLetter (isLetter_of_regionLetter hb),
      Decimal.stops_of_isLetter rfl⟩

/-- No letter is a group of a packed number. -/
theorem isGroup_of_isLetter (h : Byte.isLetter b = true) : Packed.isGroup b = false := by
  simp only [Byte.isLetter, Byte.isUpper, Byte.isLower, Bool.or_eq_true, Bool.and_eq_true,
    decide_eq_true_eq, UInt8.le_iff_toNat_le, UInt8.reduceToNat] at h
  simp only [Packed.isGroup, Packed.lowest, Packed.highest, Bool.and_eq_false_iff,
    decide_eq_false_iff_not, UInt8.le_iff_toNat_le, UInt8.reduceToNat]
  omega

/-- No group of a packed number is a letter of a region. -/
theorem regionLetter?_of_isGroup (h : Packed.isGroup b = true) : regionLetter? b = none := by
  refine Option.eq_none_iff_forall_ne_some.2 fun opens hb => ?_
  rw [isGroup_of_isLetter (isLetter_of_regionLetter hb)] at h
  cases h

/-- The plain body has its packed numbers where the body has them. -/
theorem isGroup_plainLetter (b : UInt8) : Packed.isGroup (plainLetter b) = Packed.isGroup b := by
  cases hb : regionLetter? b with
  | none => rw [plainLetter_of_none hb]
  | some opens =>
    rw [plainLetter_of_some hb, isGroup_of_isLetter (isLetter_of_regionLetter hb)]
    rfl

/-- A letter of a region does not choose a pen. -/
theorem penLetter?_of_regionLetter {opens : Bool} (h : regionLetter? b = some opens) :
    PlotState.penLetter? b = none := by
  unfold regionLetter? at h
  split at h
  · next hchar => simp only [PlotState.penLetter?, hchar]; rfl
  · next hchar => simp only [PlotState.penLetter?, hchar]; rfl
  · cases h

/-- The plain body has its letters for pens where the body has them. -/
theorem penLetter?_plainLetter (b : UInt8) :
    PlotState.penLetter? (plainLetter b) = PlotState.penLetter? b := by
  cases hb : regionLetter? b with
  | none => rw [plainLetter_of_none hb]
  | some opens =>
    rw [plainLetter_of_some hb, penLetter?_of_regionLetter hb]
    rfl

/-- Packed numbers are read in the same way in the plain body. -/
theorem read?_map_plainLetter (count : Nat) (bytes : List UInt8) :
    Packed.read? count (bytes.map plainLetter) =
      (Packed.read? count bytes).map fun r => (r.1, r.2.map plainLetter) := by
  have hall : (((bytes.map plainLetter).take count).all Packed.isGroup) =
      ((bytes.take count).all Packed.isGroup) := by
    rw [← List.map_take, List.all_map, Function.comp_def]
    simp only [isGroup_plainLetter]
  have hlength : ((bytes.map plainLetter).take count).length = (bytes.take count).length := by
    rw [← List.map_take, List.length_map]
  simp only [Packed.read?, hall, hlength]
  split
  · next hgroups =>
    have hsame : ∀ b ∈ bytes.take count, plainLetter b = id b := fun b hb =>
      plainLetter_of_none (regionLetter?_of_isGroup (List.all_eq_true.1 hgroups.2 b hb))
    rw [← List.map_take, ← List.map_drop, List.map_congr_left hsame, List.map_id]
    rfl
  · rfl

/-- A number is read in the same way without regions, whatever the form. -/
theorem readNumber?_plain (st : PlotState) (bytes : List UInt8) :
    st.closed.readNumber? (bytes.map plainLetter) =
      (st.readNumber? bytes).map fun r => (r.1, r.2.1, r.2.2.map plainLetter) := by
  have hform : st.closed.form = st.form := rfl
  have hmode : st.closed.mode = st.mode := rfl
  unfold PlotState.readNumber?
  rw [hform, hmode, Decimal.read?_map spares_plainLetter]
  simp only [read?_map_plainLetter]
  split <;> simp only [Option.map_map] <;> rfl

/-- A step without regions. -/
def Step.plain : Step → Step
  | .next state first calls rest => .next state.closed first calls (rest.map plainLetter)
  | .halt error => .halt error

/-- A number does the same without regions: it waits for its pair, or the pair is drawn. -/
theorem number_plain (v : Int) (glued : Bool) (rest : List UInt8) :
    number st.closed first v glued (rest.map plainLetter) =
      (number st first v glued rest).plain := by
  cases first with
  | none => rfl
  | some x =>
    have hletter : (rest.map plainLetter).head?.bind PlotState.penLetter? =
        rest.head?.bind PlotState.penLetter? := by
      cases rest with
      | nil => rfl
      | cons c rest => exact penLetter?_plainLetter c
    have hpen (pen : Pen) :
        ({ st.closed with pen := pen } : PlotState) = ({ st with pen := pen } : PlotState).closed :=
      rfl
    simp only [number, hletter, hpen, stroke_closed, ← List.map_tail]
    split <;> rfl

/-- A step between the letters of regions does the same without regions. -/
theorem step_plain (size : Nat) (st : PlotState) (first : Option Int) (tail : List UInt8)
    (hb : regionLetter? b = none) :
    step size st.closed first b (tail.map plainLetter) = (step size st first b tail).plain := by
  have hread := readNumber?_plain st (b :: tail)
  rw [List.map_cons, plainLetter_of_none hb] at hread
  unfold step
  simp only [select?_closed hb, hread]
  cases st.select? (Byte.lower b) with
  | some r => rfl
  | none =>
    simp only [Option.map_none, List.isEmpty_map, offset, List.length_map]
    split_ifs with hcontrol hend
    · rfl
    · rfl
    · cases st.readNumber? (b :: tail) with
      | none => rfl
      | some r => exact number_plain r.1 r.2.1 r.2.2

/-- The plain body draws the strokes of all parts, and it ends as the body with regions does. -/
theorem interpret_plain (size : Nat) (st : PlotState) (first : Option Int)
    (bytes : List UInt8) :
    interpret size st.closed first (bytes.map plainLetter) =
      { calls := (partsFrom size st first bytes).1 ++
          (partsFrom size st first bytes).2.flatMap Part.strokes
        state := (interpret size st first bytes).state.closed
        error := (interpret size st first bytes).error
        rest := (interpret size st first bytes).rest.map plainLetter } := by
  fun_induction interpret size st first bytes with
  | case1 st first => simp [interpret, partsFrom]
  | case2 st first b tail error hstep =>
    have hb : regionLetter? b = none := by
      refine Option.eq_none_iff_forall_ne_some.2 fun opens hb => ?_
      rw [step_of_regionLetter hb] at hstep
      cases hstep
    have hplain := step_plain size st first tail hb
    rw [hstep] at hplain
    rw [List.map_cons, plainLetter_of_none hb, interpret_of_halt hplain, partsFrom_of_halt hstep]
    simp
  | case3 st first b tail st' first' calls rest hstep later ih =>
    rw [partsFrom_of_next hstep, List.map_cons]
    cases hb : regionLetter? b with
    | some opens =>
      rw [step_of_regionLetter hb] at hstep
      cases hstep
      have hletter : step size st.closed first 0x63 (tail.map plainLetter) =
          .next st.closed first [] (tail.map plainLetter) := step_of_letter rfl
      rw [plainLetter_of_some hb, interpret_of_next hletter]
      exact congrArg (Outcome.after []) ih
    | none =>
      have hplain := step_plain size st first tail hb
      rw [hstep] at hplain
      rw [plainLetter_of_none hb, interpret_of_next hplain, ih]
      simp only [Outcome.after, List.append_assoc]
      rfl

/-! ## The letters of the parts -/

/-- A byte that may stand in a number is no letter of a region. -/
theorem regionLetter?_of_stops {c : UInt8} (h : ¬ Decimal.Stops c) : regionLetter? c = none :=
  Option.eq_none_iff_forall_ne_some.2 fun _ hc =>
    h (Decimal.stops_of_isLetter (isLetter_of_regionLetter hc))

/-- A number has no letter of a region. -/
theorem exists_number {bytes : List UInt8} {v : Int} {glued : Bool}
    (h : st.readNumber? bytes = some (v, glued, rest)) :
    ∃ number, bytes = number ++ rest ∧ number.filterMap regionLetter? = [] := by
  simp only [List.filterMap_eq_nil_iff]
  rcases PlotState.readNumber?_cases h with ⟨r, hread, rfl, -⟩ | ⟨count, n, hread, -⟩
  · obtain ⟨w, hbytes, -, -⟩ := Decimal.exists_written hread
    exact ⟨w.bytes, hbytes, fun c hc =>
      regionLetter?_of_stops (Decimal.not_stops_of_mem_bytes hc)⟩
  · unfold Packed.read? at hread
    simp only [Option.ite_none_right_eq_some, Option.some.injEq, Prod.mk.injEq] at hread
    obtain ⟨⟨-, hgroups⟩, -, rfl⟩ := hread
    exact ⟨_, (List.take_append_drop _ bytes).symm, fun c hc =>
      regionLetter?_of_isGroup (List.all_eq_true.1 hgroups c hc)⟩

/-- A step takes a letter of a region alone, and no such letter otherwise. -/
theorem Takes.exists_taken (h : Takes st first b tail st' first' calls rest) :
    ∃ taken, b :: tail = taken ++ rest ∧
      taken.filterMap regionLetter? = (regionLetter? b).toList := by
  have hone : [b].filterMap regionLetter? = (regionLetter? b).toList := by
    cases hb : regionLetter? b with
    | none => exact List.filterMap_cons_none hb
    | some opens => exact List.filterMap_cons_some hb
  cases h with
  | letter hselect => exact ⟨[b], rfl, hone⟩
  | lineEnd hselect hend htail => exact ⟨[b], rfl, hone⟩
  | waiting hselect hvisible hread hfirst =>
    rw [regionLetter?_of_select?_none hselect]
    exact exists_number hread
  | pair hselect hvisible hread hfirst hapart =>
    rw [regionLetter?_of_select?_none hselect]
    exact exists_number hread
  | @penPair x y pen letter rest hselect hvisible hread hfirst hpen =>
    rw [regionLetter?_of_select?_none hselect]
    obtain ⟨number, hbytes, hnone⟩ := exists_number hread
    have hletter : regionLetter? letter = none := by
      refine Option.eq_none_iff_forall_ne_some.2 fun opens hregion => ?_
      rw [penLetter?_of_regionLetter hregion] at hpen
      cases hpen
    refine ⟨number ++ [letter], by rw [hbytes, List.append_assoc]; rfl, ?_⟩
    rw [List.filterMap_append, hnone, List.filterMap_cons_none hletter]
    rfl

/-- The parts begin at the letters of regions in front of what is not interpreted. -/
theorem exists_interpreted (size : Nat) (st : PlotState) (first : Option Int)
    (bytes : List UInt8) :
    ∃ front, bytes = front ++ (interpret size st first bytes).rest ∧
      (partsFrom size st first bytes).2.map Part.opened = front.filterMap regionLetter? := by
  fun_induction interpret size st first bytes with
  | case1 st first => exact ⟨[], rfl, by simp [partsFrom]⟩
  | case2 st first b tail error hstep => exact ⟨[], rfl, by simp [partsFrom_of_halt hstep]⟩
  | case3 st first b tail st' first' calls rest hstep later ih =>
    obtain ⟨front, hrest, hopened⟩ := ih
    obtain ⟨taken, htaken, hletters⟩ := (step_eq_next_iff.1 hstep).exists_taken
    refine ⟨taken ++ front, by rw [List.append_assoc, ← hrest, htaken], ?_⟩
    rw [List.filterMap_append, hletters, ← hopened, partsFrom_of_next hstep]
    cases regionLetter? b <;> rfl

/-- The parts have moves and draws only. -/
theorem isStroke_of_mem_partsFrom (size : Nat) (st : PlotState) (first : Option Int)
    (bytes : List UInt8) :
    ∀ call ∈ (partsFrom size st first bytes).1 ++
      (partsFrom size st first bytes).2.flatMap Part.strokes, call.isStroke = true := by
  fun_induction interpret size st first bytes with
  | case1 st first => simp [partsFrom]
  | case2 st first b tail error hstep => simp [partsFrom_of_halt hstep]
  | case3 st first b tail st' first' calls rest hstep later ih =>
    rw [partsFrom_of_next hstep]
    cases hb : regionLetter? b with
    | some opens => exact ih
    | none =>
      have hstrokes := ((step_eq_next_iff.1 hstep).strokes hb).isStroke
      intro call hcall
      simp only [List.append_assoc, List.mem_append] at hcall ih
      rcases hcall with hnow | hlater
      · exact hstrokes call hnow
      · exact ih call hlater

/-! ## The regions of a run -/

/-- The strokes of a part are moves and lines. -/
theorem isStroke_of_mem_parts {body : Payload} {part : Part} {call : SurfaceCall}
    (hpart : part ∈ parts body) (hcall : call ∈ part.strokes) : call.isStroke = true := by
  refine isStroke_of_mem_partsFrom body.size .initial none body.rest call ?_
  rw [List.mem_append]
  rcases List.mem_cons.1 hpart with rfl | hlater
  · exact .inl hcall
  · exact .inr (List.mem_flatMap_of_mem hlater hcall)

/-- Without the calls that hand points over, the strokes of the parts are left. -/
theorem filter_calls {parts : List Part}
    (h : ∀ part ∈ parts, ∀ call ∈ part.strokes, call.isStroke = true) :
    (parts.flatMap Part.calls).filter SurfaceCall.isStroke = parts.flatMap Part.strokes := by
  induction parts with
  | nil => rfl
  | cons part parts ih =>
    have hnone : (handOver part.opened part.points).filter SurfaceCall.isStroke = [] := by
      unfold handOver
      split <;> rfl
    rw [List.flatMap_cons, List.flatMap_cons, List.filter_append, Part.calls, List.filter_append,
      hnone, List.append_nil, List.filter_eq_self.2 (h part (.head parts)),
      ih fun part' hpart' => h part' (.tail part hpart')]

/-- The calls that hand points over are those of the parts that opened a region and have
points. -/
theorem filterMap_calls {parts : List Part}
    (h : ∀ part ∈ parts, ∀ call ∈ part.strokes, call.isStroke = true) :
    (parts.flatMap Part.calls).filterMap SurfaceCall.polygon? =
      (parts.filter fun part => part.opened && !part.points.isEmpty).map Part.points := by
  induction parts with
  | nil => rfl
  | cons part parts ih =>
    have hnone : part.strokes.filterMap SurfaceCall.polygon? = [] := by
      refine List.filterMap_eq_nil_iff.2 fun call hcall => ?_
      have hstroke := h part (.head parts) call hcall
      cases call with
      | fillPolygon points => cases hstroke
      | _ => rfl
    rw [List.flatMap_cons, List.filterMap_append, Part.calls, List.filterMap_append, hnone,
      List.nil_append, ih fun part' hpart' => h part' (.tail part hpart'), List.filter_cons,
      handOver]
    split <;> rfl

/-- The calls of a run are those of its parts. -/
theorem run_calls (body : Payload) : (run body).1.calls = (parts body).flatMap Part.calls := by
  refine (interpret_calls body.size .initial none body.rest).trans ?_
  simp [parts, Part.calls, PlotState.initial, handOver]

/-- The plain body draws the strokes of all parts, and it is abandoned where the body is. -/
theorem run_plain (body : Payload) :
    (run body.plain).1.calls = (parts body).flatMap Part.strokes ∧
      (run body.plain).1.error = (run body).1.error := by
  have hrest : body.plain.rest = body.rest.map plainLetter := by
    simp [Payload.plain, Payload.rest]
  have hsize : body.plain.size = body.size := Array.size_map
  have hplain : interpret body.plain.size .initial none body.plain.rest =
      interpret body.size PlotState.initial.closed none (body.rest.map plainLetter) := by
    rw [hrest, hsize]
    rfl
  rw [run, hplain, interpret_plain]
  exact ⟨List.append_nil _, rfl⟩

/-- The calls of a run are those of its parts: the moves and draws since a letter that opened a
region are followed by one call with their points, if there are any, and no other call hands
points over.  The moves and draws themselves are those of the body in which each letter that
opens or closes a region is one without effect.  No region stays open. -/
theorem run_regions (body : Payload) :
    let outcome := (run body).1
    (outcome.calls = (parts body).flatMap Part.calls ∧
        ∀ part ∈ parts body, ∀ call ∈ part.strokes, call.isStroke = true) ∧
      (∃ front, body.rest = front ++ outcome.rest ∧
        (parts body).map Part.opened = false :: front.filterMap regionLetter?) ∧
      outcome.calls.filterMap SurfaceCall.polygon? =
        ((parts body).filter fun part => part.opened && !part.points.isEmpty).map Part.points ∧
      (outcome.calls.filter SurfaceCall.isStroke = (parts body).flatMap Part.strokes ∧
        outcome.calls.filter SurfaceCall.isStroke = (run body.plain).1.calls ∧
        (run body.plain).1.error = outcome.error) ∧
      outcome.state.filling = false ∧ outcome.state.polygon = #[] := by
  intro outcome
  have hcalls : outcome.calls = _ := run_calls body
  have hstrokes : ∀ part ∈ parts body, ∀ call ∈ part.strokes, call.isStroke = true :=
    fun part hpart call hcall => isStroke_of_mem_parts hpart hcall
  have hfiltered : outcome.calls.filter SurfaceCall.isStroke =
      (parts body).flatMap Part.strokes := by
    rw [hcalls, filter_calls hstrokes]
  obtain ⟨hplain, herror⟩ := run_plain body
  obtain ⟨front, hfront, hopened⟩ := exists_interpreted body.size .initial none body.rest
  exact ⟨⟨hcalls, hstrokes⟩, ⟨front, hfront, congrArg (false :: ·) hopened⟩,
    by rw [hcalls, filterMap_calls hstrokes], ⟨hfiltered, hfiltered.trans hplain.symm, herror⟩,
    rfl, rfl⟩

/-- A region that is closed between the two numbers of a pair does not take the pair up. -/
example : (parts ⟨#[0x2A, 0x70, 0x73, 0x31, 0x2C, 0x32, 0x20, 0x33, 0x74, 0x2C, 0x34, 0x5A], 2⟩) =
    [⟨false, []⟩, ⟨true, [.moveTo ⟨1, 2⟩]⟩, ⟨false, [.lineTo ⟨3, 4⟩]⟩] := by
  cbv

end Plot

end GraphicsTerminal
