import GraphicsTerminal.Proofs.Graphics.PlotBodies
import GraphicsTerminal.Proofs.Terminal.Sequences

/-!
# Plot sequences through a terminal

A plot body that is written in a sequence reaches the surface as it is: none of its
bytes ends the sequence early or is taken for something else.  So a terminal that is
fed a drawing makes its strokes, and one that is fed a line draws it, whether its pairs
are decimal or packed.

Main definitions:

- {lit}`Plot.sequence`: the sequence of a plot body.
- {lit}`Plot.isInner`: a byte that can stand inside of a plot body.

Main results:

- Theorem {lit}`Terminal.feed_plot`: the sequence of a plot body makes the calls of the
  body.
- Theorem {lit}`Terminal.feed_drawing`: every drawing can be transmitted.
- Theorem {lit}`Terminal.feed_line`: a line can be transmitted in decimal and in packed
  form.
- Theorem {lit}`Plot.line_stops_at_greatest`: a coordinate does not pass the greatest word.
-/

namespace GraphicsTerminal

namespace Plot

/-! ## The bytes of bodies -/

/-- The sequence of a plot body. -/
def sequence (body : List UInt8) : List UInt8 := Byte.esc :: 0x2A :: 0x70 :: body

/-- A byte that can stand inside of a plot body: it is a small letter, or it can be part
of a number. -/
def isInner (b : UInt8) : Bool := Byte.isLower b || Packed.isGroup b

variable {b : UInt8}

theorem isInner_of_isGroup (h : Packed.isGroup b = true) : isInner b = true := by
  rw [isInner, h, Bool.or_true]

/-- Such a byte does not end the sequence and is no enquiry. -/
theorem passes_of_isInner (h : isInner b = true) :
    Parser.isTerminator b = false ∧ b ≠ Byte.esc ∧ b ≠ Byte.enq := by
  simp only [isInner, Byte.isLower, Packed.isGroup, Packed.lowest, Packed.highest,
    Bool.or_eq_true, Bool.and_eq_true, decide_eq_true_eq] at h
  simp only [Parser.isTerminator, Byte.isUpper, Byte.esc, Byte.enq, Byte.cr, Byte.lf, ne_eq,
    ← UInt8.toNat_inj, Bool.or_eq_false_iff, Bool.and_eq_false_iff, decide_eq_false_iff_not,
    beq_eq_false_iff_ne, UInt8.le_iff_toNat_le, UInt8.reduceToNat] at h ⊢
  omega

/-- The bytes of a stroke stand inside of a body. -/
theorem isInner_of_mem_bytes {s : Stroke} (h : b ∈ s.bytes) : isInner b = true := by
  rw [Stroke.bytes, List.mem_append, List.mem_append, List.mem_cons, List.mem_singleton] at h
  rcases h with (hx | rfl | hy) | rfl
  · exact isInner_of_isGroup (isGroup_of_mem_bytes hx).1
  · rfl
  · exact isInner_of_isGroup (isGroup_of_mem_bytes hy).1
  · cases s.pen with
    | up => rfl
    | down => rfl

theorem isInner_selector (form : NumberForm) (mode : MoveMode) :
    isInner (selector form mode) = true := by
  cases form with
  | _ =>
    cases mode with
    | _ => rfl

theorem isInner_of_mem_relocation {start : Option Point} (h : b ∈ relocation start) :
    isInner b = true := by
  cases start with
  | none => cases h
  | some p =>
    rcases List.mem_cons.1 h with rfl | h
    · rfl
    · rcases List.mem_cons.1 h with rfl | h
      · rfl
      · rcases List.mem_append.1 h with hpair | hlast
        · exact isInner_of_isGroup (NumberForm.isGroup_of_mem_writePair hpair)
        · rw [List.mem_singleton.1 hlast]
          rfl

/-- A drawing before its end. -/
theorem isInner_strokes (strokes : List Stroke) :
    ∀ b ∈ 0x66 :: strokes.flatMap Stroke.bytes, isInner b = true := by
  intro b hb
  rcases List.mem_cons.1 hb with rfl | hb
  · rfl
  · obtain ⟨s, -, hs⟩ := List.mem_flatMap.1 hb
    exact isInner_of_mem_bytes hs

/-- A line before its end. -/
theorem isInner_pairs (form : NumberForm) (mode : MoveMode) (start : Option Point)
    (pairs : List Point) :
    ∀ b ∈ relocation start ++ (selector form mode :: pairs.flatMap (form.writePair mode)),
      isInner b = true := by
  intro b hb
  rcases List.mem_append.1 hb with hstart | hb
  · exact isInner_of_mem_relocation hstart
  · rcases List.mem_cons.1 hb with rfl | hb
    · exact isInner_selector form mode
    · obtain ⟨pair, -, hpair⟩ := List.mem_flatMap.1 hb
      exact isInner_of_isGroup (NumberForm.isGroup_of_mem_writePair hpair)

/-! ## Sequences of bodies -/

/-- The sequence of a body is framed by the end of the body. -/
theorem frames_sequence {p : Parser} (hphase : p.phase = .idle ∨ p.phase = .awaitClick)
    {init : List UInt8} (hinner : ∀ b ∈ init, isInner b = true) :
    ∃ body : Payload, body.rest = init ++ [0x5A] ∧
      p.Frames (0x2A :: 0x70 :: init) 0x5A (.plot body) .idle := by
  have hplain : ∀ b ∈ 0x70 :: init, Parser.isTerminator b = false ∧ b ≠ Byte.esc := by
    intro b hb
    rcases List.mem_cons.1 hb with rfl | hb
    · decide
    · obtain ⟨hterminator, hesc, -⟩ := passes_of_isInner (hinner b hb)
      exact ⟨hterminator, hesc⟩
  refine ⟨_, Payload.rest_seek 0x2A 0x70 (by simp), ?_⟩
  exact Parser.frames_graphics hphase (List.cons_ne_nil _ _) (by simp) hplain rfl

/-! ## Lines in both forms -/

/-- What fits into three groups is a word. -/
theorem valuePair_of_fits {form : NumberForm} {mode : MoveMode} {pair : Point}
    (hx : NumberForm.binary.Fits mode pair.x) (hy : NumberForm.binary.Fits mode pair.y) :
    form.valuePair pair = pair := by
  have hword {v : Int} (h : NumberForm.binary.Fits mode v) :
      Word.least ≤ v ∧ v ≤ Word.greatest := by
    cases mode with
    | _ =>
      obtain ⟨hlow, hhigh⟩ := h
      exact ⟨Int.le_trans (by decide) hlow, Int.le_trans hhigh (by decide)⟩
  cases form with
  | ascii =>
    obtain ⟨hlowx, hhighx⟩ := hword hx
    obtain ⟨hlowy, hhighy⟩ := hword hy
    exact Point.saturate_eq_self ⟨hlowx, hhighx, hlowy, hhighy⟩
  | binary => rfl
  | binaryShort => rfl

/-- The decimal body of a line and the packed one draw the same. -/
theorem run_line_of_fits {form : NumberForm} (hform : form ∈ [.ascii, .binary])
    {mode : MoveMode} {start : Option Point} {pairs : List Point}
    (hfits : ∀ pair ∈ pairs,
      NumberForm.binary.Fits mode pair.x ∧ NumberForm.binary.Fits mode pair.y)
    {body : Payload} (hbody : body.rest = line form mode start pairs) :
    (run body).1.calls = polyline (linePoints mode start pairs) ∧
      (run body).1.state.current = (linePoints mode start pairs).getLast?.getD Point.origin ∧
      (run body).1.error = none := by
  have hfits' : ∀ pair ∈ pairs, form.Fits mode pair.x ∧ form.Fits mode pair.y := by
    rcases List.mem_pair.1 hform with rfl | rfl
    · exact fun _ _ => ⟨trivial, trivial⟩
    · exact hfits
  have hvalues : pairs.map form.valuePair = pairs := by
    refine (List.map_congr_left fun pair hpair => ?_).trans (List.map_id pairs)
    obtain ⟨hx, hy⟩ := hfits pair hpair
    exact valuePair_of_fits hx hy
  have hshort : form = .binaryShort → mode = .incremental := by
    rintro rfl
    rcases List.mem_pair.1 hform with h | h
    · cases h
    · cases h
  have hrun := run_line hshort hfits' hbody
  rw [hvalues] at hrun
  exact hrun

/-- A sum that passes the greatest word stops there: the line from the greatest abscissa to
the point one further on stays where it is. -/
theorem line_stops_at_greatest :
    (run (Payload.ofList
      (line .ascii .relocatable (some ⟨2147483647, 0⟩) [⟨1, 0⟩]))).1.calls =
        [.moveTo ⟨2147483647, 0⟩, .lineTo ⟨2147483647, 0⟩] ∧
      (run (Payload.ofList
        (line .ascii .relocatable (some ⟨2147483647, 0⟩) [⟨1, 0⟩]))).1.calls ≠
        polyline [⟨2147483647, 0⟩, ⟨2147483647 + 1, 0 + 0⟩] := by
  have hcalls : (run (Payload.ofList
      (line .ascii .relocatable (some ⟨2147483647, 0⟩) [⟨1, 0⟩]))).1.calls =
        [.moveTo ⟨2147483647, 0⟩, .lineTo ⟨2147483647, 0⟩] := by
    cbv
  refine ⟨hcalls, ?_⟩
  rw [hcalls]
  decide

/-- After a line the pen is at its last point. -/
theorem pen_foldl_polyline (g : GraphicsState) (points : List Point) :
    ((polyline points).foldl GraphicsState.follow g).pen = points.getLast?.getD g.pen := by
  have hdraws (g : GraphicsState) (points : List Point) :
      ((points.map SurfaceCall.lineTo).foldl GraphicsState.follow g).pen =
        points.getLast?.getD g.pen := by
    induction points generalizing g with
    | nil => rfl
    | cons p points ih =>
      rw [List.map_cons, List.foldl_cons, ih, List.getLast?_cons]
      rfl
  cases points with
  | nil => rfl
  | cons p points =>
    rw [polyline, List.foldl_cons, hdraws, List.getLast?_cons]
    rfl

end Plot

namespace Terminal

section

variable {L S : Type} [HostLink L] [Surface S] {t : Terminal L S}

/-- The sequence of a plot body makes the calls of the body. -/
theorem feed_plot (hring : t.ring.toList = [])
    (hphase : t.engine.parser.phase = .idle ∨ t.engine.parser.phase = .awaitClick)
    (hstill : t.engine.Still) {init : List UInt8} (hinner : ∀ b ∈ init, Plot.isInner b = true) :
    ∃ (body : Payload) (t' : Terminal L S), body.rest = init ++ [0x5A] ∧
      t.feed (Plot.sequence (init ++ [0x5A])) = .ok t' ∧ t'.ring.toList = [] ∧
      t'.engine.parser.phase = .idle ∧ t.engine.Draws t'.engine (Plot.run body).1.calls := by
  obtain ⟨body, hbody, hframes⟩ := Plot.frames_sequence hphase hinner
  have henq : Byte.enq ∉ 0x2A :: 0x70 :: init ++ [0x5A] := by
    intro hmem
    simp only [List.cons_append, List.mem_cons, List.mem_append, List.not_mem_nil, or_false]
      at hmem
    rcases hmem with h | h | h | h
    · exact absurd h (by decide)
    · exact absurd h (by decide)
    · exact (Plot.passes_of_isInner (hinner _ h)).2.2 rfl
    · exact absurd h (by decide)
  obtain ⟨t', hfeed, hempty, hidle, hdraws⟩ :=
    feed_framed hring hphase hstill hframes henq (Action.calm_plot L S body)
  exact ⟨body, t', hbody, hfeed, hempty, hidle, hdraws⟩

end

variable {L : Type} [HostLink L] {t : Terminal L RecordingSurface}

/-- Every drawing can be transmitted: a terminal that is not in a sequence, and has no
click to take, makes the strokes of the drawing and no other calls. -/
theorem feed_drawing (hring : t.ring.toList = [])
    (hphase : t.engine.parser.phase = .idle ∨ t.engine.parser.phase = .awaitClick)
    (hclick : t.takesClick = false) {strokes : List Plot.Stroke}
    (hpoints : ∀ s ∈ strokes, s.point.IsWord) :
    ∃ t', t.feed (Plot.sequence (Plot.drawing strokes)) = .ok t' ∧
      t'.engine.surface.calls.toList =
        t.engine.surface.calls.toList ++ strokes.map Plot.Stroke.call ∧
      t'.engine.parser.phase = .idle ∧ t'.ring.toList = [] := by
  obtain ⟨body, t', hbody, hfeed, hempty, hidle, hdraws⟩ :=
    feed_plot hring hphase (Engine.still_of_pollClick hclick) (Plot.isInner_strokes strokes)
  have hcalls : (Plot.run body).1.calls = strokes.map Plot.Stroke.call :=
    Plot.run_drawing hpoints hbody
  refine ⟨t', hfeed, ?_, hidle, hempty⟩
  rw [hdraws.surface_eq, RecordingSurface.calls_foldl, hcalls]

/-- A move and a draw to a corner, through a ring for eight bytes. -/
theorem feed_drawing_recorded :
    ∃ t', (recorded 8).feed (Plot.sequence (Plot.drawing
        [⟨.up, ⟨10, -20⟩⟩, ⟨.down, ⟨2147483647, -2147483648⟩⟩])) = .ok t' ∧
      t'.engine.surface.calls.toList =
        [.screenSize 512 390, .moveTo ⟨10, -20⟩, .lineTo ⟨2147483647, -2147483648⟩] ∧
      t'.engine.parser.phase = .idle ∧ t'.ring.toList = [] := by
  refine feed_drawing rfl (Or.inl rfl) rfl ?_
  intro s hs
  rcases List.mem_pair.1 hs with rfl | rfl
  · exact ⟨by decide, by decide, by decide, by decide⟩
  · exact ⟨by decide, by decide, by decide, by decide⟩

/-- Decimal and packed lines agree.  Whether its pairs are written in decimal or in packed
form, the body of a line moves to the first of its points and draws to the others, and so
does a terminal that is fed its sequence. -/
theorem feed_line (hring : t.ring.toList = [])
    (hphase : t.engine.parser.phase = .idle ∨ t.engine.parser.phase = .awaitClick)
    (hclick : t.takesClick = false) (mode : MoveMode) (start : Option Point)
    {pairs : List Point}
    (hfits : ∀ pair ∈ pairs,
      NumberForm.binary.Fits mode pair.x ∧ NumberForm.binary.Fits mode pair.y) :
    ∀ form ∈ [NumberForm.ascii, .binary],
      (∀ body : Payload, body.rest = Plot.line form mode start pairs →
        (Plot.run body).1.calls = Plot.polyline (Plot.linePoints mode start pairs) ∧
        (Plot.run body).1.state.current =
          (Plot.linePoints mode start pairs).getLast?.getD Point.origin ∧
        (Plot.run body).1.error = none) ∧
      ∃ t', t.feed (Plot.sequence (Plot.line form mode start pairs)) = .ok t' ∧
        t'.engine.surface.calls.toList = t.engine.surface.calls.toList ++
          Plot.polyline (Plot.linePoints mode start pairs) ∧
        t'.engine.graphics.pen =
          (Plot.linePoints mode start pairs).getLast?.getD t.engine.graphics.pen ∧
        t'.engine.parser.phase = .idle ∧ t'.ring.toList = [] := by
  intro form hform
  obtain ⟨body, t', hbody, hfeed, hempty, hidle, hdraws⟩ :=
    feed_plot hring hphase (Engine.still_of_pollClick hclick)
      (Plot.isInner_pairs form mode start pairs)
  obtain ⟨hcalls, -, -⟩ := Plot.run_line_of_fits hform hfits hbody
  rw [hcalls] at hdraws
  refine ⟨fun body hbody => Plot.run_line_of_fits hform hfits hbody, t', hfeed, ?_, ?_, hidle,
    hempty⟩
  · rw [hdraws.surface_eq, RecordingSurface.calls_foldl]
  · rw [hdraws.graphics_eq, Plot.pen_foldl_polyline]

/-- A line of two distances from a relocation origin, in both forms. -/
theorem feed_line_recorded :
    let decimal := Plot.line .ascii .relocatable (some ⟨100, 50⟩) [⟨-16384, 5⟩, ⟨16383, -1⟩]
    let packed := Plot.line .binary .relocatable (some ⟨100, 50⟩) [⟨-16384, 5⟩, ⟨16383, -1⟩]
    let calls := [.moveTo ⟨100, 50⟩, .lineTo ⟨-16284, 55⟩, .lineTo ⟨16483, 49⟩]
    (Plot.run (.ofList decimal)).1.calls = calls ∧ (Plot.run (.ofList packed)).1.calls = calls ∧
      (∃ t', (recorded 8).feed (Plot.sequence decimal) = .ok t' ∧
        t'.engine.surface.calls.toList = .screenSize 512 390 :: calls ∧
        t'.engine.graphics.pen = ⟨16483, 49⟩) ∧
      ∃ t', (recorded 8).feed (Plot.sequence packed) = .ok t' ∧
        t'.engine.surface.calls.toList = .screenSize 512 390 :: calls ∧
        t'.engine.graphics.pen = ⟨16483, 49⟩ := by
  intro decimal packed calls
  have hfits : ∀ pair ∈ [(⟨-16384, 5⟩ : Point), ⟨16383, -1⟩],
      NumberForm.binary.Fits .relocatable pair.x ∧
        NumberForm.binary.Fits .relocatable pair.y := by
    intro pair hpair
    rcases List.mem_pair.1 hpair with rfl | rfl
    · exact ⟨⟨by decide, by decide⟩, by decide, by decide⟩
    · exact ⟨⟨by decide, by decide⟩, by decide, by decide⟩
  have hring : (recorded 8).ring.toList = [] := rfl
  have hlines := feed_line hring (Or.inl rfl) rfl .relocatable (some ⟨100, 50⟩) hfits
  obtain ⟨hdecimal, t, hfeed, hcalls, hpen, -⟩ := hlines .ascii (.head _)
  obtain ⟨hpacked, t', hfeed', hcalls', hpen', -⟩ := hlines .binary (.tail _ (.head _))
  exact ⟨(hdecimal (.ofList decimal) rfl).1, (hpacked (.ofList packed) rfl).1,
    ⟨t, hfeed, hcalls, hpen⟩, t', hfeed', hcalls', hpen'⟩

end Terminal

end GraphicsTerminal
