import GraphicsTerminal.Engine.Keyboard

/-!
# What the surface is told

An action or a key makes certain calls on the surface, which depend only on what is
known about the picture.  What is known after it is what follows from the calls, so the
two cannot drift apart.

Main definitions:

- {lit}`GraphicsState.follow`: what is known about the picture after a call.
- {lit}`Engine.Draws`: the surface and what is known about the picture follow some calls.
- {lit}`Action.calls`, {lit}`Engine.byteCalls`, {lit}`Engine.keyCalls`: the calls that an
  action, a byte or a key makes.

Main results:

- Theorem {lit}`Plot.isPlot_of_mem_calls`: a plot body moves, draws and fills only.
- Theorems {lit}`Engine.draws_of_apply`, {lit}`Engine.draws_of_receive` and
  {lit}`Engine.draws_press`: actions, bytes and keys make their calls.
-/

namespace GraphicsTerminal

namespace GraphicsState

/-- What is known about the picture after a call. -/
def follow (g : GraphicsState) : SurfaceCall → GraphicsState
  | .moveTo point => g.moved point
  | .lineTo point => g.drawn point
  | .screenSize width height => { g with width := width, height := height }
  | .visible on => { g with visible := on }
  | .cursorVisible on => { g with cursorVisible := on }
  | .cursorPosition point => { g with cursor := point }
  | .resetDefaults _ => g.reset
  | _ => g

/-- The calls of several steps in order, when those of each depend on what is known. -/
def callsOfAll {α : Type} (calls : GraphicsState → α → List SurfaceCall) (g : GraphicsState) :
    List α → List SurfaceCall
  | [] => []
  | a :: as => calls g a ++ callsOfAll calls ((calls g a).foldl follow g) as

section

variable {α : Type} (calls : GraphicsState → α → List SurfaceCall) (g : GraphicsState)

/-- The calls of one item are its own. -/
theorem callsOfAll_singleton (a : α) : g.callsOfAll calls [a] = calls g a := List.append_nil _

/-- The calls of the steps that come later are those after the first ones. -/
theorem callsOfAll_append (front back : List α) :
    g.callsOfAll calls (front ++ back) = g.callsOfAll calls front ++
      ((g.callsOfAll calls front).foldl follow g).callsOfAll calls back := by
  induction front generalizing g with
  | nil => rfl
  | cons a front ih =>
    simp only [List.cons_append, callsOfAll, ih, List.foldl_append, List.append_assoc]

end

end GraphicsState

/-! ## Calls of plot bodies -/

/-- A call that a plot body can make. -/
def SurfaceCall.isPlot : SurfaceCall → Bool
  | moveTo _ => true
  | lineTo _ => true
  | fillPolygon _ => true
  | _ => false

/-- The calls of a plot body are followed as they are recorded. -/
theorem GraphicsState.record_of_isPlot (g : GraphicsState) {call : SurfaceCall}
    (h : call.isPlot = true) : g.record call = g.follow call := by
  cases call with
  | moveTo point => rfl
  | lineTo point => rfl
  | fillPolygon points => rfl
  | _ => cases h

namespace PlotState

/-- A polygon is drawn by calls that plot. -/
theorem isPlot_of_mem_polygonCalls {st : PlotState} {call : SurfaceCall}
    (h : call ∈ st.polygonCalls) : call.isPlot = true := by
  unfold polygonCalls at h
  split at h
  · rw [List.mem_singleton.1 h]
    rfl
  · cases h

/-- A selector letter makes no call, or hands the open polygon over. -/
theorem calls_of_select {st st' : PlotState} {letter : UInt8} {calls : List SurfaceCall}
    (h : st.select? letter = some (st', calls)) : calls = [] ∨ calls = st.polygonCalls := by
  unfold select? at h
  split at h
  case h_16 | h_17 =>
    split at h
    · cases h
      exact Or.inl rfl
    · cases h
  case h_18 => cases h
  case h_14 | h_15 =>
    cases h
    exact Or.inr rfl
  all_goals
    cases h
    exact Or.inl rfl

/-- A stroke is a call that plots. -/
theorem isPlot_stroke (st : PlotState) (pair : Point) (chosen : Bool) :
    (st.stroke pair chosen).2.isPlot = true := by
  unfold stroke
  cases st.pen with
  | up => rfl
  | down => rfl

end PlotState

namespace Plot

variable {size : Nat} {st st' : PlotState} {first first' : Option Int}
  {rest rest' : List UInt8} {calls : List SurfaceCall}

/-- A number in a plot body leads to calls that plot. -/
theorem isPlot_of_number {v : Int} {glued : Bool}
    (h : number st first v glued rest = .next st' first' calls rest') :
    ∀ call ∈ calls, call.isPlot = true := by
  intro call hcall
  unfold number at h
  split at h
  · cases h
    cases hcall
  · split at h
    · cases h
      rw [List.mem_singleton.1 hcall]
      exact PlotState.isPlot_stroke _ _ _
    · cases h
      rw [List.mem_singleton.1 hcall]
      exact PlotState.isPlot_stroke _ _ _

/-- A step through a plot body leads to calls that plot. -/
theorem isPlot_of_step {b : UInt8} {tail : List UInt8}
    (h : step size st first b tail = .next st' first' calls rest) :
    ∀ call ∈ calls, call.isPlot = true := by
  unfold step at h
  dsimp only at h
  split at h
  · rename_i hselect
    cases h
    rcases PlotState.calls_of_select hselect with rfl | rfl
    · intro call hcall
      cases hcall
    · exact fun call hcall => PlotState.isPlot_of_mem_polygonCalls hcall
  · split at h
    · split at h
      · cases h
        intro call hcall
        cases hcall
      · cases h
    · split at h
      · cases h
      · exact isPlot_of_number h

/-- A plot body moves, draws and fills only. -/
theorem isPlot_of_mem_interpret (size : Nat) (st : PlotState) (first : Option Int)
    (bytes : List UInt8) :
    ∀ call ∈ (interpret size st first bytes).calls, call.isPlot = true := by
  fun_induction interpret size st first bytes with
  | case1 st first =>
    intro call hcall
    cases hcall
  | case2 st first b tail error hstep =>
    intro call hcall
    cases hcall
  | case3 st first b tail st' first' calls rest hstep later ih =>
    intro call hcall
    rcases List.mem_append.1 hcall with hnow | hlater
    · exact isPlot_of_step hstep call hnow
    · exact ih call hlater

/-- A plot body leads to calls that plot. -/
theorem isPlot_of_mem_calls {body : Payload} {call : SurfaceCall}
    (h : call ∈ (run body).1.calls) : call.isPlot = true := by
  rcases List.mem_append.1 h with hbody | hopen
  · exact isPlot_of_mem_interpret _ _ _ _ call hbody
  · exact PlotState.isPlot_of_mem_polygonCalls hopen

end Plot

/-! ## The calls of an action -/

/-- The calls of an operation of the display group. -/
def DisplayOp.calls (g : GraphicsState) : DisplayOp → List SurfaceCall
  | .clear color => [.saveImage, .clear color]
  | .fill color => [.clear (some color)]
  | .graphicsVisible on => [.visible on]
  | .graphicsCursorVisible on => [.cursorVisible on]
  | .setGraphicsCursor point => [.cursorPosition point]
  | .moveGraphicsCursor delta => [.cursorPosition (g.cursor.offset delta.x delta.y)]
  | .screenSize width height =>
    let sized := g.setSize width.natAbs height.natAbs
    [.screenSize sized.width sized.height]
  | _ => []

/-- The calls of an operation of the mode group. -/
def ModeOp.calls : ModeOp → List SurfaceCall
  | .drawMode mode => [.drawMode mode]
  | .lineType pattern => [.lineType pattern]
  | .fillRect x y width height => [.fillRect x y width height]
  | .textSize size => [.textSize size]
  | .textOrientation degrees => [.textOrientation degrees]
  | .textSlant on => [.textSlant on]
  | .graphicsDefaults => [.resetDefaults false]
  | .primaryPen pen => [.pen pen]
  | _ => []

/-- The calls of a command of one letter. -/
def SingleCommand.calls : SingleCommand → List SurfaceCall
  | .hardReset => [.resetDefaults true]
  | .softReset => [.resetDefaults false]
  | _ => []

/-- The calls of a status query. -/
def statusCalls : Option Int → List SurfaceCall
  | some 4 => [.clickWait]
  | _ => []

/-- The calls of an action. -/
def Action.calls (g : GraphicsState) : Action → List SurfaceCall
  | .single command => command.calls
  | .display ops => g.callsOfAll DisplayOp.calls ops
  | .drawing ops => g.callsOfAll (fun _ op => op.calls) ops
  | .textPen pen => [.textPen pen]
  | .plot body => (Plot.run body).1.calls
  | .status query => statusCalls query
  | .graphicsText text => [.text text]
  | _ => []

namespace Engine

variable {L S : Type} [Surface S]

/-- Between two engines the surface was told some calls, and what is known about the
picture follows them. -/
structure Draws (e e' : Engine L S) (calls : List SurfaceCall) : Prop where
  surface_eq : e'.surface = Surface.callAll e.surface calls
  graphics_eq : e'.graphics = calls.foldl GraphicsState.follow e.graphics

namespace Draws

variable {e e' e'' : Engine L S} {calls calls' : List SurfaceCall}

/-- What draws some calls and then others draws all of them. -/
theorem trans (h : e.Draws e' calls) (h' : e'.Draws e'' calls') :
    e.Draws e'' (calls ++ calls') where
  surface_eq := by
    rw [h'.surface_eq, h.surface_eq, Surface.callAll, Surface.callAll, Surface.callAll,
      List.foldl_append]
  graphics_eq := by
    rw [h'.graphics_eq, h.graphics_eq, List.foldl_append]

/-- What does not concern the picture may change as well. -/
theorem keep (h : e.Draws e' calls) (hsurface : e''.surface = e'.surface)
    (hgraphics : e''.graphics = e'.graphics) : e.Draws e'' calls where
  surface_eq := hsurface.trans h.surface_eq
  graphics_eq := hgraphics.trans h.graphics_eq

/-- Steps that draw their calls draw all of them one after another. -/
theorem foldl {α : Type} {step : Engine L S → α → Engine L S}
    {calls : GraphicsState → α → List SurfaceCall}
    (hstep : ∀ (e : Engine L S) a, e.Draws (step e a) (calls e.graphics a)) (e : Engine L S)
    (as : List α) :
    e.Draws (as.foldl step e) (e.graphics.callsOfAll calls as) := by
  induction as generalizing e with
  | nil => exact ⟨rfl, rfl⟩
  | cons a as ih =>
    have hrest := ih (step e a)
    rw [(hstep e a).graphics_eq] at hrest
    exact (hstep e a).trans hrest

end Draws

/-! ## Actions -/

omit [Surface S] in
/-- The report of a loss does not reach the surface. -/
@[simp]
theorem surface_reportLoss (e : Engine L S) : e.reportLoss.surface = e.surface := by
  unfold reportLoss Channel.takeLoss report
  cases e.channel.lost with
  | none => rfl
  | some reason => rfl

omit [Surface S] in
/-- The report of a loss keeps the graphics state. -/
@[simp]
theorem graphics_reportLoss (e : Engine L S) : e.reportLoss.graphics = e.graphics := by
  unfold reportLoss Channel.takeLoss report
  cases e.channel.lost with
  | none => rfl
  | some reason => rfl

/-- A data byte draws nothing. -/
theorem draws_putData (e : Engine L S) (b : UInt8) : e.Draws (e.putData b) [] := by
  unfold putData
  split
  · split
    · exact ⟨rfl, rfl⟩
    · exact ⟨rfl, rfl⟩
  · exact ⟨rfl, rfl⟩

/-- The bell draws nothing. -/
theorem draws_bell (e : Engine L S) : e.Draws e.bell [] := by
  unfold bell
  split
  · exact ⟨rfl, rfl⟩
  · exact ⟨rfl, rfl⟩

/-- A change of the screen draws nothing. -/
theorem draws_modifyScreen (e : Engine L S) (f : Screen → Screen) :
    e.Draws (e.modifyScreen f) [] := ⟨rfl, rfl⟩

/-- A reset tells the surface its defaults. -/
theorem draws_reset (e : Engine L S) (hard : Bool) :
    e.Draws (e.reset hard) [.resetDefaults hard] := by
  have hbell := e.draws_bell
  exact
    { surface_eq := congrArg (Surface.call · (.resetDefaults hard)) hbell.surface_eq
      graphics_eq := congrArg GraphicsState.reset hbell.graphics_eq }

/-- A display operation draws its calls. -/
theorem draws_applyDisplay (e : Engine L S) (op : DisplayOp) :
    e.Draws (e.applyDisplay op) (op.calls e.graphics) := by
  cases op with
  | _ => exact ⟨rfl, rfl⟩

/-- A mode operation draws its calls. -/
theorem draws_applyMode (e : Engine L S) (op : ModeOp) : e.Draws (e.applyMode op) op.calls := by
  cases op with
  | _ => exact ⟨rfl, rfl⟩

/-- The calls of a plot body are made one after another. -/
theorem draws_plotCalls (e : Engine L S) {calls : List SurfaceCall}
    (h : ∀ call ∈ calls, call.isPlot = true) : e.Draws (calls.foldl plotCall e) calls := by
  induction calls generalizing e with
  | nil => exact ⟨rfl, rfl⟩
  | cons call calls ih =>
    have hnow : e.Draws (e.plotCall call) [call] :=
      ⟨rfl, e.graphics.record_of_isPlot (h call (.head calls))⟩
    exact hnow.trans (ih (e.plotCall call) fun c hc => h c (.tail call hc))

variable [HostLink L]

/-- A command of one byte draws its calls. -/
theorem draws_applySingle (e : Engine L S) (command : SingleCommand) :
    e.Draws (e.applySingle command) command.calls := by
  cases command with
  | hardReset => exact e.draws_reset true
  | softReset => exact e.draws_reset false
  | insertLine => exact e.draws_modifyScreen _
  | deleteLine => exact e.draws_modifyScreen _
  | _ => exact ⟨rfl, rfl⟩

/-- A control sequence draws nothing. -/
theorem draws_of_applyControl {e e' : Engine L S} {command : ControlSequence}
    (h : e.applyControl command = .ok e') : e.Draws e' [] := by
  cases command with
  | insertChars count =>
    rcases Fault.exists_of_map h with ⟨screen, -, rfl⟩
    exact ⟨rfl, rfl⟩
  | _ =>
    cases h
    exact ⟨rfl, rfl⟩

/-- A query draws no more than the wait for a click. -/
theorem draws_applyStatus (e : Engine L S) (query : Option Int) :
    e.Draws (e.applyStatus query) (statusCalls query) := by
  fun_cases applyStatus e query with
  | case7 query _ _ _ hclick =>
    have hnone : statusCalls query = [] := by
      fun_cases statusCalls query with
      | case1 => exact absurd rfl hclick
      | case2 => rfl
    rw [hnone]
    exact ⟨rfl, rfl⟩
  | _ => exact ⟨rfl, rfl⟩

omit [HostLink L] in
/-- Commands for key labels draw nothing. -/
theorem draws_applyKeyLabels (e : Engine L S) (command : KeyLabelCommand) :
    e.Draws (e.applyKeyLabels command) [] := by
  cases command with
  | _ => exact ⟨rfl, rfl⟩

/-- An action makes its calls. -/
theorem draws_of_apply {e e' : Engine L S} {action : Action} (h : e.apply action = .ok e') :
    e.Draws e' (action.calls e.graphics) := by
  cases action with
  | control command => exact draws_of_applyControl h
  | data b =>
    cases h
    exact e.draws_putData b
  | bell =>
    cases h
    exact e.draws_bell
  | single command =>
    cases h
    exact e.draws_applySingle command
  | display ops =>
    cases h
    exact Draws.foldl draws_applyDisplay e ops
  | drawing ops =>
    cases h
    exact Draws.foldl draws_applyMode e ops
  | plot body =>
    cases h
    exact e.draws_plotCalls fun _ hcall => Plot.isPlot_of_mem_calls hcall
  | status query =>
    cases h
    exact e.draws_applyStatus query
  | keyLabels command =>
    cases h
    exact e.draws_applyKeyLabels command
  | _ =>
    cases h
    exact ⟨rfl, rfl⟩

/-! ## Bytes and keys -/

/-- The calls that a byte makes. -/
def byteCalls (e : Engine L S) (b : UInt8) : List SurfaceCall :=
  if b = Byte.enq then [] else (e.parser.advance b).1.elim [] (Action.calls e.graphics)

/-- The answer to an enquiry draws nothing. -/
theorem draws_answerEnquiry (e : Engine L S) : e.Draws e.answerEnquiry [] := by
  unfold answerEnquiry
  split
  · exact ⟨rfl, rfl⟩
  · exact ⟨rfl, rfl⟩

/-- A byte draws the calls of the action that it completes. -/
theorem draws_of_interpret {e e' : Engine L S} {b : UInt8} (h : e.interpret b = .ok e') :
    e.Draws e' ((e.parser.advance b).1.elim [] (Action.calls e.graphics)) := by
  cases haction : (e.parser.advance b).1 with
  | none =>
    simp only [interpret, haction, Option.elim] at h
    cases h
    exact ⟨rfl, rfl⟩
  | some action =>
    simp only [interpret, haction, Option.elim] at h
    have hdraws := draws_of_apply h
    exact ⟨hdraws.surface_eq, hdraws.graphics_eq⟩

/-- A byte makes its calls. -/
theorem draws_of_receive {e e' : Engine L S} {b : UInt8} (h : e.receive b = .ok e') :
    e.Draws e' (e.byteCalls b) := by
  unfold receive at h
  unfold byteCalls
  split at h
  · rename_i henq
    rw [if_pos henq]
    cases h
    exact e.draws_answerEnquiry.keep (surface_reportLoss _) (graphics_reportLoss _)
  · rename_i henq
    rw [if_neg henq]
    rcases Fault.exists_of_map h with ⟨next, hinterpret, rfl⟩
    exact (draws_of_interpret hinterpret).keep (surface_reportLoss _) (graphics_reportLoss _)

omit [Surface S] in
/-- An idle moment is not seen in the picture. -/
theorem surface_idle (e : Engine L S) : e.idle.surface = e.surface := surface_reportLoss _

omit [Surface S] in
/-- An idle moment keeps the graphics state. -/
theorem graphics_idle (e : Engine L S) : e.idle.graphics = e.graphics := graphics_reportLoss _

omit [HostLink L] in
/-- Neither is a poll in what is known about it. -/
theorem graphics_pollClick (e : Engine L S) : e.pollClick.2.graphics = e.graphics := by
  unfold pollClick
  split
  · split
    · rfl
    · rfl
  · rfl

/-- The calls that a key makes on an unlocked keyboard: the tenth function key shows or
hides the picture. -/
def unlockedCalls (e : Engine L S) : Key → List SurfaceCall
  | .function number _ => if number = 10 then [.visible !e.graphics.visible] else []
  | _ => []

/-- The calls that a key makes. -/
def keyCalls (e : Engine L S) (key : Key) : List SurfaceCall :=
  if e.screen.modes.keyboardLocked then [] else e.unlockedCalls key

omit [HostLink L] in
/-- The tenth function key switches the picture, and no other one draws. -/
theorem draws_pressFunction (e : Engine L S) (number : Nat) (shift : Bool) :
    e.Draws (e.pressFunction number shift).2
      (if number = 10 then [.visible !e.graphics.visible] else []) := by
  unfold pressFunction
  split
  · rename_i hsoft
    have hten : number ≠ 10 := by
      rintro rfl
      exact absurd hsoft.2 (by decide)
    rw [if_neg hten]
    exact ⟨rfl, rfl⟩
  · split
    · rename_i hnine
      rw [if_neg (by rw [hnine]; decide)]
      exact ⟨rfl, rfl⟩
    · split
      · exact ⟨rfl, rfl⟩
      · exact ⟨rfl, rfl⟩

/-- A cursor key draws nothing. -/
theorem draws_pressCursor (e : Engine L S) (key : CursorKey) (rows cols : Int) :
    e.Draws (e.pressCursor key rows cols) [] := by
  unfold pressCursor
  split
  · exact ⟨rfl, rfl⟩
  · exact ⟨rfl, rfl⟩

/-- A key draws its calls. -/
theorem draws_pressUnlocked (e : Engine L S) (key : Key) :
    e.Draws (e.pressUnlocked key).2 (e.unlockedCalls key) := by
  cases key with
  | up ctrl =>
    cases ctrl with
    | true => exact ⟨rfl, rfl⟩
    | false => exact e.draws_pressCursor .up (-1) 0
  | down ctrl =>
    cases ctrl with
    | true => exact ⟨rfl, rfl⟩
    | false => exact e.draws_pressCursor .down 1 0
  | left => exact e.draws_pressCursor .left 0 (-1)
  | right => exact e.draws_pressCursor .right 0 1
  | insert ctrl =>
    cases ctrl with
    | true => exact e.draws_modifyScreen Screen.insertLine
    | false =>
      simp only [pressUnlocked]
      split
      · exact ⟨rfl, rfl⟩
      · exact ⟨rfl, rfl⟩
  | delete ctrl =>
    cases ctrl with
    | true => exact e.draws_modifyScreen Screen.deleteLine
    | false =>
      simp only [pressUnlocked]
      split
      · exact ⟨rfl, rfl⟩
      · exact ⟨rfl, rfl⟩
  | function number shift => exact e.draws_pressFunction number shift
  | char b =>
    simp only [pressUnlocked]
    split
    · exact ⟨rfl, rfl⟩
    · exact ⟨rfl, rfl⟩
  | _ => exact ⟨rfl, rfl⟩

/-- A key makes its calls. -/
theorem draws_press (e : Engine L S) (key : Key) : e.Draws (e.press key).2 (e.keyCalls key) := by
  unfold press keyCalls
  split
  · split
    · exact ⟨rfl, rfl⟩
    · exact ⟨rfl, rfl⟩
  · exact (e.draws_pressUnlocked key).keep (surface_reportLoss _) (graphics_reportLoss _)

end Engine

end GraphicsTerminal
