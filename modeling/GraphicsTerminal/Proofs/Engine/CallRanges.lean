import GraphicsTerminal.Proofs.Engine.Drawing
import GraphicsTerminal.Proofs.Protocol.Pens

/-!
# Ranges of calls

A surface is told numbers between certain bounds.  The decoders of the host stream keep all
numbers between them but those of pens, which have no lower bound.

Main definitions:

- {lit}`SurfaceCall.InRange`: a call whose numbers are between their bounds.
- {lit}`CallRanges`: calls that are in range, unless a low pen is chosen.

Main results:

- Theorem {lit}`ModeOp.callRanges_ofTerm`: the calls of a term of the mode group.
- Theorem {lit}`Action.callRanges`: the calls of an action.
-/

namespace GraphicsTerminal

namespace SurfaceCall

/-- A call whose numbers are between their bounds. -/
def InRange : SurfaceCall → Prop
  | drawMode mode => mode ≤ 5
  | lineType pattern => pattern ≤ 11
  | textSize size => 1 ≤ size ∧ size ≤ 8
  | textOrientation degrees => degrees ∈ [0, 90, 180, 270]
  | screenSize width height => (512 ≤ width ∧ width ≤ 720) ∧ 360 ≤ height ∧ height ≤ 480
  | pen chosen => 1 ≤ chosen
  | textPen chosen => 0 ≤ chosen
  | _ => True

/-- A call that chooses a pen. -/
def choosesPen : SurfaceCall → Bool
  | pen _ => true
  | textPen _ => true
  | _ => false

theorem inRange_of_isPlot {call : SurfaceCall} (h : call.isPlot = true) : call.InRange := by
  cases call with
  | moveTo point => trivial
  | lineTo point => trivial
  | fillPolygon points => trivial
  | _ => cases h

end SurfaceCall

/-! ## Calls in range, but for pens -/

/-- Only calls that choose a pen can be out of range, and some are exactly when a low pen is
chosen. -/
structure CallRanges (calls : List SurfaceCall) (low : Prop) : Prop where
  others : ∀ call ∈ calls, call.choosesPen = false → call.InRange
  pens : (∀ call ∈ calls, call.InRange) ↔ ¬ low

namespace CallRanges

variable {calls calls' : List SurfaceCall} {low low' : Prop}

theorem of_inRange (h : ∀ call ∈ calls, call.InRange) (hlow : ¬ low) : CallRanges calls low where
  others := fun call hcall _ => h call hcall
  pens := iff_of_true h hlow

theorem nil (hlow : ¬ low) : CallRanges [] low := of_inRange (List.forall_mem_nil _) hlow

theorem singleton {call : SurfaceCall} (h : call.InRange) (hlow : ¬ low) :
    CallRanges [call] low := of_inRange (List.forall_mem_singleton.2 h) hlow

/-- A call that chooses a pen. -/
theorem pen {call : SurfaceCall} (hpen : call.choosesPen = true) (h : call.InRange ↔ ¬ low) :
    CallRanges [call] low where
  others := by
    intro other hmem hother
    rw [List.mem_singleton.1 hmem, hpen] at hother
    cases hother
  pens := by rw [List.forall_mem_singleton, h]

theorem append (h : CallRanges calls low) (h' : CallRanges calls' low') :
    CallRanges (calls ++ calls') (low ∨ low') where
  others := by
    intro call hcall
    rcases List.mem_append.1 hcall with hfirst | hlater
    · exact h.others call hfirst
    · exact h'.others call hlater
  pens := by rw [List.forall_mem_append, h.pens, h'.pens, not_or]

theorem congr (h : CallRanges calls low) (hlow : low ↔ low') : CallRanges calls low' where
  others := h.others
  pens := h.pens.trans (not_congr hlow)

/-- The calls of several steps, when those of each are in range unless it chooses a low pen. -/
theorem callsOfAll {α : Type} {calls : GraphicsState → α → List SurfaceCall} {low : α → Prop}
    {as : List α} (h : ∀ a ∈ as, ∀ g, CallRanges (calls g a) (low a)) (g : GraphicsState) :
    CallRanges (g.callsOfAll calls as) (∃ a ∈ as, low a) := by
  induction as generalizing g with
  | nil => exact nil fun ⟨_, hnone, _⟩ => by cases hnone
  | cons a as ih =>
    have hlater := ih (fun other hother => h other (.tail a hother))
      ((calls g a).foldl GraphicsState.follow g)
    exact ((h a (.head as) g).append hlater).congr (by simp)

end CallRanges

/-! ## The calls of actions -/

namespace ModeOp

theorem clamped_mem (t : Term) {missing low high : Int} (hlow : low ≤ missing)
    (hhigh : missing ≤ high) :
    low ≤ clamped t missing low high ∧ clamped t missing low high ≤ high := by
  unfold clamped
  cases t.number? 0 with
  | none => exact ⟨hlow, hhigh⟩
  | some n => exact Word.clamp_mem (hlow.trans hhigh) n

/-- The calls of a term of the mode group are in range, unless it chooses a low pen. -/
theorem callRanges_ofTerm (t : Term) :
    CallRanges (ofTerm t).calls (ofTerm t).ChoosesLowPen := by
  unfold ofTerm
  split
  · have hbounds := clamped_mem t (le_refl 0) (by decide : (0 : Int) ≤ 5)
    refine .singleton ?_ id
    change (clamped t 0 0 5).toNat ≤ 5
    omega
  · have hbounds := clamped_mem t (le_refl 0) (by decide : (0 : Int) ≤ 11)
    refine .singleton ?_ id
    change (clamped t 0 0 11).toNat ≤ 11
    omega
  · split
    · exact .singleton trivial id
    · exact .nil id
  · exact .singleton (clamped_mem t (le_refl 1) (by decide)) id
  · have hbounds := clamped_mem t (le_refl 1) (by decide : (1 : Int) ≤ 4)
    refine .singleton ?_ id
    change (clamped t 1 1 4 - 1) * 90 ∈ [0, 90, 180, 270]
    simp only [List.mem_cons, List.not_mem_nil, or_false]
    omega
  · exact .singleton trivial id
  · exact .singleton trivial id
  · exact .singleton trivial id
  · exact .pen rfl Int.not_lt.symm
  all_goals exact .nil id

end ModeOp

/-- A size is kept between its bounds. -/
theorem GraphicsState.inRange_setSize (g : GraphicsState) (width height : Nat) :
    (SurfaceCall.screenSize (g.setSize width height).width
      (g.setSize width height).height).InRange := by
  simp only [SurfaceCall.InRange, setSize, leastWidth, greatestWidth, leastHeight, greatestHeight]
  omega

theorem DisplayOp.callRanges (op : DisplayOp) (g : GraphicsState) :
    CallRanges (op.calls g) False := by
  cases op with
  | clear color => exact .of_inRange (by simp [calls, SurfaceCall.InRange]) id
  | screenSize width height => exact .singleton (g.inRange_setSize _ _) id
  | fill color => exact .singleton trivial id
  | graphicsVisible on => exact .singleton trivial id
  | graphicsCursorVisible on => exact .singleton trivial id
  | setGraphicsCursor point => exact .singleton trivial id
  | moveGraphicsCursor delta => exact .singleton trivial id
  | _ => exact .nil id

theorem callRanges_statusCalls (query : Option Int) : CallRanges (statusCalls query) False := by
  unfold statusCalls
  split
  · exact .singleton trivial id
  · exact .nil id

/-- The calls of a graphics sequence are in range, unless it chooses a low pen. -/
theorem Parser.callRanges_graphicsAction (group : Option GraphicsGroup) (payload : Payload)
    (g : GraphicsState) :
    CallRanges ((graphicsAction group payload).calls g)
      (graphicsAction group payload).ChoosesLowPen := by
  unfold graphicsAction
  split
  · exact .nil id
  · refine (CallRanges.callsOfAll (fun op _ => op.callRanges) g).congr ?_
    simp [Action.ChoosesLowPen]
  · have hops (op : ModeOp) (hop : op ∈ (ModeOp.decode payload).1) :
        CallRanges op.calls op.ChoosesLowPen := by
      obtain ⟨term, -, rfl⟩ := List.mem_map.1 hop
      exact ModeOp.callRanges_ofTerm term
    exact CallRanges.callsOfAll (fun op hop _ => hops op hop) g
  · exact .of_inRange (fun call hcall =>
      SurfaceCall.inRange_of_isPlot (Plot.isPlot_of_mem_calls hcall)) id
  · split
    · exact .pen rfl Int.not_lt.symm
    · exact .nil id
  · split
    · exact callRanges_statusCalls _
    · exact .nil id
  · exact .nil id

theorem Parser.callRanges_deviceAction (group : DeviceGroup) (payload : Payload) (final : UInt8)
    (g : GraphicsState) :
    CallRanges ((deviceAction group payload final).calls g)
      (deviceAction group payload final).ChoosesLowPen := by
  cases group with
  | enhancements =>
    unfold deviceAction
    cases Enhancement.codesOfFinal? final with
    | none => exact .nil id
    | some codes => exact .nil id
  | _ => exact .nil id

/-- The calls of an action that was made of host bytes are in range, unless it chooses a low
pen. -/
theorem Action.callRanges {action : Action} (h : Parser.Origin action) (g : GraphicsState) :
    CallRanges (action.calls g) action.ChoosesLowPen := by
  cases h with
  | graphics group payload => exact Parser.callRanges_graphicsAction group payload g
  | device group payload final => exact Parser.callRanges_deviceAction group payload final g
  | single command =>
    cases command with
    | hardReset => exact .singleton trivial id
    | softReset => exact .singleton trivial id
    | _ => exact .nil id
  | text text => exact .singleton trivial id
  | _ => exact .nil id

end GraphicsTerminal
