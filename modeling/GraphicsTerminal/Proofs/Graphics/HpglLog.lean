import GraphicsTerminal.Graphics.Hpgl

/-!
# The log of a capture

A capture writes its log as long as the writer accepts it.  So the log and the error of
a capture are at every moment what one gets by writing all texts so far in order, up to
the first one that is refused.

Main definitions:

- {lit}`Writer.writeTexts`: write texts in order, up to the first failure.
- {lit}`HpglCapture.after`: the capture whose writes so far had a given result.

Main results:

- Theorem {lit}`HpglCapture.call_after`: a call adds its record to what was written, and
  reaches the surface in any case.
- Theorem {lit}`HpglCapture.finish_after`: the writer is given back if the trailer and
  the flush are accepted as well.
-/

namespace GraphicsTerminal

namespace Writer

variable {W : Type} [Writer W]

/-- Write texts in order, up to the first write that fails. -/
def writeTexts (out : W) : List String → Except String W
  | [] => .ok out
  | text :: texts =>
    match Writer.write out (Text.utf8 text) with
    | (none, out) => writeTexts out texts
    | (some reason, _) => .error reason

/-- Texts are written one after another, up to the first refusal. -/
theorem writeTexts_append (out : W) (front back : List String) :
    writeTexts out (front ++ back) =
      writeTexts out front >>= fun out => writeTexts out back := by
  induction front generalizing out with
  | nil => rfl
  | cons text front ih =>
    rw [List.cons_append, writeTexts, writeTexts]
    generalize Writer.write out (Text.utf8 text) = written
    obtain ⟨refusal, next⟩ := written
    cases refusal with
    | none => exact ih next
    | some reason => rfl

end Writer

namespace HpglCapture

variable {S W : Type}

/-- The capture whose writes so far had a given result. -/
def after (inner : S) : Except String W → HpglCapture S W
  | .ok out => ⟨inner, some out, none⟩
  | .error reason => ⟨inner, none, some reason⟩

/-- The log does not change the surface behind it. -/
@[simp]
theorem inner_after (inner : S) (written : Except String W) :
    (after inner written).inner = inner := by
  cases written with
  | ok out => rfl
  | error reason => rfl

/-- A capture that has stopped with an error has had a write refused for it. -/
theorem eq_error_of_error_after {inner : S} {written : Except String W} {reason : String}
    (h : (after inner written).error = some reason) : written = .error reason := by
  cases written with
  | ok out => cases h
  | error refusal => exact congrArg Except.error (Option.some.inj h)

theorem after_with_inner (inner next : S) (written : Except String W) :
    { after inner written with inner := next } = after next written := by
  cases written with
  | ok out => rfl
  | error reason => rfl

variable [Writer W]

/-- A text that is emitted continues what was written, or is dropped after a refusal. -/
theorem emit_after (inner : S) (written : Except String W) (text : String) :
    (after inner written).emit text =
      after inner (written >>= fun out => Writer.writeTexts out [text]) := by
  cases written with
  | error reason => rfl
  | ok out =>
    simp only [after, emit, bind, Except.bind, Writer.writeTexts]
    generalize Writer.write out (Text.utf8 text) = written
    obtain ⟨refusal, next⟩ := written
    cases refusal with
    | none => rfl
    | some reason => rfl

/-- Texts that are emitted one by one are written as one list. -/
theorem foldl_emit_after (inner : S) (written : Except String W) (texts : List String) :
    texts.foldl emit (after inner written) =
      after inner (written >>= fun out => Writer.writeTexts out texts) := by
  induction texts generalizing written with
  | nil =>
    cases written with
    | error reason => rfl
    | ok out => rfl
  | cons text texts ih =>
    rw [List.foldl_cons, emit_after, ih]
    cases written with
    | error reason => rfl
    | ok out => exact congrArg (after inner) (Writer.writeTexts_append out [text] texts).symm

/-- The header is written first. -/
theorem start_eq (inner : S) (out : W) :
    start inner out = after inner (Writer.writeTexts out [Hpgl.header]) :=
  emit_after inner (.ok out) Hpgl.header

/-- A call adds its record to what was written, and reaches the surface in any case. -/
theorem call_after [Surface S] (inner : S) (written : Except String W) (call : SurfaceCall) :
    Surface.call (after inner written) call =
      after (Surface.call inner call)
        (written >>= fun out => Writer.writeTexts out (Hpgl.record call)) := by
  have hlogged := foldl_emit_after inner written (Hpgl.record call)
  simp only [Surface.call, hlogged, inner_after, after_with_inner]

/-- Calls add their records to what was written, and reach the surface in any case. -/
theorem callAll_after [Surface S] (inner : S) (written : Except String W)
    (calls : List SurfaceCall) :
    Surface.callAll (after inner written) calls =
      after (Surface.callAll inner calls)
        (written >>= fun out => Writer.writeTexts out (calls.flatMap Hpgl.record)) := by
  induction calls generalizing inner written with
  | nil =>
    cases written with
    | error reason => rfl
    | ok out => rfl
  | cons call calls ih =>
    have hlater := ih (Surface.call inner call)
      (written >>= fun out => Writer.writeTexts out (Hpgl.record call))
    rw [← call_after] at hlater
    refine hlater.trans (congrArg (after _) ?_)
    cases written with
    | error reason => rfl
    | ok out => exact (Writer.writeTexts_append out _ _).symm

/-- A click is that of the surface, and nothing is written for it. -/
theorem takeClick_after [Surface S] (inner : S) (written : Except String W) :
    Surface.takeClick (after inner written) =
      ((Surface.takeClick inner).1, after (Surface.takeClick inner).2 written) := by
  simp only [Surface.takeClick, inner_after, after_with_inner]

/-- The trailer is written last. -/
theorem finish_after (inner : S) (written : Except String W) :
    (after inner written).finish =
      (inner, ((written >>= fun out => Writer.writeTexts out [Hpgl.trailer]).toOption).bind
        fun out =>
          match Writer.flush out with
          | (none, out) => some out
          | (some _, _) => none) := by
  rw [finish, emit_after, inner_after]
  cases written >>= fun out => Writer.writeTexts out [Hpgl.trailer] with
  | error reason => rfl
  | ok out => rfl

end HpglCapture

end GraphicsTerminal
