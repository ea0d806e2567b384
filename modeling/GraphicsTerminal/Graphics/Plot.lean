import GraphicsTerminal.Graphics.Surface
import GraphicsTerminal.Sequence.Payload

/-!
# Plot bodies

A plot body is a run of selector letters and numbers.  Letters set the pen,
the relocation origin, the form of the numbers and what they mean, or open and
close a polygon.  Numbers come in pairs; each pair is a stroke: a move with
the pen up, after which the pen goes down, or a draw with the pen down.

In decimal form a pen letter written directly after the digits of a pair
applies to that pair, and then a move leaves the pen up.

Main definitions:

- {lit}`PlotState.select?`: the effect of a selector letter.
- {lit}`PlotState.readNumber?`: a number in the current form.
- {lit}`Plot.step`: the effect of the next letter, number or error.
- {lit}`Plot.run`: the calls, the final state and the error of a body.

Main results:

- Theorem {lit}`Plot.step_rest_lt`: every step consumes at least one byte.
-/

namespace GraphicsTerminal

/-- Whether a pair moves or draws. -/
inductive Pen where
  | up
  | down
deriving DecidableEq, Repr

/-- What a pair of numbers is relative to. -/
inductive MoveMode where
  | absolute
  /-- The current point. -/
  | incremental
  /-- The relocation origin. -/
  | relocatable
deriving DecidableEq, Repr

/-- How numbers are written. -/
inductive NumberForm where
  /-- Decimal digits. -/
  | ascii
  /-- Two groups of five bits for absolute points, three with sign otherwise. -/
  | binary
  /-- One group of five bits with sign. -/
  | binaryShort
deriving DecidableEq, Repr

/-- The selectors and points in force within a body. -/
structure PlotState where
  pen : Pen
  mode : MoveMode
  form : NumberForm
  current : Point
  origin : Point
  /-- A polygon is open. -/
  filling : Bool
  /-- The points of the open polygon. -/
  polygon : Array Point
deriving DecidableEq, Repr

/-- Why a body was abandoned.  The offset counts from the start of the
sequence. -/
inductive PlotError where
  /-- There is no number in the current form. -/
  | malformedNumber (offset : Nat)
  /-- There is a control byte in place of a number. -/
  | notANumber (byte : UInt8) (offset : Nat)
deriving DecidableEq, Repr

namespace PlotError

/-- Two hexadecimal digits. -/
def hex (b : UInt8) : String :=
  String.ofList [Nat.digitChar (b.toNat / 16), Nat.digitChar (b.toNat % 16)]

/-- The error as text. -/
def message : PlotError → String
  | malformedNumber offset =>
    "cannot parse plot number at offset " ++ Decimal.text offset
  | notANumber b offset =>
    "unexpected byte 0x" ++ hex b ++ " in plot body at offset " ++ Decimal.text offset

end PlotError

namespace PlotState

/-- The state at the start of every body. -/
def initial : PlotState where
  pen := .up
  mode := .absolute
  form := .ascii
  current := Point.origin
  origin := Point.origin
  filling := false
  polygon := #[]

/-! ## Letters -/

/-- The call that hands an open polygon over; an empty one is dropped. -/
def polygonCalls (st : PlotState) : List SurfaceCall :=
  if st.filling && !st.polygon.isEmpty then [.fillPolygon st.polygon.toList] else []

/-- No polygon is open. -/
def closed (st : PlotState) : PlotState := { st with filling := false, polygon := #[] }

/-- Choose how numbers are written and what they are relative to. -/
def choose (st : PlotState) (form : NumberForm) (mode : MoveMode) : PlotState :=
  { st with form := form, mode := mode }

/-- The effect of a selector letter, given as a small letter.  A comma or
space is a selector without effect, but only between decimal numbers. -/
def select? (st : PlotState) (letter : UInt8) :
    Option (PlotState × List SurfaceCall) :=
  match Byte.char letter with
  | 'a' => some ({ st with pen := .up }, [])
  | 'b' => some ({ st with pen := .down }, [])
  | 'c' | 'd' | 'z' => some (st, [])
  | 'e' => some ({ st with origin := st.current }, [])
  | 'f' => some (st.choose .ascii .absolute, [])
  | 'g' => some (st.choose .ascii .incremental, [])
  | 'h' => some (st.choose .ascii .relocatable, [])
  | 'i' => some (st.choose .binary .absolute, [])
  | 'j' => some (st.choose .binaryShort .incremental, [])
  | 'k' => some (st.choose .binary .incremental, [])
  | 'l' => some (st.choose .binary .relocatable, [])
  | 's' => some ({ st.closed with filling := true }, st.polygonCalls)
  | 't' => some (st.closed, st.polygonCalls)
  | ',' | ' ' => if st.form = .ascii then some (st, []) else none
  | _ => none

/-- The pen that a letter chooses. -/
def penLetter? (letter : UInt8) : Option Pen :=
  match Byte.char (Byte.lower letter) with
  | 'a' => some .up
  | 'b' => some .down
  | _ => none

/-! ## Numbers -/

/-- The greatest value of three groups that is not negative. -/
abbrev greatestTriple : Int := 16383

/-- The greatest value of one group that is not negative. -/
abbrev greatestShort : Int := 16

/-- Values above the greatest stand for negative ones, a whole range lower. -/
def withSign (greatest range v : Int) : Int := if v > greatest then v - range else v

/-- A number in the current form.  The flag says that it ended with a digit,
not with a separator. -/
def readNumber? (st : PlotState) (bytes : List UInt8) :
    Option (Int × Bool × List UInt8) :=
  match st.form, st.mode with
  | .ascii, _ =>
    (Decimal.read? bytes).map fun r => (r.value, !r.separated, r.rest)
  | .binary, .absolute =>
    (Packed.read? 2 bytes).map fun r => ((r.1 : Int), false, r.2)
  | .binary, _ =>
    (Packed.read? 3 bytes).map fun r => (withSign greatestTriple 32768 r.1, false, r.2)
  | .binaryShort, _ =>
    (Packed.read? 1 bytes).map fun r => (withSign greatestShort 32 r.1, false, r.2)

/-- Reading a number consumes at least one byte. -/
theorem readNumber?_rest_lt {st : PlotState} {bytes rest : List UInt8} {v : Int}
    {glued : Bool} (h : st.readNumber? bytes = some (v, glued, rest)) :
    rest.length < bytes.length := by
  unfold readNumber? at h
  split at h
  · obtain ⟨r, hr, heq⟩ := Option.map_eq_some_iff.1 h
    simp only [Prod.mk.injEq] at heq
    obtain ⟨-, -, rfl⟩ := heq
    exact Decimal.read?_rest_lt hr
  all_goals
    obtain ⟨⟨n, more⟩, hr, heq⟩ := Option.map_eq_some_iff.1 h
    simp only [Prod.mk.injEq] at heq
    obtain ⟨-, -, rfl⟩ := heq
    have := Packed.read?_rest_length hr
    omega

/-! ## Strokes -/

/-- The point that a pair of numbers stands for. -/
def target (st : PlotState) (pair : Point) : Point :=
  match st.mode with
  | .absolute => pair
  | .incremental => st.current.offset pair.x pair.y
  | .relocatable => st.origin.offset pair.x pair.y

/-- The stroke of a pair.  A pen that was chosen for this pair stays as it is;
otherwise a move lowers the pen. -/
def stroke (st : PlotState) (pair : Point) (chosen : Bool) : PlotState × SurfaceCall :=
  let point := st.target pair
  let st :=
    { st with
      current := point
      polygon := if st.filling then st.polygon.push point else st.polygon }
  match st.pen with
  | .up => ({ st with pen := if chosen then .up else .down }, .moveTo point)
  | .down => (st, .lineTo point)

end PlotState

namespace Plot

/-- The effect of the front of a body. -/
inductive Step where
  /-- The state, the first number of a pair that is not complete, the calls,
  and the bytes that follow. -/
  | next (state : PlotState) (first : Option Int) (calls : List SurfaceCall)
      (rest : List UInt8)
  /-- The body is abandoned. -/
  | halt (error : PlotError)

/-- The effect of a number: it waits for the second of its pair, or completes
the pair, together with a pen letter that follows its digits directly. -/
def number (st : PlotState) (first : Option Int) (v : Int) (glued : Bool)
    (rest : List UInt8) : Step :=
  match first with
  | none => .next st (some v) [] rest
  | some x =>
    match if glued then rest.head?.bind PlotState.penLetter? else none with
    | some pen =>
      let stroke := { st with pen := pen }.stroke ⟨x, v⟩ true
      .next stroke.1 none [stroke.2] rest.tail
    | none =>
      let stroke := st.stroke ⟨x, v⟩ false
      .next stroke.1 none [stroke.2] rest

/-- The offset of a byte in a sequence of a size, by the bytes behind it. -/
def offset (size : Nat) (tail : List UInt8) : Nat := size - (tail.length + 1)

/-- The effect of the next byte of a body and of what belongs to it.  A line
end is accepted as the last byte. -/
def step (size : Nat) (st : PlotState) (first : Option Int) (b : UInt8)
    (tail : List UInt8) : Step :=
  let letter := Byte.lower b
  match st.select? letter with
  | some (st', calls) => .next st' first calls tail
  | none =>
    if letter < 0x20 then
      if (letter = Byte.cr ∨ letter = Byte.lf) ∧ tail.isEmpty then
        .next st first [] tail
      else
        .halt (.notANumber letter (offset size tail))
    else
      match st.readNumber? (b :: tail) with
      | none => .halt (.malformedNumber (offset size tail))
      | some (v, glued, rest) => number st first v glued rest

/-- Handling a number never lengthens what follows. -/
theorem number_rest_le {st st' : PlotState} {first first' : Option Int} {v : Int}
    {glued : Bool} {rest rest' : List UInt8} {calls : List SurfaceCall}
    (h : number st first v glued rest = .next st' first' calls rest') :
    rest'.length ≤ rest.length := by
  unfold number at h
  split at h
  · simp only [Step.next.injEq] at h
    simp [h.2.2.2]
  · split at h
    · simp only [Step.next.injEq] at h
      simp [← h.2.2.2]
    · simp only [Step.next.injEq] at h
      simp [h.2.2.2]

/-- Every step consumes at least one byte. -/
theorem step_rest_lt {size : Nat} {st st' : PlotState} {first first' : Option Int}
    {b : UInt8} {tail rest : List UInt8} {calls : List SurfaceCall}
    (h : step size st first b tail = .next st' first' calls rest) :
    rest.length < (b :: tail).length := by
  unfold step at h
  simp only at h
  split at h
  · simp only [Step.next.injEq] at h
    simp [h.2.2.2]
  · split at h
    · split at h
      · simp only [Step.next.injEq] at h
        simp [h.2.2.2]
      · simp at h
    · split at h
      · simp at h
      · rename_i hread
        exact Nat.lt_of_le_of_lt (number_rest_le h)
          (PlotState.readNumber?_rest_lt hread)

/-- What a body did: its calls, the state it ended in, the error that ended it
early, and the bytes that were not interpreted. -/
structure Outcome where
  calls : List SurfaceCall
  state : PlotState
  error : Option PlotError
  rest : List UInt8
deriving DecidableEq, Repr

/-- Interpret a body from a state on.  {lit}`size` is the length of the whole
sequence. -/
def interpret (size : Nat) (st : PlotState) (first : Option Int) :
    List UInt8 → Outcome
  | [] => ⟨[], st, none, []⟩
  | b :: tail =>
    match _ : step size st first b tail with
    | .halt error => ⟨[], st, some error, b :: tail⟩
    | .next st' first' calls rest =>
      let later := interpret size st' first' rest
      { later with calls := calls ++ later.calls }
termination_by bytes => bytes.length
decreasing_by exact step_rest_lt ‹_›

/-- Interpret a body from its reading position on.  A polygon left open is
handed over at the end, also after an error. -/
def run (body : Payload) : Outcome × Payload :=
  let outcome := interpret body.size PlotState.initial none body.rest
  ({ outcome with
      calls := outcome.calls ++ outcome.state.polygonCalls
      state := outcome.state.closed },
    body.resume outcome.rest)

end Plot

end GraphicsTerminal
