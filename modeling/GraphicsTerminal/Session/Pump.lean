import GraphicsTerminal.Input.Ring

/-!
# The pump

The pump copies host bytes into the input ring while the session takes them
out on the other side.  It looks how much room there is and then pushes no
more than that; both are single steps, so that the session may work in
between.

Main definitions:

- {lit}`Pump`: the state of the copy.
- {lit}`Pump.step`: its next step.
-/

namespace GraphicsTerminal

/-- What reading from the host gives. -/
inductive ReadResult where
  | data (bytes : List UInt8)
  /-- Reading has to be tried again. -/
  | interrupted
  | ended
  | failed (reason : String)
deriving DecidableEq, Repr

/-- The number of steps that the pump takes over the result of a read, if it
finds room for at least one byte whenever it looks. -/
def ReadResult.steps : ReadResult → Nat
  | .data bytes => 2 * bytes.length + 1
  | _ => 1

/-- The state of the copy of host bytes into the ring. -/
structure Pump where
  /-- The results of reading to come; after the last, the host has ended. -/
  reads : List ReadResult
  /-- The bytes that were read and not yet pushed. -/
  chunk : List UInt8
  /-- The room that was seen, not more than the chunk needs. -/
  room : Nat
  /-- The number of bytes read. -/
  total : Nat
  /-- How reading ended: the reason of a failure, or the number of bytes. -/
  result : Option (Except String Nat)

namespace Pump

/-- A copy that has not begun. -/
def start (reads : List ReadResult) : Pump := ⟨reads, [], 0, 0, none⟩

/-- Whether the copy is over. -/
def isDone (p : Pump) : Bool := p.result.isSome

/-- Read from the host. -/
def read (p : Pump) : Pump :=
  match p.reads with
  | [] => { p with result := some (.ok p.total) }
  | .data [] :: rest => { p with reads := rest, result := some (.ok p.total) }
  | .data bytes :: rest =>
    { p with reads := rest, chunk := bytes, total := p.total + bytes.length }
  | .interrupted :: rest => { p with reads := rest }
  | .ended :: rest => { p with reads := rest, result := some (.ok p.total) }
  | .failed reason :: rest => { p with reads := rest, result := some (.error reason) }

/-- Look how much room there is. -/
def look (p : Pump) (ring : Ring) : Pump :=
  { p with room := min ring.free p.chunk.length }

/-- Push as many bytes as there was room for. -/
def push (p : Pump) (ring : Ring) : Pump × Ring :=
  ({ p with chunk := p.chunk.drop p.room, room := 0 },
    (ring.extend (p.chunk.take p.room)).2)

/-- The next step: read when there is nothing to push, look when no room was
seen, and push otherwise. -/
def step (p : Pump) (ring : Ring) : Pump × Ring :=
  if p.isDone then (p, ring)
  else if p.chunk.isEmpty then (p.read, ring)
  else if p.room = 0 then (p.look ring, ring)
  else p.push ring

/-- The number of steps that are left, if there is always room for at least
one byte: one for each read, and two for each byte. -/
def stepsLeft (p : Pump) : Nat :=
  p.reads.foldr (fun result steps => result.steps + steps) 0 + 2 * p.chunk.length + 1

end Pump

end GraphicsTerminal
