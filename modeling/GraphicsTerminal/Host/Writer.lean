/-!
# Writers

A writer takes bytes and may fail, when it is given bytes or when it is
flushed.  A memory writer keeps what it accepts, up to a limit.  A buffered
writer collects bytes and passes them on together: when the next bytes do not
fit any more, and when it is flushed.

Main definitions:

- {lit}`Writer`: a type of writers.
- {lit}`MemoryWriter`, {lit}`BufferedWriter`: two writers.

Main results:

- Theorems {lit}`BufferedWriter.held_write` and
  {lit}`BufferedWriter.held_flush`: a buffered writer loses nothing and keeps
  the order of the bytes.
-/

namespace GraphicsTerminal

/-- A type of writers. -/
class Writer (W : Type) where
  /-- The writer after a write, and the reason if the write failed. -/
  write : W → List UInt8 → Option String × W
  /-- The writer after a flush, and the reason if the flush failed. -/
  flush : W → Option String × W

/-- A writer that keeps what it accepts. -/
structure MemoryWriter where
  /-- The bytes accepted so far. -/
  written : Array UInt8
  /-- The number of bytes accepted in total; a write that would pass it fails
  as a whole. -/
  limit : Option Nat
  /-- Every flush fails. -/
  flushFails : Bool
deriving DecidableEq, Repr

namespace MemoryWriter

/-- A writer that never fails. -/
def unlimited : MemoryWriter := ⟨#[], none, false⟩

instance : Writer MemoryWriter where
  write w bytes :=
    if w.limit.all (w.written.size + bytes.length ≤ ·) then
      (none, { w with written := w.written ++ bytes.toArray })
    else
      (some "disk full", w)
  flush w := (if w.flushFails then some "flush failed" else none, w)

end MemoryWriter

/-! ## Buffered writers -/

/-- A writer that collects bytes for another one. -/
structure BufferedWriter (W : Type) where
  inner : W
  /-- The bytes that were not passed on yet. -/
  pending : Array UInt8
deriving DecidableEq, Repr

namespace BufferedWriter

variable {W : Type}

/-- The most bytes that are collected. -/
abbrev capacity : Nat := 8192

/-- A writer that has collected nothing. -/
def start (inner : W) : BufferedWriter W := ⟨inner, #[]⟩

/-- Pass on what was collected. -/
def passOn [Writer W] (w : BufferedWriter W) : Option String × BufferedWriter W :=
  match Writer.write w.inner w.pending.toList with
  | (none, inner) => (none, ⟨inner, #[]⟩)
  | (some reason, inner) => (some reason, { w with inner := inner })

/-- Make room for some bytes more. -/
def makeRoom [Writer W] (w : BufferedWriter W) (count : Nat) :
    Option String × BufferedWriter W :=
  if capacity < w.pending.size + count then w.passOn else (none, w)

/-- Collect bytes for which there is room.  As many as can be collected at all
do not wait. -/
def collect [Writer W] (w : BufferedWriter W) (bytes : List UInt8) :
    Option String × BufferedWriter W :=
  if capacity ≤ bytes.length then
    let written := Writer.write w.inner bytes
    (written.1, { w with inner := written.2 })
  else
    (none, { w with pending := w.pending ++ bytes.toArray })

instance [Writer W] : Writer (BufferedWriter W) where
  write w bytes :=
    match w.makeRoom bytes.length with
    | (none, w) => w.collect bytes
    | refused => refused
  flush w :=
    match w.passOn with
    | (none, w) =>
      let flushed := Writer.flush w.inner
      (flushed.1, { w with inner := flushed.2 })
    | refused => refused

/-! ## What a buffered writer holds -/

/-- All bytes written, whether they were passed on or not. -/
def held (w : BufferedWriter MemoryWriter) : List UInt8 :=
  w.inner.written.toList ++ w.pending.toList

/-- Passing on keeps what is held. -/
theorem passOn_eq (w : BufferedWriter MemoryWriter) (h : w.inner.limit = none) :
    w.passOn = (none, ⟨{ w.inner with written := w.inner.written ++ w.pending }, #[]⟩) := by
  simp [passOn, Writer.write, h]

/-- Collecting adds to what is held. -/
theorem held_collect (w : BufferedWriter MemoryWriter) (bytes : List UInt8)
    (h : w.inner.limit = none) (hroom : capacity ≤ bytes.length → w.pending = #[]) :
    (w.collect bytes).2.held = w.held ++ bytes := by
  unfold collect
  split
  · rename_i hlong
    simp [held, Writer.write, h, hroom hlong]
  · simp [held]

/-- Writing adds the bytes to what is held. -/
theorem held_write (w : BufferedWriter MemoryWriter) (bytes : List UInt8)
    (h : w.inner.limit = none) : (Writer.write w bytes).2.held = w.held ++ bytes := by
  by_cases hfull : capacity < w.pending.size + bytes.length
  · have hpassed : w.makeRoom bytes.length = w.passOn := if_pos hfull
    simp only [Writer.write, hpassed, passOn_eq w h]
    exact (held_collect _ bytes (by exact h) (by simp)).trans (by simp [held])
  · have hroom : w.makeRoom bytes.length = (none, w) := if_neg hfull
    simp only [Writer.write, hroom]
    refine held_collect w bytes h fun hlong => Array.size_eq_zero_iff.1 ?_
    omega

/-- A flush passes on all that is held. -/
theorem held_flush (w : BufferedWriter MemoryWriter) (h : w.inner.limit = none) :
    (Writer.flush w).2.inner.written.toList = w.held := by
  simp [Writer.flush, passOn_eq w h, held]

end BufferedWriter

end GraphicsTerminal
