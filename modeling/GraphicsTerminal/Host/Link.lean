import GraphicsTerminal.Host.Writer

/-!
# Host links

Replies leave the terminal over a link that accepts or refuses each write.
Any type can be a link; two are given here, one that records what it accepts
and one that passes it to a writer.

Main definitions:

- {lit}`HostLink`: the interface of a link.
- {lit}`RecordingLink`, {lit}`WriterLink`: two links.
-/

namespace GraphicsTerminal

/-- A type of links to the host. -/
class HostLink (L : Type) where
  /-- The link after a write, and the reason if it refused the write. -/
  send : L → List UInt8 → Option String × L

/-! ## A link that records -/

/-- A link that records accepted bytes, up to a limit. -/
structure RecordingLink where
  /-- The bytes accepted so far. -/
  sent : Array UInt8
  /-- The number of bytes accepted in total; a write that would pass it is
  refused as a whole. -/
  limit : Option Nat
  /-- Every write is refused. -/
  closed : Bool
deriving DecidableEq, Repr

namespace RecordingLink

/-- A link that accepts every write. -/
def unlimited : RecordingLink := ⟨#[], none, false⟩

/-- A link that accepts a number of bytes. -/
def limited (limit : Option Nat) : RecordingLink := ⟨#[], limit, false⟩

/-- A link that refuses every write. -/
def failing : RecordingLink := ⟨#[], none, true⟩

/-- Whether a write of a number of bytes is accepted. -/
def accepts (link : RecordingLink) (count : Nat) : Bool :=
  !link.closed && link.limit.all (link.sent.size + count ≤ ·)

instance : HostLink RecordingLink where
  send link bytes :=
    if link.accepts bytes.length then
      (none, { link with sent := link.sent ++ bytes.toArray })
    else
      (some "link closed", link)

end RecordingLink

/-! ## A link over a writer -/

/-- A link that passes every write to a writer and flushes it. -/
structure WriterLink (W : Type) where
  writer : W

instance {W : Type} [Writer W] : HostLink (WriterLink W) where
  send link bytes :=
    match Writer.write link.writer bytes with
    | (some reason, writer) => (some reason, ⟨writer⟩)
    | (none, writer) =>
      let flushed := Writer.flush writer
      (flushed.1, ⟨flushed.2⟩)

/-! ## A link that discards -/

/-- A link that accepts every write and forgets it. -/
structure DiscardingLink where
deriving DecidableEq, Repr

instance : HostLink DiscardingLink where
  send link _ := (none, link)

end GraphicsTerminal
