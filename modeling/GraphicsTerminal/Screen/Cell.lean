import GraphicsTerminal.Screen.Enhancement

/-!
# Cells of screen memory

A cell is either empty, that is never written since it was last erased, or it
holds one byte and the enhancement it was written in.  An empty cell is shown as
a space, but reading a line back tells it from a written space.
-/

namespace GraphicsTerminal

/-- One cell of screen memory. -/
inductive Cell where
  /-- Never written since the last erasure. -/
  | empty
  /-- A byte written in an enhancement. -/
  | written (content : UInt8) (style : Enhancement)
deriving DecidableEq, Repr

namespace Cell

/-- The byte shown; an empty cell shows a space. -/
def content : Cell → UInt8
  | empty => 0x20
  | written content _ => content

/-- The enhancement of a written cell. -/
def style? : Cell → Option Enhancement
  | empty => none
  | written _ style => some style

/-- Whether the cell is empty. -/
def isEmpty : Cell → Bool
  | empty => true
  | written _ _ => false

end Cell

end GraphicsTerminal
