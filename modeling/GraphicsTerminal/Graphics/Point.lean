import GraphicsTerminal.Number.Word

/-!
# Points

Positions on the graphics surface, in device units.
-/

namespace GraphicsTerminal

/-- A position on the graphics surface. -/
structure Point where
  x : Int
  y : Int
deriving DecidableEq, Repr

namespace Point

/-- The lower left corner. -/
def origin : Point := ⟨0, 0⟩

/-- The point at a distance; each coordinate stops at the end of its range. -/
def offset (p : Point) (dx dy : Int) : Point := ⟨Word.add p.x dx, Word.add p.y dy⟩

end Point

end GraphicsTerminal
