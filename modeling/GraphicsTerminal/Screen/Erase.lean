import GraphicsTerminal.Screen.Basic

/-!
# Erasing

Every erasure empties a range of cells and changes nothing else.  The ranges
are those between the cursor and the ends of the line, the view and memory.
-/

namespace GraphicsTerminal

namespace Screen

/-- Empty the cells whose numbers lie between two bounds, both included. -/
def eraseRange (s : Screen) (first last : Nat) : Screen :=
  { s with memory := s.memory.eraseRange first last }

/-- Empty all of memory. -/
def eraseMemory (s : Screen) : Screen := s.eraseRange 0 memoryEnd

/-- Empty the view. -/
def eraseView (s : Screen) : Screen := s.eraseRange s.viewStart s.viewEnd

/-- Empty the view up to the cursor. -/
def eraseToViewStart (s : Screen) : Screen := s.eraseRange s.viewStart s.cursorCell

/-- Empty the view from the cursor on. -/
def eraseToViewEnd (s : Screen) : Screen := s.eraseRange s.cursorCell s.viewEnd

/-- Empty memory from the cursor on. -/
def eraseToMemoryEnd (s : Screen) : Screen := s.eraseRange s.cursorCell memoryEnd

/-- Empty the line from the cursor on. -/
def eraseToLineEnd (s : Screen) : Screen := s.eraseRange s.cursorCell s.lineEnd

/-- Empty the line up to the cursor. -/
def eraseToLineStart (s : Screen) : Screen := s.eraseRange s.lineStart s.cursorCell

/-- Empty the line. -/
def eraseLine (s : Screen) : Screen := s.eraseRange s.lineStart s.lineEnd

/-- Empty cells of the line from the cursor on, at least one. -/
def eraseChars (s : Screen) (count : Nat) : Screen :=
  s.eraseRange s.cursorCell (min (s.cursorCell + (max count 1 - 1)) s.lineEnd)

end Screen

end GraphicsTerminal
