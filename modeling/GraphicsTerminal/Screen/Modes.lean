/-!
# Screen modes

Switches of the alphanumeric screen, set by host sequences and keys.
-/

namespace GraphicsTerminal

/-- The switches of the alphanumeric screen. -/
structure Modes where
  /-- A printed byte pushes the rest of the line to the right. -/
  insert : Bool
  /-- Printing in the last column goes on in the next row. -/
  lineWrap : Bool
  /-- Keys have no effect. -/
  keyboardLocked : Bool
  /-- Bytes outside the printable range are stored instead of dropped. -/
  displayFunctions : Bool
  /-- The alphanumeric cursor is shown. -/
  cursorVisible : Bool
  /-- The soft-key labels are shown. -/
  keyLabels : Bool
deriving DecidableEq, Repr

namespace Modes

/-- The switches of a terminal that was just reset. -/
def initial : Modes where
  insert := false
  lineWrap := true
  keyboardLocked := false
  displayFunctions := true
  cursorVisible := true
  keyLabels := true

/-- The switches in order. -/
def toList (m : Modes) : List Bool :=
  [m.insert, m.lineWrap, m.keyboardLocked, m.displayFunctions, m.cursorVisible,
    m.keyLabels]

/-- The switches as the bits of one number, the first as the lowest. -/
def word (m : Modes) : Nat :=
  m.toList.foldr (fun on rest => on.toNat + 2 * rest) 0

end Modes

end GraphicsTerminal
