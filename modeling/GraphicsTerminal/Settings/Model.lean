import GraphicsTerminal.Text.Blank
import GraphicsTerminal.Text.Byte

/-!
# Terminal models

The models that the terminal can stand for differ in their names, the size of
the picture and the bytes of the cursor keys.
-/

namespace GraphicsTerminal

/-- A terminal model. -/
inductive TerminalModel where
  | ansi
  | hp2648A
  | hp2627A
deriving DecidableEq, Repr

/-- A cursor key. -/
inductive CursorKey where
  | up
  | down
  | left
  | right
deriving DecidableEq, Repr

namespace TerminalModel

/-- The model of a default session. -/
def standard : TerminalModel := hp2627A

/-- The name of a model. -/
def name : TerminalModel → String
  | ansi => "ANSI"
  | hp2648A => "2648A"
  | hp2627A => "2627A"

/-- The model that a text names, whatever its letter case, with blanks around
it and the letters HP in front of it allowed. -/
def parse? (text : String) : Option TerminalModel :=
  let word := Text.lower (Text.trimBlank text)
  match (Text.after? "hp" word).getD word with
  | "ansi" | "vt100" => some ansi
  | "2648a" | "2648" => some hp2648A
  | "2627a" | "2627" => some hp2627A
  | _ => none

/-- The name by which the model answers the host. -/
def answerback : TerminalModel → String
  | ansi => "VT100"
  | hp2648A => "2648A"
  | hp2627A => "2627A"

/-- Width and height of the picture. -/
def graphicsSize : TerminalModel → Nat × Nat
  | ansi => (640, 480)
  | hp2648A => (720, 360)
  | hp2627A => (512, 390)

/-- The unit marker in the reply about the size of the picture. -/
def sizeMarker : TerminalModel → Char
  | hp2627A => '2'
  | _ => '3'

/-- The bytes of a cursor key. -/
def cursorKey : TerminalModel → CursorKey → List UInt8
  | ansi, .up => [Byte.esc, 0x5B, 0x41]
  | ansi, .down => [Byte.esc, 0x5B, 0x42]
  | ansi, .right => [Byte.esc, 0x5B, 0x43]
  | ansi, .left => [Byte.esc, 0x5B, 0x44]
  | _, .up => [0x01]
  | _, .down => [0x02]
  | _, .right => [0x03]
  | _, .left => [0x04]

/-- The terminal type that is advertised to a program. -/
def terminalType : TerminalModel → String
  | ansi => "vt100"
  | hp2648A => "hp2648a"
  | hp2627A => "hp2627a"

end TerminalModel

end GraphicsTerminal
