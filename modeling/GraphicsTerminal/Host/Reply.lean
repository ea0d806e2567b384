import GraphicsTerminal.Graphics.Surface
import GraphicsTerminal.Number.Decimal

/-!
# Replies to the host

The texts that answer queries.  Coordinates are written with a plus sign and
five digits, a negative one with its minus sign among the five; cursor
positions are written with three digits.
-/

namespace GraphicsTerminal

namespace Reply

/-- The answer to the query for the primary status. -/
def primaryStatus : String := "\x1b\\8000020\r"

/-- The answer to the query for the secondary status. -/
def secondaryStatus : String := "\x1b|4506000\r"

/-- The answer to the query for the zoom state. -/
def zoomStatus : String := "001.,0\r"

/-- The answer to queries without another answer. -/
def unsupportedStatus : String := "0\r"

/-- Three digits. -/
def three (v : Int) : String := Decimal.padded 3 v

/-- A plus sign and five digits. -/
def five (v : Int) : String := "+" ++ Decimal.padded 5 v

/-- The position of the cursor in memory, as a sequence that returns to it. -/
def cursorSense (column memoryRow : Nat) : String :=
  "\x1b&a" ++ three column ++ "c" ++ three memoryRow ++ "R\r"

/-- The position of the cursor in the view, the column first. -/
def cursorReport (column row : Nat) : String :=
  "\x1b[" ++ three column ++ ";" ++ three row ++ "R\r"

/-- The position and state of the graphics pen. -/
def penReport (pen : Point) (down : Bool) : String :=
  five pen.x ++ "," ++ five pen.y ++ "," ++ (if down then "1" else "0") ++ "\r"

/-- The position of the graphics cursor. -/
def graphicsCursorReport (cursor : Point) : String :=
  five cursor.x ++ "," ++ five cursor.y ++ "\r"

/-- The position and code of a click. -/
def clickReport (click : Click) : String :=
  five click.position.x ++ "," ++ five click.position.y ++ "," ++ three click.code ++ "\r"

/-- The corners of the picture, and a unit marker that tells models apart. -/
def displaySizeReport (width height : Nat) (marker : Char) : String :=
  let unit := "0000" ++ String.singleton marker ++ "."
  five 0 ++ "," ++ five 0 ++ "," ++ five ((width - 1 : Nat) : Int) ++ "," ++
    five ((height - 1 : Nat) : Int) ++ "," ++ unit ++ "," ++ unit ++ "\r"

/-- The name by which the terminal answers. -/
def answerback (name : String) : String := name ++ "\r"

/-- A line of the screen. -/
def line (bytes : List UInt8) : String := Text.ofBytes bytes ++ "\r"

end Reply

end GraphicsTerminal
