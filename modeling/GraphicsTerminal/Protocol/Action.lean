import GraphicsTerminal.Protocol.ControlSequence
import GraphicsTerminal.Protocol.CursorAddress
import GraphicsTerminal.Protocol.DisplayOp
import GraphicsTerminal.Protocol.ModeOp
import GraphicsTerminal.Protocol.SingleCommand
import GraphicsTerminal.Screen.Enhancement

/-!
# Actions

An action is what a complete unit of the host stream asks the terminal to do.
-/

namespace GraphicsTerminal

/-- What a key-label sequence asks for. -/
inductive KeyLabelCommand where
  | hide
  | showModeKeys
  | showUserKeys
  /-- Accepted without effect. -/
  | inert (code : UInt8)
deriving DecidableEq, Repr

/-- The command that the last byte of a key-label sequence names. -/
def KeyLabelCommand.ofFinal (b : UInt8) : KeyLabelCommand :=
  match Byte.char b with
  | '@' => hide
  | 'A' => showModeKeys
  | 'B' => showUserKeys
  | _ => inert b

/-- The enhancement codes that the last byte of an enhancement sequence
stands for. -/
def Enhancement.codesOfFinal? (b : UInt8) : Option (List Int) :=
  match Byte.char b with
  | '@' => some [0]
  | 'B' | 'C' | 'J' => some [7]
  | 'D' | 'E' => some [5]
  | 'F' | 'G' => some [7, 5]
  | _ => none

/-- What a complete unit of the host stream asks for. -/
inductive Action where
  /-- A byte for the alphanumeric screen. -/
  | data (b : UInt8)
  | bell
  /-- The host is ready for the armed reply. -/
  | handshake
  | single (command : SingleCommand)
  | control (command : ControlSequence)
  | display (ops : List DisplayOp)
  | drawing (ops : List ModeOp)
  /-- Choose the pen for graphics text, counted from 1. -/
  | textPen (pen : Int)
  /-- Interpret a plot body. -/
  | plot (body : Payload)
  /-- Answer a status query. -/
  | status (query : Option Int)
  | cursorAddress (terms : List AddressTerm)
  /-- Apply enhancement codes in order. -/
  | enhance (codes : List Int)
  | keyLabels (command : KeyLabelCommand)
  | keyboardLock (locked : Bool)
  | charset (charset : Charset)
  /-- Draw graphics text that is complete. -/
  | graphicsText (text : String)
  /-- A known sequence without effect. -/
  | inert (payload : List UInt8)
  /-- An unknown sequence. -/
  | unrecognized (payload : List UInt8)
deriving DecidableEq, Repr

end GraphicsTerminal
