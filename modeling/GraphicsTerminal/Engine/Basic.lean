import GraphicsTerminal.Graphics.State
import GraphicsTerminal.Host.Channel
import GraphicsTerminal.Host.Transfer
import GraphicsTerminal.Protocol.Parser
import GraphicsTerminal.Settings.Basic

/-!
# The terminal engine

The engine is the terminal without its input: the parser, the screen, the
response channel, the graphics surface and what is known about the picture.
It reacts to one byte or one key at a time.

Main definitions:

- {lit}`Engine`: the state of the engine.
- {lit}`Engine.start`: the engine of a new session.
- {lit}`TerminalEvent`: what the owner of the terminal is told.
-/

namespace GraphicsTerminal

/-- What the owner of the terminal is told. -/
inductive TerminalEvent where
  | bell
  /-- The host link was lost; the session goes on locally. -/
  | linkLost (reason : String)
deriving DecidableEq, Repr

/-- The terminal without its input. -/
structure Engine (L S : Type) where
  settings : Settings
  parser : Parser
  screen : Screen
  channel : Channel L
  surface : S
  graphics : GraphicsState
  /-- The tape image, which may be what the surface has recorded so far. -/
  tape : S → TapeSource
  /-- Data bytes go to the alphanumeric screen. -/
  alphaActive : Bool
  /-- The events that were not collected yet, in order. -/
  events : Array TerminalEvent

namespace Engine

variable {L S : Type}

/-- The engine of a new session.  The surface is told the size of the picture. -/
def start [Surface S] (settings : Settings) (link : L) (surface : S)
    (tape : S → TapeSource) : Engine L S :=
  let size := settings.model.graphicsSize
  let graphics := GraphicsState.initial size.1 size.2
  { settings := settings
    parser := Parser.initial
    screen := Screen.initial
    channel := Channel.start link settings.remote
    surface := Surface.call surface (.screenSize graphics.width graphics.height)
    graphics := graphics
    tape := tape
    alphaActive := true
    events := #[] }

/-- Report an event. -/
def report (e : Engine L S) (event : TerminalEvent) : Engine L S :=
  { e with events := e.events.push event }

/-- Report a bell, if bells are reported. -/
def bell (e : Engine L S) : Engine L S :=
  if e.settings.sound then e.report .bell else e

/-- Report the loss of the link, once. -/
def reportLoss (e : Engine L S) : Engine L S :=
  let taken := e.channel.takeLoss
  let e := { e with channel := taken.2 }
  taken.1.elim e fun reason => e.report (.linkLost reason)

/-- The events so far, which are then forgotten. -/
def takeEvents (e : Engine L S) : List TerminalEvent × Engine L S :=
  (e.events.toList, { e with events := #[] })

/-- Change the screen. -/
def modifyScreen (e : Engine L S) (f : Screen → Screen) : Engine L S :=
  { e with screen := f e.screen }

/-- Tell the surface. -/
def tell [Surface S] (e : Engine L S) (call : SurfaceCall) : Engine L S :=
  { e with surface := Surface.call e.surface call }

/-- Arm a reply. -/
def arm (e : Engine L S) (reply : String) : Engine L S :=
  { e with channel := e.channel.arm reply }

/-- Use the channel, which may write to the screen. -/
def useChannel (e : Engine L S) (f : Channel L → Screen → Channel L × Screen) :
    Engine L S :=
  let used := f e.channel e.screen
  { e with channel := used.1, screen := used.2 }

/-- Send a text at once. -/
def sendText [HostLink L] (e : Engine L S) (text : String) : Engine L S :=
  e.useChannel fun channel screen => channel.sendText screen text

/-- Send bytes at once. -/
def sendBytes [HostLink L] (e : Engine L S) (bytes : List UInt8) : Engine L S :=
  e.useChannel fun channel screen => channel.sendBytes screen bytes

end Engine

end GraphicsTerminal
