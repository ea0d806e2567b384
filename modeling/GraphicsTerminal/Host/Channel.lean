import GraphicsTerminal.Host.Link
import GraphicsTerminal.Screen.Output

/-!
# The response channel

Most replies are armed: they wait until the host asks for them, and a newer
reply takes the place of an older one.  A few are sent at once.  When the link
refuses a write the channel becomes local for good: a notice is shown, and
from then on everything that would be sent is written to the screen instead.

Main definitions:

- {lit}`Channel.arm`, {lit}`Channel.release`: the armed reply.
- {lit}`Channel.sendBytes`: write to the host, or to the screen.
-/

namespace GraphicsTerminal

/-- The outbound side of the terminal. -/
structure Channel (L : Type) where
  link : L
  /-- Writes go to the link; otherwise they go to the screen. -/
  remote : Bool
  /-- The reply that waits for the host. -/
  pending : Option String
  /-- An acknowledgement waits until no input is left. -/
  ackPending : Bool
  /-- Why the link was lost, until this was reported. -/
  lost : Option String

namespace Channel

/-- The notice shown when the link is lost. -/
def lossNotice (reason : String) : String := "host link lost, local mode: " ++ reason

section

variable {L : Type}

/-- A channel over a link, which is used only when the channel is remote. -/
def start (link : L) (remote : Bool) : Channel L := ⟨link, remote, none, false, none⟩

/-- Arm a reply in place of one that still waits. -/
def arm (c : Channel L) (reply : String) : Channel L := { c with pending := some reply }

/-- Remember to acknowledge. -/
def queueAck (c : Channel L) : Channel L := { c with ackPending := true }

/-- The reason of a loss that was not reported yet, which is then reported. -/
def takeLoss (c : Channel L) : Option String × Channel L :=
  (c.lost, { c with lost := none })

end

section

variable {L : Type} [HostLink L]

/-- Write to the host.  A local channel writes to the screen; a link that
refuses makes the channel local, and shows a notice. -/
def sendBytes (c : Channel L) (screen : Screen) (bytes : List UInt8) :
    Channel L × Screen :=
  if c.remote then
    match HostLink.send c.link bytes with
    | (none, link) => ({ c with link := link }, screen)
    | (some reason, link) =>
      ({ c with link := link, remote := false, lost := some reason },
        screen.putText ("\r\n" ++ lossNotice reason ++ "\r\n"))
  else
    (c, screen.putBytes bytes)

/-- Write a text as UTF-8. -/
def sendText (c : Channel L) (screen : Screen) (text : String) : Channel L × Screen :=
  c.sendBytes screen (Text.utf8 text)

/-- Write one byte. -/
def sendByte (c : Channel L) (screen : Screen) (b : UInt8) : Channel L × Screen :=
  c.sendBytes screen [b]

/-- Send the armed reply, if there is one. -/
def release (c : Channel L) (screen : Screen) : Channel L × Screen :=
  match c.pending with
  | none => (c, screen)
  | some reply => { c with pending := none }.sendText screen reply

/-- Send the acknowledgement that waits, if there is one. -/
def flushAck (c : Channel L) (screen : Screen) : Channel L × Screen :=
  if c.ackPending then { c with ackPending := false }.sendByte screen Byte.ack
  else (c, screen)

end

end Channel

end GraphicsTerminal
