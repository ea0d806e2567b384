/-!
# File transfer

A transfer sends the whole tape image byte by byte and then two zero bytes.
If the image cannot be read, two bytes with all bits set are sent instead.  A
refused byte ends the transfer at once.

Main definitions:

- {lit}`TapeSource`: where the image comes from.
- {lit}`Transfer.stream`: send the image through a sender of bytes.
-/

namespace GraphicsTerminal

/-- Where the tape image comes from. -/
inductive TapeSource where
  /-- The image. -/
  | image (bytes : List UInt8)
  /-- The image cannot be read. -/
  | unreadable (reason : String)
deriving DecidableEq, Repr

/-- The source without an image. -/
def TapeSource.missing : TapeSource := unreadable "no transfer data"

/-- Why a transfer did not send the image. -/
inductive TransferError where
  /-- The image could not be read; this was told to the host. -/
  | source (reason : String)
  /-- The host refused a byte. -/
  | link (reason : String)
deriving DecidableEq, Repr

/-- The underlying reason. -/
def TransferError.reason : TransferError → String
  | source reason => reason
  | link reason => reason

/-- The error as text. -/
def TransferError.message : TransferError → String
  | source reason => "cannot read transfer source: " ++ reason
  | link reason => "host link failed during transfer: " ++ reason

namespace Transfer

/-- What follows an image. -/
def trailer : List UInt8 := [0x00, 0x00]

/-- What is sent in place of an image that cannot be read. -/
def failedTrailer : List UInt8 := [0xFF, 0xFF]

/-- Send bytes until one is refused, and give the reason of the refusal. -/
def sendAll {σ : Type} (send : σ → UInt8 → Option String × σ) (s : σ) :
    List UInt8 → Option String × σ
  | [] => (none, s)
  | b :: rest =>
    match send s b with
    | (none, s) => sendAll send s rest
    | (some reason, s) => (some reason, s)

/-- Send a tape image with its trailer.  The result is the number of bytes of
the image. -/
def stream {σ : Type} (source : TapeSource) (send : σ → UInt8 → Option String × σ)
    (s : σ) : Except TransferError Nat × σ :=
  match source with
  | .image bytes =>
    match sendAll send s (bytes ++ trailer) with
    | (none, s) => (.ok bytes.length, s)
    | (some reason, s) => (.error (.link reason), s)
  | .unreadable why =>
    match sendAll send s failedTrailer with
    | (none, s) => (.error (.source why), s)
    | (some reason, s) => (.error (.link reason), s)

end Transfer

end GraphicsTerminal
