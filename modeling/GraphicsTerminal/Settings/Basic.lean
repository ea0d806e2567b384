import GraphicsTerminal.Input.Ring
import GraphicsTerminal.Settings.Duration
import GraphicsTerminal.Settings.Model

/-!
# Session settings

All switches of a session are one value.  A field that is out of its range is
reported by name, with its value and the range.

Main definitions:

- {lit}`Settings.forModel`: the default settings of a model.
- {lit}`Settings.problems`: the fields that are out of range.
- {lit}`Settings.Valid`: no field is out of range.
-/

namespace GraphicsTerminal

/-- The switches of a session. -/
structure Settings where
  model : TerminalModel
  /-- Answer an enquiry with an acknowledgement once no input is left, instead
  of the answerback at once. -/
  enqAck : Bool
  /-- The name by which the terminal answers. -/
  answerback : String
  /-- What the enter key sends. -/
  enterByte : UInt8
  /-- Bells are reported. -/
  sound : Bool
  /-- The session starts with the host link in use. -/
  remote : Bool
  /-- Cursor and editing keys act on the screen instead of being sent. -/
  localKeys : Bool
  /-- Bytes from 0x80 on are shown as inverse characters of seven bits. -/
  invertHighBytes : Bool
  /-- The file that a transfer sends. -/
  tapePath : String
  /-- The pause after each byte of a transfer, in nanoseconds. -/
  transferPacing : Nat
  /-- The pause of a session without input, in nanoseconds. -/
  idlePoll : Nat
  /-- The number of cells of the input ring. -/
  ringCapacity : Nat
  /-- How much is logged. -/
  traceLevel : Nat
deriving DecidableEq, Repr

/-- A field whose value was not accepted. -/
structure SettingError where
  field : String
  value : String
  /-- What is accepted. -/
  message : String
deriving DecidableEq, Repr

/-- The error as text. -/
def SettingError.text (e : SettingError) : String :=
  e.field ++ "=" ++ e.value ++ " (" ++ e.message ++ ")"

namespace Settings

/-- The default settings of a model. -/
def forModel (model : TerminalModel) : Settings where
  model := model
  enqAck := true
  answerback := model.answerback
  enterByte := Byte.cr
  sound := true
  remote := true
  localKeys := true
  invertHighBytes := false
  tapePath := "LTape.raw"
  transferPacing := 10 * Duration.millisecond
  idlePoll := 10 * Duration.millisecond
  ringCapacity := Ring.defaultCapacity
  traceLevel := 0

/-- The settings of a default session. -/
def standard : Settings := forModel .standard

/-- The fields that are out of range. -/
def problems (s : Settings) : List SettingError :=
  (if s.ringCapacity < 2 then
    [⟨"ring_capacity", Decimal.text s.ringCapacity, "must be >= 2"⟩] else []) ++
  (if s.answerback = "" then [⟨"answerback", "", "must not be empty"⟩] else []) ++
  (if Duration.second < s.transferPacing then
    [⟨"transfer_pacing", Duration.text s.transferPacing, "must be <= 1s"⟩] else []) ++
  (if s.idlePoll = 0 ∨ Duration.second < s.idlePoll then
    [⟨"idle_poll", Duration.text s.idlePoll, "must be within 1ns..=1s"⟩] else [])

/-- No field is out of range. -/
def Valid (s : Settings) : Prop := s.problems = []

instance (s : Settings) : Decidable s.Valid := inferInstanceAs (Decidable (_ = _))

/-- The name of the log level. -/
def traceDirective (s : Settings) : String :=
  match s.traceLevel with
  | 0 => "warn"
  | 1 => "info"
  | 2 => "debug"
  | _ => "trace"

end Settings

end GraphicsTerminal
