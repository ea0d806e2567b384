import GraphicsTerminal.Settings.Basic

/-!
# Settings from the environment

Settings start from the defaults of the model that the environment names, and
each further variable replaces one field.  A value that is not understood is
reported and leaves its field as it was.  Every text is understood as an
answerback: the empty one is taken too, and reported with the fields that are out
of range.

Main definitions:

- {lit}`Environment.names`: the names of the variables, in the order of their use.
- {lit}`Settings.ofEnvironment`: the settings and the errors of an environment.

Main results:

- Theorem {lit}`Settings.ofEnvironment_congr`: no other variable is used.
-/

namespace GraphicsTerminal

namespace Environment

/-- The names of the variables, in the order of their use. -/
def names : List String :=
  ["HPTERM_TERMINAL", "HPTERM_ENQ_ACK", "HPTERM_SOUND", "HPTERM_REMOTE",
    "HPTERM_LOCAL_KEYS", "HPTERM_CPM_HIGH_BIT", "HPTERM_ANSWERBACK",
    "HPTERM_TAPE_PATH", "HPTERM_TRACE"]

/-- The truth value that a text names. -/
def parseSwitch? (text : String) : Option Bool :=
  match Text.lower (Text.trimBlank text) with
  | "1" | "true" | "yes" | "on" => some true
  | "0" | "false" | "no" | "off" => some false
  | _ => none

/-- The number from 0 to 255 that a text names: decimal digits after an
optional plus sign. -/
def parseLevel? (text : String) : Option Nat :=
  let word := (Text.trimBlank text).toList
  let digits := if word.head? = some '+' then word.tail else word
  if digits.isEmpty || !digits.all Char.isDigit then
    none
  else
    let level := Nat.ofDigitChars 10 digits 0
    if level ≤ 255 then some level else none

end Environment

namespace Settings

/-- Settings in the making, with the errors so far. -/
structure Draft where
  settings : Settings
  errors : List SettingError
deriving DecidableEq, Repr

namespace Draft

/-- Use a variable, if it is set: a value that is understood changes the
settings, any other is reported. -/
def use {α : Type} (d : Draft) (value : Option String) (parse? : String → Option α)
    (field message : String) (apply : Settings → α → Settings) : Draft :=
  match value with
  | none => d
  | some text =>
    match parse? text with
    | some parsed => { d with settings := apply d.settings parsed }
    | none => { d with errors := d.errors ++ [⟨field, text, message⟩] }

/-- Use a variable that holds a truth value. -/
def useSwitch (d : Draft) (value : Option String) (field : String)
    (apply : Settings → Bool → Settings) : Draft :=
  d.use value Environment.parseSwitch? field "expected bool (1/0/true/false)" apply

end Draft

/-- The settings that an environment gives, and its errors.  Fields out of
range are reported last. -/
def ofEnvironment (lookup : String → Option String) : Settings × List SettingError :=
  let d : Draft := ⟨standard, []⟩
  let d := d.use (lookup "HPTERM_TERMINAL") TerminalModel.parse? "terminal"
    "expected ansi|2648a|2627a" fun _ model => forModel model
  let d := d.useSwitch (lookup "HPTERM_ENQ_ACK") "enq_ack"
    fun s on => { s with enqAck := on }
  let d := d.useSwitch (lookup "HPTERM_SOUND") "sound"
    fun s on => { s with sound := on }
  let d := d.useSwitch (lookup "HPTERM_REMOTE") "remote"
    fun s on => { s with remote := on }
  let d := d.useSwitch (lookup "HPTERM_LOCAL_KEYS") "local_keys"
    fun s on => { s with localKeys := on }
  let d := d.useSwitch (lookup "HPTERM_CPM_HIGH_BIT") "cpm_high_bit"
    fun s on => { s with invertHighBytes := on }
  let d := d.use (lookup "HPTERM_ANSWERBACK") some "answerback" ""
    fun s text => { s with answerback := text }
  let d := d.use (lookup "HPTERM_TAPE_PATH") some "tape_path" ""
    fun s path => { s with tapePath := path }
  let d := d.use (lookup "HPTERM_TRACE") Environment.parseLevel? "trace_level"
    "expected integer 0-255" fun s level => { s with traceLevel := level }
  (d.settings, d.errors ++ d.settings.problems)

/-- The settings and the errors depend on the named variables only. -/
theorem ofEnvironment_congr {lookup lookup' : String → Option String}
    (h : ∀ name ∈ Environment.names, lookup name = lookup' name) :
    ofEnvironment lookup = ofEnvironment lookup' := by
  simp only [Environment.names, List.forall_mem_cons] at h
  rcases h with ⟨hterminal, henqAck, hsound, hremote, hlocalKeys, hhighBit, hanswerback,
    htapePath, htrace, -⟩
  simp only [ofEnvironment, hterminal, henqAck, hsound, hremote, hlocalKeys, hhighBit,
    hanswerback, htapePath, htrace]

end Settings

end GraphicsTerminal
