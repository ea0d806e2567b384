import GraphicsTerminal.Settings.Environment

/-!
# Command line options

The command line names where host bytes come from, after options that change
the settings of the environment.  The last of several options of one kind
counts.  The answerback of an explicit option is kept whatever model is chosen
before or after it.

Main definitions:

- {lit}`HostMode`: where host bytes come from.
- {lit}`Options.parse`: the options of an argument list.
- {lit}`UsageError.report`: what is printed instead of a session.
-/

namespace GraphicsTerminal

/-- Where host bytes come from. -/
inductive HostMode where
  /-- A network address. -/
  | connect (address : String)
  /-- A program with its arguments. -/
  | run (words : List String)
  /-- A file of captured host bytes. -/
  | replay (path : String)
deriving DecidableEq, Repr

/-- The choices of a command line. -/
structure Options where
  settings : Settings
  /-- The errors of the environment. -/
  errors : List SettingError
  /-- The file for the HP-GL log. -/
  hpgl : Option String
  /-- Print the text of the screen at the end. -/
  dump : Bool
  mode : HostMode
deriving DecidableEq, Repr

/-- Why there is no session. -/
inductive UsageError where
  /-- Help was asked for. -/
  | help
  /-- The version was asked for. -/
  | version
  | invalidValue (flag value : String)
  | unknownArgument (argument : String)
  | missingMode
  | missingOperand (mode : String)
deriving DecidableEq, Repr

/-- What a program prints and how it ends. -/
structure Report where
  exitCode : Nat
  stdout : String
  stderr : String
deriving DecidableEq, Repr

namespace UsageError

/-- The version. -/
def versionText : String := "hpterm 0.1.0"

/-- The help. -/
def helpText : String :=
  String.intercalate "\n"
    ["hpterm: HP 2627A / 2648A terminal engine",
      "",
      "USAGE:",
      "    hpterm [OPTIONS] connect HOST:PORT",
      "    hpterm [OPTIONS] run -- COMMAND [ARGS...]",
      "    hpterm [OPTIONS] replay FILE",
      "",
      "OPTIONS:",
      "    --terminal=ID        Terminal model: '2627A', '2648A', or 'ANSI' (default: 2627A)",
      "    --no-enq-ack         Answer ENQ with the answerback string instead of ACK",
      "    --answerback=TEXT    Override the answerback string",
      "    --hpgl=PATH          Write plot output as HP-GL to PATH",
      "    --dump               Print the visible screen text on exit",
      "    --help, -h           Show this help message",
      "    --version, -V        Show version",
      "",
      "KEYBOARD:",
      "    Lines typed on stdin are sent to the host as keystrokes; newline sends",
      "    the configured enter byte.",
      "",
      "ENVIRONMENT VARIABLES:",
      "    HPTERM_TERMINAL      Terminal model (overridden by --terminal)",
      "    HPTERM_ENQ_ACK       ENQ/ACK handshake (1/true, 0/false)",
      "    HPTERM_ANSWERBACK    Answerback string",
      "    HPTERM_SOUND         Ring the bell (1/true, 0/false)",
      "    HPTERM_REMOTE        Start in remote mode (1/true, 0/false)",
      "    HPTERM_LOCAL_KEYS    Interpret editing keys locally (1/true, 0/false)",
      "    HPTERM_CPM_HIGH_BIT  Render high-bit bytes in inverse (1/true, 0/false)",
      "    HPTERM_TAPE_PATH     File served by the ESC e transfer",
      "    HPTERM_TRACE         Log verbosity 0..3 (RUST_LOG wins when set)"]

/-- The hint that follows some errors. -/
def helpHint : String := "Run with --help for usage information."

/-- Lines of text, each with its end. -/
def lines (texts : List String) : String := String.join (texts.map (· ++ "\n"))

/-- What is printed instead of a session. -/
def report : UsageError → Report
  | help => ⟨0, lines [helpText], ""⟩
  | version => ⟨0, lines [versionText], ""⟩
  | invalidValue flag value => ⟨1, "", lines ["Invalid " ++ flag ++ " value: " ++ value]⟩
  | unknownArgument argument =>
    ⟨1, "", lines ["Unknown argument: " ++ argument, helpHint]⟩
  | missingMode => ⟨1, "", lines ["Expected one of: connect, run, replay", helpHint]⟩
  | missingOperand mode => ⟨1, "", lines ["Missing operand for '" ++ mode ++ "'"]⟩

end UsageError

namespace Options

/-- The choices so far. -/
structure Draft where
  settings : Settings
  /-- The answerback of the last explicit option. -/
  answerback : Option String
  hpgl : Option String
  dump : Bool
  mode : Option HostMode
deriving DecidableEq, Repr

namespace Draft

/-- Use a value that must not be empty. -/
def nonempty (flag value : String) : Except UsageError String :=
  if value = "" then .error (.invalidValue flag value) else .ok value

/-- Use an option that carries a value. -/
def useFlag (d : Draft) (argument : String) : Except UsageError Draft :=
  if let some value := Text.after? "--terminal=" argument then
    match TerminalModel.parse? value with
    | none => .error (.invalidValue "--terminal" value)
    | some model =>
      .ok { d with
        settings := { d.settings with model := model, answerback := model.answerback } }
  else if let some value := Text.after? "--answerback=" argument then
    (nonempty "--answerback" value).map fun value => { d with answerback := some value }
  else if let some value := Text.after? "--hpgl=" argument then
    (nonempty "--hpgl" value).map fun value => { d with hpgl := some value }
  else
    .error (.unknownArgument argument)

/-- The words of a program, without the marker in front of them. -/
def programWords : List String → List String
  | "--" :: words => words
  | words => words

/-- Use arguments in order. -/
def useArguments (d : Draft) : List String → Except UsageError Draft
  | [] => .ok d
  | "--help" :: _ => .error .help
  | "-h" :: _ => .error .help
  | "--version" :: _ => .error .version
  | "-V" :: _ => .error .version
  | "--no-enq-ack" :: rest =>
    useArguments { d with settings := { d.settings with enqAck := false } } rest
  | "--dump" :: rest => useArguments { d with dump := true } rest
  | ["connect"] => .error (.missingOperand "connect")
  | "connect" :: address :: rest =>
    useArguments { d with mode := some (.connect address) } rest
  | ["replay"] => .error (.missingOperand "replay")
  | "replay" :: path :: rest => useArguments { d with mode := some (.replay path) } rest
  | "run" :: rest =>
    if (programWords rest).isEmpty then .error (.missingOperand "run")
    else .ok { d with mode := some (.run (programWords rest)) }
  | argument :: rest => do
    let d ← d.useFlag argument
    useArguments d rest

end Draft

/-- The options of an argument list, over the settings of an environment. -/
def parse (arguments : List String) (lookup : String → Option String) :
    Except UsageError Options := do
  let (settings, errors) := Settings.ofEnvironment lookup
  let d ← Draft.useArguments ⟨settings, none, none, false, none⟩ arguments
  match d.mode with
  | none => .error .missingMode
  | some mode =>
    .ok
      { settings := { d.settings with answerback := d.answerback.getD d.settings.answerback }
        errors := errors
        hpgl := d.hpgl
        dump := d.dump
        mode := mode }

end Options

end GraphicsTerminal
