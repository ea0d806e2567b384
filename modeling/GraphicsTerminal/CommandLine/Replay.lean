import GraphicsTerminal.CommandLine.FileSystem
import GraphicsTerminal.CommandLine.Options
import GraphicsTerminal.Graphics.Hpgl
import GraphicsTerminal.Terminal

/-!
# Replaying captured host bytes

A replay runs a terminal over captured host bytes without a host: replies are
discarded, and the picture goes to the HP-GL log, if one is asked for.  At the
end the text of the screen can be printed.

While the session runs, the program takes its events and reports them: bells, and
the loss of the link.  Events that it has not taken when it stops the session are
not reported, so the report depends on how many came too late.

The log reaches its file through a buffer.  A tape image in the file of the log
is therefore what was passed on when the transfer begins.

Main definitions:

- {lit}`Replay.run`: the report of a replay and the HP-GL log.
- {lit}`Replay.Files`: how a program reaches its files.
- {lit}`Replay.replay`: a replay that finds its sources in files.
- {lit}`Replay.runIn`: a replay in a file system.
-/

namespace GraphicsTerminal

namespace Replay

/-- Where a replay finds its tape image. -/
inductive TapeFile where
  /-- In a file of its own, which gives this image. -/
  | own (image : TapeSource)
  /-- In the file of the log. -/
  | log
deriving DecidableEq, Repr

/-- The tape image while the file of the log holds some bytes. -/
def TapeFile.image (tape : TapeFile) (logFile : List UInt8) : TapeSource :=
  match tape with
  | own image => image
  | log => .image logFile

/-- What the outside world gives to a replay. -/
structure Sources where
  /-- The captured bytes, or the reason why their file cannot be read. -/
  host : Except FileError (List UInt8)
  /-- The reason why the file for the log cannot be created. -/
  captureRefused : Option FileError
  tape : TapeFile
  /-- The number of events that the program was too late to take. -/
  unheard : Nat

/-- What came of a replay. -/
structure Outcome where
  report : Report
  /-- The HP-GL log, if its file was created. -/
  log : Option (List UInt8)

/-- The report of a program that failed. -/
def failure (reason : String) : Report := ⟨1, "", "hpterm: " ++ reason ++ "\n"⟩

/-- The reason given when the session was refused an operation. -/
def refusedReason : String := "session thread panicked"

/-- The reports about settings that are out of range. -/
def invalidSettings (problems : List SettingError) : Report :=
  ⟨1, "", UsageError.lines (problems.map ("Invalid configuration: " ++ ·.text))⟩

/-- The path of the captured bytes, or the report when there is no replay. -/
def path? (options : Options) : Except Report String :=
  match options.settings.problems, options.mode with
  | p :: ps, _ => .error (invalidSettings (p :: ps))
  | [], .replay path => .ok path
  | [], .connect _ => .error (failure "sessions over a network are not offered")
  | [], .run _ => .error (failure "sessions with a program are not offered")

/-- The bytes that a file gives to a replay.  A directory can be opened, but it
gives no bytes. -/
def hostBytes : Except FileError (List UInt8) → Except FileError (List UInt8)
  | .error .isDirectory => .ok []
  | result => result

/-- The tape image that a file gives. -/
def tapeOf : Except FileError (List UInt8) → TapeSource
  | .ok bytes => .image bytes
  | .error error => .unreadable error.reason

/-! ## The log -/

/-- A surface that draws nothing and writes its log through a buffer. -/
abbrev LoggingSurface : Type := HpglCapture BlankSurface (BufferedWriter MemoryWriter)

namespace LoggingSurface

/-- The surface with the log of a new session. -/
def start : LoggingSurface :=
  HpglCapture.start BlankSurface.mk (BufferedWriter.start MemoryWriter.unlimited)

/-- The bytes in the file of the log; others may still wait in the buffer. -/
def logFile (surface : LoggingSurface) : List UInt8 :=
  surface.out.elim [] (·.inner.written.toList)

/-- The log of a session that came to its end. -/
def finished (surface : LoggingSurface) : List UInt8 :=
  surface.finish.2.elim [] (·.held)

/-- The log of a session that stopped: it has no trailer. -/
def abandoned (surface : LoggingSurface) : List UInt8 :=
  surface.out.elim [] (·.held)

end LoggingSurface

/-! ## The session -/

/-- A terminal whose replies are discarded. -/
def terminal {S : Type} [Surface S] (settings : Settings) (surface : S)
    (tape : S → TapeSource) : Terminal DiscardingLink S :=
  Terminal.start settings DiscardingLink.mk surface tape

/-- A terminal after those bytes that come before the first refused one. -/
def beforeFault {L S : Type} [HostLink L] [Surface S] (t : Terminal L S) :
    List UInt8 → Terminal L S
  | [] => t
  | b :: rest =>
    match t.feed [b] with
    | .error _ => t
    | .ok next => beforeFault next rest

/-- A terminal after captured bytes, or up to the first refused one. -/
def ending {L S : Type} [HostLink L] [Surface S] (t : Terminal L S) (bytes : List UInt8) :
    Except (Terminal L S) (Terminal L S) :=
  match t.feed bytes with
  | .error _ => .error (beforeFault t bytes)
  | .ok t => .ok t

/-! ## Reports -/

/-- The text of an event. -/
def eventText : TerminalEvent → String
  | .bell => "\x07"
  | .linkLost reason => "hpterm: " ++ reason ++ "\n"

/-- The events of a terminal but for some that came too late. -/
def heard {L S : Type} (unheard : Nat) (t : Terminal L S) : List TerminalEvent :=
  t.engine.events.toList.take (t.engine.events.size - unheard)

/-- The report of a session: the events that were taken, and the text of the screen. -/
def sessionReport {L S : Type} (dump : Bool) (taken : List TerminalEvent) (t : Terminal L S) :
    Report where
  exitCode := 0
  stdout := if dump then t.engine.screen.visibleText ++ "\n" else ""
  stderr := String.join (taken.map eventText)

/-- The report of a session that was refused an operation. -/
def refusedReport (taken : List TerminalEvent) : Report :=
  { failure refusedReason with
    stderr := String.join (taken.map eventText) ++ (failure refusedReason).stderr }

/-- The report of a session that ended in some way. -/
def endingReport {L S : Type} (dump : Bool) (unheard : Nat) :
    Except (Terminal L S) (Terminal L S) → Report
  | .error t => refusedReport (heard unheard t)
  | .ok t => sessionReport dump (heard unheard t) t

/-- The log of a session that ended in some way. -/
def endingLog {L : Type} :
    Except (Terminal L LoggingSurface) (Terminal L LoggingSurface) → List UInt8
  | .error t => t.engine.surface.abandoned
  | .ok t => t.engine.surface.finished

/-- Replay captured bytes. -/
def run (options : Options) (sources : Sources) : Outcome :=
  match hostBytes sources.host, options.hpgl, sources.captureRefused with
  | .error error, _, _ => ⟨failure error.reason, none⟩
  | .ok bytes, none, _ =>
    let t := terminal options.settings BlankSurface.mk fun _ => sources.tape.image []
    ⟨endingReport options.dump sources.unheard (ending t bytes), none⟩
  | .ok _, some _, some error => ⟨failure error.reason, none⟩
  | .ok bytes, some _, none =>
    let t := terminal options.settings LoggingSurface.start fun surface =>
      sources.tape.image surface.logFile
    let ended := ending t bytes
    ⟨endingReport options.dump sources.unheard ended, some (endingLog ended)⟩

/-! ## The files -/

/-- How a program reaches its files. -/
structure Files (m : Type → Type) where
  read : String → m (Except FileError (List UInt8))
  /-- Write a file anew; the reason is given if it cannot be written. -/
  write : String → List UInt8 → m (Option FileError)
  /-- Whether two paths lead to the same file. -/
  sameFile : String → String → m Bool

section

variable {m : Type → Type} [Monad m]

/-- Create the file for the log, once the captured bytes were found. -/
def createLog (files : Files m) (options : Options) (path : String) : m (Option FileError) := do
  match hostBytes (← files.read path), options.hpgl with
  | .ok _, some log => files.write log []
  | _, _ => return none

/-- The tape image, which may be in the file of the log. -/
def findTape (files : Files m) (options : Options) : m TapeFile := do
  let path := options.settings.tapePath
  if ← options.hpgl.elim (pure false) (files.sameFile · path) then
    return .log
  else
    return .own (tapeOf (← files.read path))

/-- Write the log to its file, if there is one. -/
def writeLog (files : Files m) (options : Options) (outcome : Outcome) : m Unit := do
  match options.hpgl, outcome.log with
  | some path, some log => discard (files.write path log)
  | _, _ => return ()

/-- Replay the bytes that were captured in a file.  They and the tape image are read
when the file for the log was created, which may be the same one. -/
def replay (files : Files m) (options : Options) (unheard : Nat) : m Report := do
  match path? options with
  | .error report => return report
  | .ok path =>
    let refused ← createLog files options path
    let host ← files.read path
    let tape ← findTape files options
    let outcome := run options ⟨host, refused, tape, unheard⟩
    writeLog files options outcome
    return outcome.report

end

/-- The files of a file system. -/
def filesIn : Files (StateM FileSystem) where
  read path := do return (← get).read path
  write path bytes := do
    match (← get).createPlace path with
    | .error error => return some error
    | .ok place =>
      modify (·.write place bytes)
      return none
  sameFile path other := do return (← get).sameFile path other

/-- A replay in a file system, in which no event comes too late: the report, with what
was printed before it, and the file system after it. -/
def runIn (options : Options) (fs : FileSystem) : Report × FileSystem :=
  let (report, fs) := (replay filesIn options 0).run fs
  ({ report with stdout := (Text.ofUtf8? fs.printed).getD "" ++ report.stdout }, fs)

end Replay

end GraphicsTerminal
