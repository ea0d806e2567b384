import GraphicsTerminal.CommandLine.Replay

/-!
# The command line program

The program reads its environment, arguments and files, replays captured host
bytes, and prints the report.  Sessions with a live host are not offered.
-/

open GraphicsTerminal

/-- The positive form of an error number. -/
def positive (number : UInt32) : Nat := min number.toNat (-number).toNat

/-- The error of the system as an error of a file. -/
def fileError (error : IO.Error) : FileError :=
  match error with
  | .noFileOrDirectory _ number text | .permissionDenied _ number text
  | .inappropriateType _ number text | .invalidArgument _ number text
  | .noSuchThing _ number text | .otherError number text => .ofNumber (positive number) text
  | error => .other (toString error)

/-- The bytes of a file, or the reason why it cannot be read. -/
def readFile (path : String) : IO (Except FileError (List UInt8)) := do
  try
    let bytes ← IO.FS.readBinFile path
    return .ok bytes.toList
  catch error =>
    return .error (fileError error)

/-- Whether two paths lead to the same file. -/
def sameFile (path other : String) : IO Bool := do
  try
    let found ← IO.FS.realPath path
    let status ← found.metadata
    return status.type == .file && found == (← IO.FS.realPath other)
  catch _ =>
    return false

/-- Write a file; the reason is given if it cannot be written. -/
def writeFile (path : String) (bytes : List UInt8) : IO (Option FileError) := do
  try
    IO.FS.writeBinFile path (ByteArray.mk bytes.toArray)
    return none
  catch error =>
    return some (fileError error)

/-- The files of the system. -/
def systemFiles : Replay.Files IO := ⟨readFile, writeFile, sameFile⟩

/-- Print a report and end with its code. -/
def finishWith (report : Report) : IO UInt32 := do
  IO.print report.stdout
  IO.eprint report.stderr
  return UInt32.ofNat report.exitCode

/-- The program. -/
def main (arguments : List String) : IO UInt32 := do
  let environment ← Environment.names.mapM fun name => do
    return (name, ← IO.getEnv name)
  let lookup := fun name => (environment.lookup name).join
  match Options.parse arguments lookup with
  | .error error => finishWith error.report
  | .ok options => finishWith (← Replay.replay systemFiles options 0)
