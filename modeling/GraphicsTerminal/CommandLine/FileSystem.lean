import GraphicsTerminal.Text.Byte

/-!
# Files and paths

The program knows its files by path: the captured host bytes, the HP-GL log
and the tape image.  A path is followed name by name, from the root when it
begins with a slash and from the working directory otherwise.  Every place on
the way has to be a directory, and the first place that is not decides the
error.  Some places are devices, which keep nothing of what is written; what is
written to the standard output is printed.

Main definitions:

- {lit}`FileError`: why a path leads to no file.
- {lit}`FileEntry`: what can be found at a place.
- {lit}`FileSystem.find`: the place that a path leads to.
- {lit}`FileSystem.read`: the bytes of a file.
- {lit}`FileSystem.createPlace`: where a path creates a file.

Main results:

- Theorem {lit}`FileSystem.entryAt_write_self`: a file holds what was written.
- Theorem {lit}`FileSystem.entryAt_write_ne`: writing keeps all other places.
-/

namespace GraphicsTerminal

/-- Why a path leads to no file. -/
inductive FileError where
  | noSuchFile
  | noSuchDevice
  | permissionDenied
  /-- A place on the way is not a directory. -/
  | notDirectory
  | isDirectory
  /-- A name or the whole path is too long. -/
  | nameTooLong
  /-- Any other reason, as the system words it. -/
  | other (text : String)
deriving DecidableEq, Repr

namespace FileError

/-- The error as text, with its number. -/
def reason : FileError → String
  | noSuchFile => "No such file or directory (os error 2)"
  | noSuchDevice => "No such device or address (os error 6)"
  | permissionDenied => "Permission denied (os error 13)"
  | notDirectory => "Not a directory (os error 20)"
  | isDirectory => "Is a directory (os error 21)"
  | nameTooLong => "File name too long (os error 36)"
  | other text => text

/-- The error with a number, or else with a text. -/
def ofNumber (number : Nat) (text : String) : FileError :=
  match number with
  | 2 => noSuchFile
  | 6 => noSuchDevice
  | 13 => permissionDenied
  | 20 => notDirectory
  | 21 => isDirectory
  | 36 => nameTooLong
  | _ => other text

end FileError

/-- A place: the names that lead to it from the root, the last one first. -/
abbrev Place := List String

/-- What can be found at a place. -/
inductive FileEntry where
  | directory
  | file (bytes : List UInt8)
  /-- A device that keeps nothing of what is written and gives no bytes. -/
  | device
  /-- The standard output: what is written is printed, and it gives no
  bytes. -/
  | output
deriving DecidableEq, Repr

/-- The entries that exist, the working directory, and what was printed. -/
structure FileSystem where
  /-- The entries by place; an entry hides those behind it. -/
  entries : List (Place × FileEntry)
  workingPlace : Place
  printed : List UInt8
deriving DecidableEq, Repr

namespace FileSystem

/-- The most bytes of one name. -/
abbrev longestName : Nat := 255

/-- The most bytes of a path. -/
abbrev longestPath : Nat := 4095

/-- The names of a path.  Slashes that follow each other have an empty name
between them. -/
def names (path : String) : List String := path.splitOn "/"

/-- The entry of a place, and those of the directories on the way to it. -/
def entriesTo : Place → FileEntry → List (Place × FileEntry)
  | [], entry => [([], entry)]
  | name :: directory, entry => (name :: directory, entry) :: entriesTo directory .directory

/-- A working directory that holds the given files, beside the standard input
and outputs of the program and a device for what is not kept. -/
def holding (files : List (String × List UInt8)) : FileSystem :=
  let workingPlace : Place := ["work", "tmp"]
  let inner := files.flatMap fun file =>
    entriesTo ((names file.1).reverse ++ workingPlace) (.file file.2)
  let devices := [("stdin", .device), ("stdout", .output), ("stderr", .device),
    ("null", .device)].flatMap fun (name, entry) => entriesTo [name, "dev"] entry
  { entries := inner ++ entriesTo workingPlace .directory ++ devices
    workingPlace := workingPlace
    printed := [] }

/-- What is found at a place. -/
def entryAt (fs : FileSystem) (place : Place) : Option FileEntry :=
  fs.entries.lookup place

/-! ## Following a path -/

/-- The place where a path begins. -/
def start (fs : FileSystem) (path : String) : Except FileError Place :=
  if path = "" then .error .noSuchFile
  else if longestPath < path.utf8ByteSize then .error .nameTooLong
  else .ok (if path.toList.head? = some '/' then [] else fs.workingPlace)

/-- The place that one name leads to in a directory. -/
def enter (directory : Place) (name : String) : Except FileError Place :=
  if name = "" ∨ name = "." then .ok directory
  else if name = ".." then .ok directory.tail
  else if longestName < name.utf8ByteSize then .error .nameTooLong
  else .ok (name :: directory)

/-- The place that names lead to, one after the other. -/
def follow (fs : FileSystem) (place : Place) : List String → Except FileError Place
  | [] => .ok place
  | name :: rest =>
    match fs.entryAt place with
    | none => .error .noSuchFile
    | some .directory => do fs.follow (← enter place name) rest
    | some _ => .error .notDirectory

/-- The place that a path leads to. -/
def find (fs : FileSystem) (path : String) : Except FileError Place := do
  fs.follow (← fs.start path) (names path)

/-! ## Reading and writing -/

/-- The bytes of the file at a path. -/
def read (fs : FileSystem) (path : String) : Except FileError (List UInt8) := do
  match fs.entryAt (← fs.find path) with
  | none => .error .noSuchFile
  | some .directory => .error .isDirectory
  | some .device | some .output => .ok []
  | some (.file bytes) => .ok bytes

/-- The place that a path names for a new file.  A path that ends with a slash names a
directory, even one that does not exist. -/
def newPlace (fs : FileSystem) (path : String) : Except FileError Place := do
  let reversed := (names path).reverse
  let named := reversed.dropWhile (· = "")
  let directory ← fs.follow (← fs.start path) (named.tail.reverse ++ ["."])
  if reversed.head? = some "" then .error .isDirectory
  else fs.follow directory named.head?.toList

/-- The place where a path creates a file, or writes to the one that is there. -/
def createPlace (fs : FileSystem) (path : String) : Except FileError Place := do
  let place ← fs.newPlace path
  if fs.entryAt place = some .directory then .error .isDirectory else .ok place

/-- Whether a place keeps what is written: there is a file, or nothing yet. -/
def keeps (fs : FileSystem) (place : Place) : Bool :=
  match fs.entryAt place with
  | none | some (.file _) => true
  | _ => false

/-- Write a file anew.  A device keeps nothing. -/
def write (fs : FileSystem) (place : Place) (bytes : List UInt8) : FileSystem :=
  if fs.keeps place then { fs with entries := (place, .file bytes) :: fs.entries }
  else if fs.entryAt place = some .output then { fs with printed := fs.printed ++ bytes }
  else fs

/-- Whether two paths lead to the same file. -/
def sameFile (fs : FileSystem) (path other : String) : Bool :=
  match fs.find path, fs.find other with
  | .ok place, .ok otherPlace =>
    match fs.entryAt place with
    | some (.file _) => place == otherPlace
    | _ => false
  | _, _ => false

/-- A file holds what was written, and whatever else is at a place stays there. -/
theorem entryAt_write_self (fs : FileSystem) (place : Place) (bytes : List UInt8) :
    (fs.write place bytes).entryAt place =
      if fs.keeps place then some (.file bytes) else fs.entryAt place := by
  unfold write
  split
  · simp [entryAt]
  · split <;> rfl

/-- Writing keeps all other places. -/
theorem entryAt_write_ne (fs : FileSystem) {place other : Place} (bytes : List UInt8)
    (h : other ≠ place) :
    (fs.write place bytes).entryAt other = fs.entryAt other := by
  unfold write
  split
  · simp [entryAt, List.lookup_cons, beq_eq_false_iff_ne.2 h]
  · split <;> rfl

end FileSystem

end GraphicsTerminal
