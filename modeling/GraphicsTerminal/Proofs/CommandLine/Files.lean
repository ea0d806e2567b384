import GraphicsTerminal.CommandLine.Replay

/-!
# The files of a replay

A replay reads the captured bytes and the tape image, and writes its log.  Writing keeps
the directories, so a path that leads to a place still leads there after it: the log that
was created first is the log that is written in the end, and the captured bytes are found
again.

Main results:

- Theorem {lit}`FileSystem.createPlace_write`: a path creates its file where it did before.
- Theorem {lit}`Replay.entryAt_runIn`: a replay keeps all places but that of its log.
- Theorem {lit}`Replay.exists_log_of_runIn`: the log stands where its file was created.
-/

namespace GraphicsTerminal

namespace FileSystem

variable {fs : FileSystem} {place other target : Place} {bytes : List UInt8} {path : String}

/-! ## Where paths lead -/

/-- Names are followed through directories only. -/
theorem follow_cons_eq_ok_iff {name : String} {rest : List String} :
    fs.follow place (name :: rest) = .ok target ↔
      fs.entryAt place = some .directory ∧
        ∃ next, enter place name = .ok next ∧ fs.follow next rest = .ok target := by
  rw [follow]
  split
  · simp_all
  · rename_i hdirectory
    cases hnext : enter place name <;> simp [hdirectory, bind, Except.bind]
  · simp_all

/-- A path is followed from the place where it begins. -/
theorem find_eq_ok_iff :
    fs.find path = .ok target ↔
      ∃ begun, fs.start path = .ok begun ∧ fs.follow begun (names path) = .ok target := by
  cases hbegun : fs.start path <;> simp [find, hbegun, bind, Except.bind]

/-- A path may lead to a directory, but on the way a directory is no obstacle. -/
theorem find_ne_isDirectory : fs.find path ≠ .error .isDirectory := by
  have henter (directory : Place) (name : String) :
      enter directory name ≠ .error .isDirectory := by
    grind [enter]
  have hfollow (place : Place) (inner : List String) :
      fs.follow place inner ≠ .error .isDirectory := by
    induction inner generalizing place with
    | nil => simp [follow]
    | cons name rest ih =>
      rw [follow]
      split
      · simp
      · have hname := henter place name
        cases hnext : enter place name with
        | error error => simpa [bind, Except.bind, hnext] using hname
        | ok next => exact ih next
      · simp
  have hstart : fs.start path ≠ .error .isDirectory := by grind [start]
  unfold find
  cases hbegun : fs.start path with
  | error error => simpa [bind, Except.bind, hbegun] using hstart
  | ok begun => exact hfollow begun (names path)

/-- A new file has a place in a directory, unless its path ends with a slash. -/
theorem newPlace_eq_ok_iff :
    fs.newPlace path = .ok target ↔
      ∃ begun directory, fs.start path = .ok begun ∧
        fs.follow begun
            (((names path).reverse.dropWhile (· = "")).tail.reverse ++ ["."]) = .ok directory ∧
        (names path).reverse.head? ≠ some "" ∧
        fs.follow directory ((names path).reverse.dropWhile (· = "")).head?.toList =
          .ok target := by
  unfold newPlace
  cases hbegun : fs.start path with
  | error error => simp [bind, Except.bind]
  | ok begun =>
    simp only [bind, Except.bind]
    split
    · simp_all
    · split <;> simp_all

/-- A file is created at the new place, if there is no directory. -/
theorem createPlace_eq_ok_iff :
    fs.createPlace path = .ok target ↔
      fs.newPlace path = .ok target ∧ fs.entryAt target ≠ some .directory := by
  unfold createPlace
  cases hplace : fs.newPlace path with
  | error error => simp [bind, Except.bind]
  | ok place =>
    simp only [bind, Except.bind, Except.ok.injEq]
    split <;> grind

/-! ## After writing -/

/-- Writing makes no directory, and takes none away. -/
theorem entryAt_write_eq_directory_iff :
    (fs.write place bytes).entryAt other = some .directory ↔
      fs.entryAt other = some .directory := by
  by_cases hother : other = place
  · subst hother
    rw [entryAt_write_self]
    split
    · rename_i hkeeps
      unfold keeps at hkeeps
      split at hkeeps <;> simp_all
    · rfl
  · rw [entryAt_write_ne fs bytes hother]

/-- Writing takes nothing away. -/
theorem isSome_entryAt_write (h : (fs.entryAt other).isSome = true) :
    ((fs.write place bytes).entryAt other).isSome = true := by
  by_cases hother : other = place
  · subst hother
    rw [entryAt_write_self]
    split
    · rfl
    · exact h
  · rwa [entryAt_write_ne fs bytes hother]

/-- Names that led to a place lead there after writing. -/
theorem follow_write {start : Place} {inner : List String}
    (h : fs.follow start inner = .ok target) :
    (fs.write place bytes).follow start inner = .ok target := by
  induction inner generalizing start with
  | nil => exact h
  | cons name rest ih =>
    rw [follow_cons_eq_ok_iff, entryAt_write_eq_directory_iff]
    rcases follow_cons_eq_ok_iff.1 h with ⟨hdirectory, next, hnext, hrest⟩
    exact ⟨hdirectory, next, hnext, ih hrest⟩

/-- Writing does not change where a path begins. -/
theorem start_write : (fs.write place bytes).start path = fs.start path := by
  unfold write
  split
  · rfl
  · split <;> rfl

theorem find_write (h : fs.find path = .ok target) :
    (fs.write place bytes).find path = .ok target := by
  rcases find_eq_ok_iff.1 h with ⟨begun, hbegun, hfollow⟩
  exact find_eq_ok_iff.2 ⟨begun, start_write.trans hbegun, follow_write hfollow⟩

/-- A path creates its file where it did before. -/
theorem createPlace_write (h : fs.createPlace path = .ok target) :
    (fs.write place bytes).createPlace path = .ok target := by
  rw [createPlace_eq_ok_iff, newPlace_eq_ok_iff] at h ⊢
  rcases h with ⟨⟨begun, directory, hbegun, hdirectory, hnamed, htarget⟩, hentry⟩
  refine ⟨⟨begun, directory, start_write.trans hbegun, follow_write hdirectory, hnamed,
    follow_write htarget⟩, ?_⟩
  exact mt entryAt_write_eq_directory_iff.1 hentry

end FileSystem

namespace Replay

open FileSystem

variable {fs : FileSystem} {options : Options} {path logPath : String} {place other : Place}
  {bytes : List UInt8}

/-! ## The captured bytes -/

/-- A replay gets bytes from a path that leads to something. -/
theorem exists_hostBytes_iff :
    (∃ bytes, hostBytes (fs.read path) = .ok bytes) ↔
      ∃ target, fs.find path = .ok target ∧ (fs.entryAt target).isSome = true := by
  unfold FileSystem.read
  cases hfound : fs.find path with
  | error error =>
    have hother : error ≠ .isDirectory := fun h => find_ne_isDirectory (h ▸ hfound)
    cases error <;> simp_all [bind, Except.bind, hostBytes]
  | ok target =>
    simp only [bind, Except.bind, Except.ok.injEq, exists_eq_left']
    rcases fs.entryAt target with _ | entry
    · simp [hostBytes]
    · cases entry <;> simp [hostBytes]

/-- The captured bytes are found again after writing. -/
theorem exists_hostBytes_write (h : ∃ bytes, hostBytes (fs.read path) = .ok bytes)
    (place : Place) (written : List UInt8) :
    ∃ bytes, hostBytes ((fs.write place written).read path) = .ok bytes := by
  rw [exists_hostBytes_iff] at h ⊢
  rcases h with ⟨target, hfound, hentry⟩
  exact ⟨target, find_write hfound, isSome_entryAt_write hentry⟩

/-! ## What a replay does to the files -/

/-- Writing in a file system. -/
theorem run_write (fs : FileSystem) :
    (filesIn.write path bytes).run fs =
      match fs.createPlace path with
      | .error error => (some error, fs)
      | .ok place => (none, fs.write place bytes) := by
  have hget : (filesIn.write path bytes).run fs =
      StateT.run (match fs.createPlace path with
        | .error error => return some error
        | .ok place => do
          modify fun fs => fs.write place bytes
          return none : StateM FileSystem (Option FileError)) fs := rfl
  rw [hget]
  cases fs.createPlace path with
  | error error => rfl
  | ok place => rfl

/-- Looking for the tape image changes no file. -/
theorem exists_run_findTape (options : Options) (fs : FileSystem) :
    ∃ tape, (findTape filesIn options).run fs = (tape, fs) := by
  unfold findTape
  cases options.hpgl with
  | none => exact ⟨_, rfl⟩
  | some log =>
    have hsame : (filesIn.sameFile log options.settings.tapePath).run fs =
        (fs.sameFile log options.settings.tapePath, fs) := rfl
    simp only [Option.elim_some, StateT.run_bind, hsame]
    cases fs.sameFile log options.settings.tapePath with
    | true => exact ⟨_, rfl⟩
    | false => exact ⟨_, rfl⟩

/-- A replay creates the file for its log, runs, and writes the log. -/
theorem exists_run_replay (hpath : path? options = .ok path) (unheard : Nat) (fs : FileSystem) :
    ∃ tape,
      let created := (createLog filesIn options path).run fs
      let outcome := run options ⟨created.2.read path, created.1, tape, unheard⟩
      (replay filesIn options unheard).run fs =
        (outcome.report, ((writeLog filesIn options outcome).run created.2).2) := by
  rcases exists_run_findTape options ((createLog filesIn options path).run fs).2 with
    ⟨tape, htape⟩
  refine ⟨tape, ?_⟩
  have hread : (filesIn.read path).run ((createLog filesIn options path).run fs).2 =
      (((createLog filesIn options path).run fs).2.read path,
        ((createLog filesIn options path).run fs).2) := rfl
  unfold replay
  simp only [hpath, StateT.run_bind, StateT.run_pure]
  simp only [bind, pure, hread, htape]

/-- The file for the log is created when there are bytes to replay. -/
theorem run_createLog (fs : FileSystem) :
    (createLog filesIn options path).run fs =
      match hostBytes (fs.read path), options.hpgl with
      | .ok _, some log => (filesIn.write log []).run fs
      | _, _ => (none, fs) := by
  have hread : (filesIn.read path).run fs = (fs.read path, fs) := rfl
  unfold createLog
  simp only [StateT.run_bind]
  simp only [bind, hread]
  cases hostBytes (fs.read path) with
  | error error => rfl
  | ok bytes => cases options.hpgl <;> rfl

/-- The log is written when there is one. -/
theorem run_writeLog (fs : FileSystem) (outcome : Outcome) :
    ((writeLog filesIn options outcome).run fs).2 =
      match options.hpgl, outcome.log with
      | some path, some log => ((filesIn.write path log).run fs).2
      | _, _ => fs := by
  unfold writeLog
  cases options.hpgl <;> cases outcome.log <;> rfl

/-- Writing keeps a place where the path creates no file. -/
theorem keeps_of_createPlace_ne (h : fs.createPlace path ≠ .ok other) (bytes : List UInt8) :
    ((filesIn.write path bytes).run fs).2.entryAt other = fs.entryAt other ∧
      ((filesIn.write path bytes).run fs).2.createPlace path ≠ .ok other := by
  rw [run_write]
  cases hplace : fs.createPlace path with
  | error error => exact ⟨rfl, h⟩
  | ok place =>
    rw [hplace] at h
    have hother : other ≠ place := fun heq => h (congrArg Except.ok heq.symm)
    exact ⟨entryAt_write_ne fs bytes hother, (createPlace_write hplace).symm ▸ h⟩

/-- A replay keeps all places but that of its log. -/
theorem entryAt_runIn (hother : ∀ log, options.hpgl = some log → fs.createPlace log ≠ .ok other) :
    (runIn options fs).2.entryAt other = fs.entryAt other := by
  have hrun : (runIn options fs).2 = ((replay filesIn options 0).run fs).2 := rfl
  rw [hrun]
  cases hpath : path? options with
  | error report =>
    unfold replay
    rw [hpath]
    rfl
  | ok path =>
    rcases exists_run_replay hpath 0 fs with ⟨tape, htape⟩
    rw [htape, run_writeLog]
    -- The first write creates the log, and the second one finds the same place.
    cases hlog : options.hpgl with
    | none =>
      simp only [run_createLog, hlog]
      split <;> simp_all
    | some log =>
      have hfirst := keeps_of_createPlace_ne (hother log hlog) []
      have hcreated : ((createLog filesIn options path).run fs).2.entryAt other =
            fs.entryAt other ∧
          ((createLog filesIn options path).run fs).2.createPlace log ≠ .ok other := by
        rw [run_createLog, hlog]
        split
        · simp_all
        · exact ⟨rfl, hother log hlog⟩
      split
      · rename_i heq _
        cases heq
        exact (keeps_of_createPlace_ne hcreated.2 _).1.trans hcreated.1
      · exact hcreated.1

/-- A replay that finds its captured bytes and can create the file for its log leaves the
log there. -/
theorem exists_log_of_runIn (hpath : path? options = .ok path)
    (hread : ∃ bytes, hostBytes (fs.read path) = .ok bytes) (hlog : options.hpgl = some logPath)
    (hplace : fs.createPlace logPath = .ok place) (hkeeps : fs.keeps place = true) :
    ∃ tape log,
      (run options ⟨(fs.write place []).read path, none, tape, 0⟩).log = some log ∧
      (runIn options fs).2.entryAt place = some (.file log) := by
  have hcreated : (createLog filesIn options path).run fs = (none, fs.write place []) := by
    rcases hread with ⟨bytes, hbytes⟩
    rw [run_createLog, hbytes, hlog]
    simp only [run_write, hplace]
  rcases exists_run_replay hpath 0 fs with ⟨tape, htape⟩
  rw [hcreated] at htape
  rcases exists_hostBytes_write hread place [] with ⟨bytes, hbytes⟩
  have hlogged : ∃ log,
      (run options ⟨(fs.write place []).read path, none, tape, 0⟩).log = some log := by
    simp only [run, hbytes, hlog]
    exact ⟨_, rfl⟩
  rcases hlogged with ⟨log, hsome⟩
  refine ⟨tape, log, hsome, ?_⟩
  have hrun : (runIn options fs).2 = ((replay filesIn options 0).run fs).2 := rfl
  rw [hrun, htape, run_writeLog, hlog, hsome]
  simp only [run_write, createPlace_write hplace]
  have hagain : (fs.write place []).keeps place = true := by
    rw [FileSystem.keeps, entryAt_write_self, if_pos hkeeps]
  rw [entryAt_write_self, if_pos hagain]

end Replay

end GraphicsTerminal
