import Mathlib.Logic.Basic
import GraphicsTerminal.Proofs.Graphics.HpglLog

/-!
# Reading a log back

A reader takes an HP-GL file character by character: a command is two letters and its
arguments up to a semicolon, and a label is the text up to the end of the label.  The
log of a capture is read back as the calls it records, unless a text carries the
character that ends a label: then the label ends early, and what is left of the text is
read as commands.

Main definitions:

- {lit}`Hpgl.Command`, {lit}`Hpgl.command?`: the commands, and that of a call.
- {lit}`Hpgl.Reader`, {lit}`Hpgl.read?`: the reader, and what it reads in a file.
- {lit}`Writer.Reliable`: a writer that accepts every write.

Main results:

- Theorem {lit}`Hpgl.foldlM_record`: the record of a call is read as its command.
- Theorem {lit}`Hpgl.read?_log_iff`: a log is read back exactly when no text carries the
  character that ends a label.
- Theorem {lit}`Hpgl.read_finish_iff`: so is the file that a finished capture leaves.
-/

namespace GraphicsTerminal

namespace Hpgl

/-! ## Commands -/

/-- A command of an HP-GL file. -/
inductive Command where
  | start
  | selectPen (pen : Int)
  | penUp (point : Point)
  | penDown (point : Point)
  | label (text : List Char)
deriving DecidableEq, Repr

/-- The command that stands for a call.  Only strokes, text and the choice of a pen have
one. -/
def command? : SurfaceCall → Option Command
  | .moveTo point => some (.penUp point)
  | .lineTo point => some (.penDown point)
  | .text text => some (.label text.toList)
  | .pen pen => some (.selectPen pen)
  | _ => none

/-! ## Arguments -/

/-- The value of one or more decimal digits. -/
def natural? (digits : List Char) : Option Nat :=
  if digits ≠ [] ∧ digits.all Char.isDigit then some (Nat.ofDigitChars 10 digits 0) else none

/-- The value of decimal digits behind an optional minus sign. -/
def integer? : List Char → Option Int
  | '-' :: digits => (natural? digits).map fun n => -(n : Int)
  | digits => (natural? digits).map fun n => (n : Int)

/-- Two numbers with a comma between them. -/
def point? (chars : List Char) : Option Point :=
  match chars.dropWhile (· ≠ ',') with
  | [] => none
  | _ :: second => do
    let x ← integer? (chars.takeWhile (· ≠ ','))
    let y ← integer? second
    return ⟨x, y⟩

/-- The command of two letters and its arguments. -/
def named? (name : Char × Char) (arguments : List Char) : Option Command :=
  match name with
  | ('I', 'N') => if arguments = [] then some .start else none
  | ('S', 'P') => (integer? arguments).map .selectPen
  | ('P', 'U') => (point? arguments).map .penUp
  | ('P', 'D') => (point? arguments).map .penDown
  | _ => none

/-! ## The reader -/

/-- Where a reader is. -/
inductive Place where
  | between
  | name (first : Char)
  | arguments (name : Char × Char) (read : List Char)
  | label (read : List Char)
deriving DecidableEq, Repr

/-- Where a reader is, and the commands it has read. -/
structure Reader where
  place : Place
  commands : List Command
deriving DecidableEq, Repr

/-- Read a character.  Semicolons and line ends between commands are skipped, and a
command that is not known is refused at its end. -/
def Reader.advance : Reader → Char → Option Reader
  | ⟨.between, commands⟩, c =>
    if c = ';' ∨ c = '\n' then some ⟨.between, commands⟩ else some ⟨.name c, commands⟩
  | ⟨.name first, commands⟩, c =>
    if first = 'L' ∧ c = 'B' then some ⟨.label [], commands⟩
    else some ⟨.arguments (first, c) [], commands⟩
  | ⟨.arguments name read, commands⟩, c =>
    if c = ';' then
      (named? name read).map fun command => ⟨.between, commands ++ [command]⟩
    else some ⟨.arguments name (read ++ [c]), commands⟩
  | ⟨.label read, commands⟩, c =>
    if c = labelEnd then some ⟨.between, commands ++ [.label read]⟩
    else some ⟨.label (read ++ [c]), commands⟩

/-- The commands of a file, if it ends between commands. -/
def read? (file : String) : Option (List Command) :=
  (file.toList.foldlM Reader.advance ⟨.between, []⟩).bind fun r =>
    if r.place = .between then some r.commands else none

/-- What was read stays. -/
theorem Reader.prefix_of_advance {r r' : Reader} {c : Char} (h : r.advance c = some r') :
    r.commands <+: r'.commands := by
  unfold Reader.advance at h
  split at h
  · split at h <;> cases h <;> exact List.prefix_rfl
  · split at h <;> cases h <;> exact List.prefix_rfl
  · split at h
    · obtain ⟨command, -, rfl⟩ := Option.map_eq_some_iff.1 h
      exact List.prefix_append _ _
    · cases h
      exact List.prefix_rfl
  · split at h <;> cases h
    · exact List.prefix_append _ _
    · exact List.prefix_rfl

/-- Commands that were read stay read. -/
theorem Reader.prefix_of_foldlM {r r' : Reader} {chars : List Char}
    (h : chars.foldlM Reader.advance r = some r') : r.commands <+: r'.commands := by
  induction chars generalizing r with
  | nil =>
    cases h
    exact List.prefix_rfl
  | cons c chars ih =>
    rw [List.foldlM_cons] at h
    obtain ⟨next, hadvance, hrest⟩ := Option.bind_eq_some_iff.1 h
    exact (prefix_of_advance hadvance).trans (ih hrest)

/-! ## Reading commands -/

variable {commands : List Command} {rest : List Char}

/-- The arguments of a command go up to a semicolon. -/
theorem foldlM_arguments {name : Char × Char} {front chars : List Char} (h : ';' ∉ chars) :
    (chars ++ ';' :: rest).foldlM Reader.advance ⟨.arguments name front, commands⟩ =
      (named? name (front ++ chars)).bind fun command =>
        rest.foldlM Reader.advance ⟨.between, commands ++ [command]⟩ := by
  induction chars generalizing front with
  | nil =>
    rw [List.nil_append, List.append_nil, List.foldlM_cons, Reader.advance, if_pos rfl]
    exact Option.bind_map
  | cons c chars ih =>
    obtain ⟨hc, hchars⟩ := not_or.1 (mt List.mem_cons.2 h)
    rw [List.cons_append, List.foldlM_cons, Reader.advance, if_neg fun heq => hc heq.symm,
      List.append_cons front c chars]
    exact ih hchars

variable (commands rest) in
/-- The text of a label goes up to the end of the label. -/
theorem foldlM_label (front : List Char) {chars : List Char} (h : labelEnd ∉ chars) :
    (chars ++ labelEnd :: rest).foldlM Reader.advance ⟨.label front, commands⟩ =
      rest.foldlM Reader.advance ⟨.between, commands ++ [.label (front ++ chars)]⟩ := by
  induction chars generalizing front with
  | nil =>
    rw [List.nil_append, List.append_nil, List.foldlM_cons, Reader.advance, if_pos rfl]
    rfl
  | cons c chars ih =>
    obtain ⟨hc, hchars⟩ := not_or.1 (mt List.mem_cons.2 h)
    rw [List.cons_append, List.foldlM_cons, Reader.advance, if_neg fun heq => hc heq.symm,
      List.append_cons front c chars]
    exact ih _ hchars

/-! ### Numbers -/

/-- The characters of a number. -/
theorem flatMap_number (value : Int) :
    (number value).flatMap String.toList =
      (if value < 0 then ['-'] else []) ++ Decimal.digits value.natAbs := by
  unfold number
  split
  · rename_i hneg
    have hpos : ¬ -value < 0 := by omega
    simp only [List.flatMap_cons, List.flatMap_nil, Decimal.text, String.toList_ofList,
      if_neg hpos, Int.natAbs_neg, List.nil_append, List.append_nil]
    rfl
  · rename_i hpos
    simp only [List.flatMap_cons, List.flatMap_nil, Decimal.text, String.toList_ofList,
      if_neg hpos, List.nil_append, List.append_nil]

/-- The digits of a natural number are read as it. -/
theorem natural?_digits (n : Nat) : natural? (Decimal.digits n) = some n := by
  have hall : (Decimal.digits n).all Char.isDigit = true :=
    List.all_eq_true.2 fun _ hc => Nat.isDigit_of_mem_toDigits (by decide) (by decide) hc
  rw [natural?, if_pos ⟨Nat.toDigits_ne_nil, hall⟩]
  exact congrArg some (Nat.ofDigitChars_toDigits (by decide) (by decide))

/-- A number is read back. -/
theorem integer?_number (value : Int) :
    integer? ((number value).flatMap String.toList) = some value := by
  rw [flatMap_number]
  by_cases hneg : value < 0
  · have hvalue : -(value.natAbs : Int) = value := by omega
    rw [if_pos hneg, List.singleton_append, integer?, natural?_digits]
    exact congrArg some hvalue
  · rw [if_neg hneg, List.nil_append]
    have hvalue : (value.natAbs : Int) = value := by omega
    unfold integer?
    split
    · rename_i digits heq
      have hminus : '-' ∈ Decimal.digits value.natAbs := by
        rw [heq]
        exact List.mem_cons_self
      exact absurd (Nat.isDigit_of_mem_toDigits (by decide) (by decide) hminus) (by decide)
    · rw [natural?_digits]
      exact congrArg some hvalue

/-- A number is written with digits and a minus sign. -/
theorem mem_number {value : Int} {c : Char} (h : c ∈ (number value).flatMap String.toList) :
    c = '-' ∨ c.isDigit = true := by
  rw [flatMap_number] at h
  rcases List.mem_append.1 h with hsign | hdigit
  · split at hsign
    · exact Or.inl (List.mem_singleton.1 hsign)
    · cases hsign
  · exact Or.inr (Nat.isDigit_of_mem_toDigits (by decide) (by decide) hdigit)

/-- A number is written in digits and a minus sign. -/
theorem not_mem_number {c : Char} (hsign : c ≠ '-') (hdigit : c.isDigit = false) (value : Int) :
    c ∉ (number value).flatMap String.toList := by
  intro h
  rcases mem_number h with rfl | hc
  · exact hsign rfl
  · rw [hdigit] at hc
    cases hc

/-- The characters of two coordinates. -/
def pointChars (point : Point) : List Char :=
  (number point.x).flatMap String.toList ++ ',' :: (number point.y).flatMap String.toList

/-- Two coordinates are read back. -/
theorem point?_pointChars (point : Point) : point? (pointChars point) = some point := by
  have hcomma : ∀ c ∈ (number point.x).flatMap String.toList, decide (c ≠ ',') = true := by
    rintro c hc
    rw [decide_eq_true_eq]
    rintro rfl
    exact not_mem_number (by decide) (by decide) point.x hc
  rw [point?, pointChars, List.dropWhile_append_of_pos hcomma,
    List.takeWhile_append_of_pos hcomma, List.dropWhile_cons_of_neg (by decide),
    List.takeWhile_cons_of_neg (by decide), List.append_nil, integer?_number]
  simp only [integer?_number]
  rfl

/-- A point does not end its own command. -/
theorem semicolon_not_mem_pointChars (point : Point) : ';' ∉ pointChars point := by
  intro h
  rcases List.mem_append.1 h with hx | hrest
  · exact not_mem_number (by decide) (by decide) point.x hx
  · rcases List.mem_cons.1 hrest with hcomma | hy
    · cases hcomma
    · exact not_mem_number (by decide) (by decide) point.y hy

/-! ### Records -/

/-- The characters of a log. -/
def chars (texts : List String) : List Char := texts.flatMap String.toList

theorem chars_append (front back : List String) :
    chars (front ++ back) = chars front ++ chars back := List.flatMap_append

variable (commands rest) in
/-- A command of two letters that is no label is read up to the semicolon. -/
theorem foldlM_command {first second : Char} (hfirst : ¬ (first = ';' ∨ first = '\n'))
    (hname : ¬ (first = 'L' ∧ second = 'B')) {arguments : List Char} {command : Command}
    (harguments : ';' ∉ arguments) (hcommand : named? (first, second) arguments = some command) :
    (first :: second :: (arguments ++ ';' :: rest)).foldlM Reader.advance ⟨.between, commands⟩ =
      rest.foldlM Reader.advance ⟨.between, commands ++ [command]⟩ := by
  rw [List.foldlM_cons, Reader.advance, if_neg hfirst]
  change (second :: (arguments ++ ';' :: rest)).foldlM Reader.advance ⟨.name first, commands⟩ = _
  rw [List.foldlM_cons, Reader.advance, if_neg hname]
  change (arguments ++ ';' :: rest).foldlM Reader.advance ⟨.arguments (first, second) [], commands⟩
    = _
  rw [foldlM_arguments harguments, List.nil_append, hcommand]
  rfl

/-- The record of a point is a name, two numbers and the end of a line. -/
theorem chars_pointRecord (name : String) (point : Point) :
    chars (pointRecord name point) = name.toList ++ pointChars point ++ [';', '\n'] := by
  simp only [chars, pointRecord, pointChars, List.flatMap_cons, List.flatMap_append,
    List.flatMap_nil, List.append_nil, List.append_assoc, List.cons_append]
  rfl

/-- The record of a pen is a name, a number and the end of a line. -/
theorem chars_penRecord (pen : Int) :
    chars (record (.pen pen)) =
      'S' :: 'P' :: ((number pen).flatMap String.toList ++ [';', '\n']) := by
  simp only [chars, record, List.flatMap_cons, List.flatMap_append, List.flatMap_nil,
    List.append_nil, List.cons_append]
  rfl

theorem chars_textRecord (text : String) :
    chars (record (.text text)) = 'L' :: 'B' :: (text.toList ++ [labelEnd, ';', '\n']) := rfl

/-- The record of a call is read as its command, if no text ends its label early. -/
theorem foldlM_record {call : SurfaceCall}
    (h : ∀ text, call = .text text → labelEnd ∉ text.toList) :
    (chars (record call) ++ rest).foldlM Reader.advance ⟨.between, commands⟩ =
      rest.foldlM Reader.advance ⟨.between, commands ++ (command? call).toList⟩ := by
  cases call with
  | moveTo point =>
    have hcommand : named? ('P', 'U') (pointChars point) = some (.penUp point) :=
      congrArg (Option.map Command.penUp) (point?_pointChars point)
    have hread := foldlM_command commands ('\n' :: rest) (by decide)
      (by decide) (semicolon_not_mem_pointChars point) hcommand
    rw [record, chars_pointRecord, List.append_assoc]
    exact hread
  | lineTo point =>
    have hcommand : named? ('P', 'D') (pointChars point) = some (.penDown point) :=
      congrArg (Option.map Command.penDown) (point?_pointChars point)
    have hread := foldlM_command commands ('\n' :: rest) (by decide)
      (by decide) (semicolon_not_mem_pointChars point) hcommand
    rw [record, chars_pointRecord, List.append_assoc]
    exact hread
  | text text =>
    have hread := foldlM_label commands (';' :: '\n' :: rest) [] (h text rfl)
    rw [chars_textRecord, List.cons_append, List.cons_append, List.append_assoc]
    exact hread
  | pen pen =>
    have hcommand : named? ('S', 'P') ((number pen).flatMap String.toList) =
        some (.selectPen pen) :=
      congrArg (Option.map Command.selectPen) (integer?_number pen)
    have hread := foldlM_command commands ('\n' :: rest) (by decide)
      (by decide) (not_mem_number (by decide) (by decide) pen) hcommand
    rw [chars_penRecord, List.cons_append, List.cons_append, List.append_assoc]
    exact hread
  | _ =>
    exact congrArg (fun read => rest.foldlM Reader.advance ⟨.between, read⟩)
      (List.append_nil commands).symm

theorem filterMap_cons_eq (call : SurfaceCall) (calls : List SurfaceCall) :
    (call :: calls).filterMap command? = (command? call).toList ++ calls.filterMap command? := by
  cases hcall : command? call with
  | none => rw [List.filterMap_cons_none hcall]; rfl
  | some command => rw [List.filterMap_cons_some hcall]; rfl

/-- The records of calls are read as their commands. -/
theorem foldlM_records {calls : List SurfaceCall}
    (h : ∀ text, .text text ∈ calls → labelEnd ∉ text.toList) :
    (chars (calls.flatMap record) ++ rest).foldlM Reader.advance ⟨.between, commands⟩ =
      rest.foldlM Reader.advance ⟨.between, commands ++ calls.filterMap command?⟩ := by
  induction calls generalizing commands with
  | nil => rw [List.filterMap_nil, List.append_nil]; rfl
  | cons call calls ih =>
    rw [List.flatMap_cons, chars_append, List.append_assoc,
      foldlM_record fun text htext => h text (htext ▸ .head calls),
      ih fun text htext => h text (.tail call htext), filterMap_cons_eq, List.append_assoc]

/-! ## Logs -/

/-- The log of a capture that was told calls, from its start to its end. -/
def log (calls : List SurfaceCall) : List String :=
  header :: calls.flatMap record ++ [trailer]

/-- What the log of calls should be read as. -/
def logCommands (calls : List SurfaceCall) : List Command :=
  .start :: .selectPen 1 :: calls.filterMap command? ++ [.selectPen 0]

/-- A log is its header, its records and its trailer. -/
theorem chars_log (calls : List SurfaceCall) :
    chars (log calls) =
      header.toList ++ (chars (calls.flatMap record) ++ trailer.toList) := by
  rw [log, chars_append, ← List.append_assoc]
  exact congrArg (_ ++ ·) (List.append_nil _)

/-- The header is read as the start and the choice of the first pen. -/
theorem foldlM_header :
    (header.toList ++ rest).foldlM Reader.advance ⟨.between, []⟩ =
      rest.foldlM Reader.advance ⟨.between, [.start, .selectPen 1]⟩ := rfl

/-- The trailer is read as putting the pen away. -/
theorem foldlM_trailer :
    trailer.toList.foldlM Reader.advance ⟨.between, commands⟩ =
      some ⟨.between, commands ++ [.selectPen 0]⟩ := rfl

/-- If no text ends its label early, a log is read back. -/
theorem read?_log {calls : List SurfaceCall}
    (h : ∀ text, .text text ∈ calls → labelEnd ∉ text.toList) :
    read? (String.ofList (chars (log calls))) = some (logCommands calls) := by
  rw [read?, String.toList_ofList, chars_log, foldlM_header, foldlM_records h, foldlM_trailer]
  rfl

/-- If a text ends its label early, the commands of the calls are not what is read
first. -/
theorem not_prefix_of_foldlM_records {calls : List SurfaceCall} {r : Reader}
    (h : ∃ text, .text text ∈ calls ∧ labelEnd ∈ text.toList)
    (hread : (chars (calls.flatMap record) ++ rest).foldlM Reader.advance ⟨.between, commands⟩ =
      some r) :
    ¬ commands ++ calls.filterMap command? <+: r.commands := by
  induction calls generalizing commands with
  | nil =>
    obtain ⟨text, hmem, -⟩ := h
    cases hmem
  | cons call calls ih =>
    rw [List.flatMap_cons, chars_append, List.append_assoc] at hread
    by_cases hcall : ∀ text, call = .text text → labelEnd ∉ text.toList
    · have hlater : ∃ text, .text text ∈ calls ∧ labelEnd ∈ text.toList := by
        obtain ⟨text, hmem, hend⟩ := h
        rcases List.mem_cons.1 hmem with htext | hmem
        · exact absurd hend (hcall text htext.symm)
        · exact ⟨text, hmem, hend⟩
      rw [foldlM_record hcall] at hread
      have hnot := ih hlater hread
      rw [List.append_assoc, ← filterMap_cons_eq] at hnot
      exact hnot
    · obtain ⟨text, rfl, hend⟩ : ∃ text, call = .text text ∧ labelEnd ∈ text.toList := by
        simpa only [not_forall, not_not, exists_prop] using hcall
      obtain ⟨front, back, hsplit, hfront⟩ := List.eq_append_cons_of_mem hend
      rw [chars_textRecord, hsplit, List.append_assoc, List.cons_append, List.cons_append,
        List.cons_append, List.append_assoc] at hread
      change (front ++ labelEnd :: _).foldlM Reader.advance ⟨.label [], commands⟩ = some r at hread
      rw [foldlM_label _ _ _ hfront] at hread
      rintro ⟨later, hlater⟩
      obtain ⟨later', hlater'⟩ := Reader.prefix_of_foldlM hread
      have hcommands : command? (.text text) = some (.label text.toList) := rfl
      rw [List.filterMap_cons_some hcommands, ← hlater', List.append_assoc, List.append_assoc,
        List.append_cancel_left_eq, List.singleton_append, List.cons_append] at hlater
      have htext : text.toList = front := Command.label.inj (List.cons.inj hlater).1
      rw [hsplit] at htext
      exact absurd htext (by simp)

/-- A log is read back exactly when no text carries the character that ends a label. -/
theorem read?_log_iff (calls : List SurfaceCall) :
    read? (String.ofList (chars (log calls))) = some (logCommands calls) ↔
      ∀ text, .text text ∈ calls → labelEnd ∉ text.toList := by
  refine ⟨fun hread text hmem hend => ?_, read?_log⟩
  rw [read?, String.toList_ofList, chars_log, foldlM_header] at hread
  obtain ⟨r, hr, hcommands⟩ := Option.bind_eq_some_iff.1 hread
  have hsame : r.commands = logCommands calls := by
    split at hcommands
    · exact Option.some.inj hcommands
    · cases hcommands
  refine not_prefix_of_foldlM_records ⟨text, hmem, hend⟩ hr ?_
  rw [hsame]
  exact List.prefix_append _ _

end Hpgl

/-! ## Writers that accept every write -/

namespace Writer

variable {W : Type} [Writer W]

/-- The writer after writes. -/
def afterWrites (out : W) (writes : List (List UInt8)) : W :=
  writes.foldl (fun out bytes => (Writer.write out bytes).2) out

/-- A writer that accepts every write and every flush, whatever was written before, and
that contains what was written. -/
structure Reliable (contents : W → List UInt8) (out : W) : Prop where
  write : ∀ writes bytes, (Writer.write (afterWrites out writes) bytes).1 = none ∧
    contents (Writer.write (afterWrites out writes) bytes).2 =
      contents (afterWrites out writes) ++ bytes
  flush : ∀ writes, (Writer.flush (afterWrites out writes)).1 = none ∧
    contents (Writer.flush (afterWrites out writes)).2 = contents (afterWrites out writes)

variable {contents : W → List UInt8} {out : W}

/-- A writer that accepts every write still does so after one. -/
theorem Reliable.next (h : Reliable contents out) (bytes : List UInt8) :
    Reliable contents (Writer.write out bytes).2 where
  write := fun writes => h.write (bytes :: writes)
  flush := fun writes => h.flush (bytes :: writes)

/-- All texts are written. -/
theorem Reliable.writeTexts (h : Reliable contents out) (texts : List String) :
    ∃ out', Writer.writeTexts out texts = .ok out' ∧ Reliable contents out' ∧
      contents out' = contents out ++ texts.flatMap Text.utf8 := by
  induction texts generalizing out with
  | nil => exact ⟨out, rfl, h, (List.append_nil _).symm⟩
  | cons text texts ih =>
    obtain ⟨haccepted, hcontents⟩ := h.write [] (Text.utf8 text)
    have hnext := h.next (Text.utf8 text)
    rw [afterWrites, List.foldl_nil] at haccepted hcontents
    rw [Writer.writeTexts]
    generalize Writer.write out (Text.utf8 text) = written at haccepted hcontents hnext ⊢
    obtain ⟨refusal, next⟩ := written
    obtain rfl : refusal = none := haccepted
    obtain ⟨out', hwritten, hreliable, hlater⟩ := ih hnext
    refine ⟨out', hwritten, hreliable, ?_⟩
    rw [hlater, hcontents, List.flatMap_cons, List.append_assoc]

end Writer

/-- A memory writer without a limit accepts every write. -/
theorem MemoryWriter.reliable {out : MemoryWriter} (hlimit : out.limit = none)
    (hflush : out.flushFails = false) :
    Writer.Reliable (fun out : MemoryWriter => out.written.toList) out := by
  have hkept : ∀ writes : List (List UInt8), (Writer.afterWrites out writes).limit = none ∧
      (Writer.afterWrites out writes).flushFails = false := by
    intro writes
    induction writes generalizing out with
    | nil => exact ⟨hlimit, hflush⟩
    | cons bytes writes ih =>
      refine @ih (Writer.write out bytes).2 ?_ ?_
      · simp [Writer.write, hlimit]
      · simp [Writer.write, hlimit, hflush]
  exact
    { write := fun writes bytes => by simp [Writer.write, (hkept writes).1]
      flush := fun writes => by simp [Writer.flush, (hkept writes).2] }

/-! ## Finished captures -/

namespace Hpgl

variable {S W : Type} [Surface S] [Writer W] {contents : W → List UInt8} {out : W}

/-- The file that a finished capture leaves is its log. -/
theorem finish_of_reliable (hout : Writer.Reliable contents out) (hempty : contents out = [])
    (inner : S) (calls : List SurfaceCall) :
    ∃ out', (Surface.callAll (HpglCapture.start inner out) calls).finish =
        (Surface.callAll inner calls, some out') ∧
      contents out' = Text.utf8 (String.ofList (chars (log calls))) := by
  obtain ⟨reached, hwritten, hreached, hcontents⟩ := hout.writeTexts (log calls)
  have hwrites : ((Writer.writeTexts out [header] >>=
        fun out => Writer.writeTexts out (calls.flatMap record)) >>=
      fun out => Writer.writeTexts out [trailer]) = .ok reached := by
    rw [← hwritten, log, Writer.writeTexts_append]
    exact congrArg (· >>= _) (Writer.writeTexts_append out [header] _).symm
  obtain ⟨haccepted, hflushed⟩ := hreached.flush []
  have hfinish := HpglCapture.finish_after (Surface.callAll inner calls)
    (Writer.writeTexts out [header] >>= fun out => Writer.writeTexts out (calls.flatMap record))
  rw [hwrites, ← HpglCapture.callAll_after, ← HpglCapture.start_eq, Except.toOption,
    Option.bind_some] at hfinish
  rw [Writer.afterWrites, List.foldl_nil] at haccepted hflushed
  generalize Writer.flush reached = flushed at haccepted hflushed hfinish
  obtain ⟨refusal, out'⟩ := flushed
  obtain rfl : refusal = none := haccepted
  refine ⟨out', hfinish, ?_⟩
  rw [hempty, List.nil_append, Text.flatMap_utf8] at hcontents
  exact hflushed.trans hcontents

/-- A writer that accepts every write is given back when a capture is finished, and the
file is read back as the header, the strokes, the texts and the choices of a pen in
order, and the trailer, exactly when no text carries the character that ends a label. -/
theorem read_finish_iff (hout : Writer.Reliable contents out) (hempty : contents out = [])
    (inner : S) (calls : List SurfaceCall) :
    ∃ out', (Surface.callAll (HpglCapture.start inner out) calls).finish =
        (Surface.callAll inner calls, some out') ∧
      ((Text.ofUtf8? (contents out')).bind read? =
          some (.start :: .selectPen 1 :: calls.filterMap command? ++ [.selectPen 0]) ↔
        ∀ text, .text text ∈ calls → labelEnd ∉ text.toList) := by
  obtain ⟨out', hfinish, hcontents⟩ := finish_of_reliable hout hempty inner calls
  refine ⟨out', hfinish, ?_⟩
  rw [hcontents, Text.ofUtf8?_utf8]
  exact read?_log_iff calls

/-- A capture of a label, a stroke, a call that leaves no command, and a pen. -/
theorem read_finish_iff_recorded :
    (Writer.Reliable (fun out : MemoryWriter => out.written.toList) .unlimited ∧
      MemoryWriter.unlimited.written.toList = []) ∧
    ∃ out', (Surface.callAll (HpglCapture.start RecordingSurface.empty MemoryWriter.unlimited)
        [.text "A,;", .lineTo ⟨-3, 4⟩, .saveImage, .pen 2]).finish.2 = some out' ∧
      (Text.ofUtf8? out'.written.toList).bind read? =
        some [.start, .selectPen 1, .label ['A', ',', ';'], .penDown ⟨-3, 4⟩, .selectPen 2,
          .selectPen 0] := by
  have hout : Writer.Reliable (fun out : MemoryWriter => out.written.toList) .unlimited :=
    MemoryWriter.reliable rfl rfl
  obtain ⟨out', hfinish, hread⟩ := read_finish_iff hout rfl RecordingSurface.empty
    [.text "A,;", .lineTo ⟨-3, 4⟩, .saveImage, .pen 2]
  refine ⟨⟨hout, rfl⟩, out', congrArg Prod.snd hfinish, hread.2 ?_⟩
  intro text htext
  simp only [List.mem_cons, SurfaceCall.text.injEq, reduceCtorEq, List.not_mem_nil,
    or_false] at htext
  rw [htext]
  decide

/-- A label that carries the character that ends it is read as a shorter label, a
movement that was never made, and another label. -/
theorem finish_of_label_end :
    ((Surface.callAll (HpglCapture.start RecordingSurface.empty MemoryWriter.unlimited)
        [.text "A\x03;PU1,2;LBB"]).finish.2.bind fun out =>
          (Text.ofUtf8? out.written.toList).bind read?) =
      some [.start, .selectPen 1, .label ['A'], .penUp ⟨1, 2⟩, .label ['B'], .selectPen 0] ∧
    [SurfaceCall.text "A\x03;PU1,2;LBB"].filterMap command? =
      [.label "A\x03;PU1,2;LBB".toList] := by
  have hout : Writer.Reliable (fun out : MemoryWriter => out.written.toList) .unlimited :=
    MemoryWriter.reliable rfl rfl
  obtain ⟨out', hfinish, hcontents⟩ := finish_of_reliable hout rfl RecordingSurface.empty
    [.text "A\x03;PU1,2;LBB"]
  rw [hfinish, Option.bind_some, hcontents, Text.ofUtf8?_utf8, Option.bind_some, read?,
    String.toList_ofList]
  exact ⟨rfl, rfl⟩

end Hpgl

end GraphicsTerminal
