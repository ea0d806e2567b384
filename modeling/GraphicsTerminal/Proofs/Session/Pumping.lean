import GraphicsTerminal.Proofs.Input.Accounting
import GraphicsTerminal.Session.Pump

/-!
# A pump that loses nothing

The pump looks how much room there is and pushes later; in between the reader of the
ring may work.  A reader only makes more room, so what the pump saw is still there.

Main definitions:

- {lit}`ReadResult.stream`, {lit}`ReadResult.outcome`: the bytes that the results of
  reading give, and how they end.
- {lit}`Pump.ahead`: the bytes that have not reached the ring.
- {lit}`Pumping`: a pump, the ring, and a reader who only takes bytes.

Main results:

- Theorem {lit}`Pump.step_pushes`: a step of the pump moves bytes from those ahead into
  the ring, where there is room for them.
- Theorem {lit}`Pumping.run_ledger`: no byte is lost, repeated or moved.
- Theorem {lit}`Pumping.run_delivers`: the same with the count, the end of the stream,
  and the end of the pump.
-/

namespace GraphicsTerminal

/-! ## What the host sends -/

namespace ReadResult

/-- The bytes up to the end of the stream or the first failure. -/
def stream : List ReadResult → List UInt8
  | .data (b :: bytes) :: rest => b :: bytes ++ stream rest
  | .interrupted :: rest => stream rest
  | _ => []

/-- How reading ends: with the reason of a failure, or with the number of bytes, of
which some were read before. -/
def outcomeAfter (before : Nat) : List ReadResult → Except String Nat
  | .data (b :: bytes) :: rest => outcomeAfter (before + (b :: bytes).length) rest
  | .interrupted :: rest => outcomeAfter before rest
  | .failed reason :: _ => .error reason
  | _ => .ok before

/-- How reading ends. -/
def outcome (reads : List ReadResult) : Except String Nat := outcomeAfter 0 reads

/-- Reading that ends without a failure counts its bytes. -/
theorem eq_length_of_outcomeAfter {before count : Nat} {reads : List ReadResult}
    (h : outcomeAfter before reads = .ok count) : count = before + (stream reads).length := by
  induction reads generalizing before with
  | nil => simpa [outcomeAfter, stream, eq_comm] using h
  | cons result rest ih =>
    cases result with
    | data bytes =>
      cases bytes with
      | nil => simpa [outcomeAfter, stream, eq_comm] using h
      | cons b bytes =>
        have hcount := ih h
        simp only [stream, List.length_append, hcount]
        omega
    | interrupted => simpa [stream] using ih h
    | ended => simpa [outcomeAfter, stream, eq_comm] using h
    | failed reason => simp [outcomeAfter] at h

/-- Reading that ends without a failure counts all of its bytes. -/
theorem eq_length_of_outcome {count : Nat} {reads : List ReadResult}
    (h : outcome reads = .ok count) : count = (stream reads).length := by
  have hcount := eq_length_of_outcomeAfter h
  omega

end ReadResult

/-! ## One step of the pump -/

namespace Pump

variable {p : Pump} {ring : Ring}

/-- The bytes that were not read. -/
def unread (p : Pump) : List UInt8 := if p.isDone then [] else ReadResult.stream p.reads

/-- The bytes that have not reached the ring. -/
def ahead (p : Pump) : List UInt8 := p.chunk ++ p.unread

/-- How the pump ended, or will. -/
def verdict (p : Pump) : Except String Nat :=
  p.result.getD (ReadResult.outcomeAfter p.total p.reads)

/-- What holds between the steps of a pump on a ring: the room that it saw is still
there and the chunk needs it, and all was pushed before the end. -/
structure Ready (p : Pump) (ring : Ring) : Prop where
  room_le_free : p.room ≤ ring.free
  room_le_chunk : p.room ≤ p.chunk.length
  chunk_eq : p.isDone = true → p.chunk = []

/-- A new pump has no chunk and has seen no room. -/
theorem ready_start (reads : List ReadResult) (ring : Ring) : (start reads).Ready ring := by
  constructor
  · simp [start]
  · simp [start]
  · simp [start]

/-- Before the first step the whole stream is ahead. -/
theorem ahead_start (reads : List ReadResult) :
    (start reads).ahead = ReadResult.stream reads := by
  simp [start, ahead, unread, isDone]

/-- More room does not disturb the pump. -/
theorem Ready.mono {other : Ring} (h : p.Ready ring) (hfree : ring.free ≤ other.free) :
    p.Ready other := by
  constructor
  · exact Nat.le_trans h.room_le_free hfree
  · exact h.room_le_chunk
  · exact h.chunk_eq

/-- Reading moves bytes into the chunk and counts them. -/
theorem read_moves (hdone : p.isDone = false) (hchunk : p.chunk = []) :
    p.read.ahead = p.ahead ∧
      p.read.total + p.read.unread.length = p.total + p.unread.length ∧
      p.read.verdict = p.verdict ∧ (p.read.isDone = true → p.read.chunk = []) := by
  have hresult : p.result = none := by simpa [isDone] using hdone
  rcases hreads : p.reads with _ | ⟨⟨_ | ⟨b, bytes⟩⟩ | _ | _ | reason, rest⟩
  all_goals
    simp [read, hreads, ahead, unread, verdict, isDone, hresult, hchunk,
      ReadResult.stream, ReadResult.outcomeAfter]
  omega

@[simp]
theorem room_read (p : Pump) : p.read.room = p.room := by
  unfold read
  split <;> rfl

/-- What a step does: nothing at the end, and otherwise one of three things. -/
theorem step_cases (h : p.Ready ring) :
    (p.isDone = true ∧ p.step ring = (p, ring)) ∨
      (p.isDone = false ∧ p.chunk = [] ∧ p.room = 0 ∧ p.step ring = (p.read, ring)) ∨
      (p.isDone = false ∧ p.chunk ≠ [] ∧ p.room = 0 ∧ p.step ring = (p.look ring, ring)) ∨
      (p.isDone = false ∧ p.chunk ≠ [] ∧ p.room ≠ 0 ∧ p.step ring = p.push ring) := by
  by_cases hdone : p.isDone = true
  · simp [step, hdone]
  by_cases hchunk : p.chunk = []
  · have hroom : p.room = 0 := by simpa [hchunk] using h.room_le_chunk
    simp [step, hdone, hchunk, hroom]
  by_cases hroom : p.room = 0
  · simp [step, hdone, hchunk, hroom]
  · simp [step, hdone, hchunk, hroom]

/-- A step moves bytes from those ahead into the ring, where there is room for them. -/
theorem step_pushes (h : p.Ready ring) :
    ∃ pushed, pushed.length ≤ ring.free ∧ (p.step ring).2 = (ring.extend pushed).2 ∧
      pushed ++ (p.step ring).1.ahead = p.ahead ∧
      (p.step ring).1.Ready (p.step ring).2 := by
  rcases step_cases h with ⟨-, hstep⟩ | ⟨hdone, hchunk, hroom, hstep⟩ |
    ⟨-, -, -, hstep⟩ | ⟨-, -, -, hstep⟩
  · rw [hstep]
    exact ⟨[], Nat.zero_le _, rfl, rfl, h⟩
  · rcases read_moves hdone hchunk with ⟨hahead, -, -, hempty⟩
    rw [hstep]
    refine ⟨[], Nat.zero_le _, rfl, hahead, ?_, ?_, hempty⟩
    · simp [hroom]
    · simp [hroom]
  · rw [hstep]
    refine ⟨[], Nat.zero_le _, rfl, rfl, ?_, ?_, ?_⟩
    · exact Nat.min_le_left ring.free p.chunk.length
    · exact Nat.min_le_right ring.free p.chunk.length
    · exact h.chunk_eq
  · rw [hstep]
    refine ⟨p.chunk.take p.room, ?_, rfl, ?_, ?_, ?_, ?_⟩
    · exact Nat.le_trans (List.length_take_le p.room p.chunk) h.room_le_free
    · rw [ahead, push, ← List.append_assoc, List.take_append_drop]
      rfl
    · simp [push]
    · simp [push]
    · intro hend
      simp [push, h.chunk_eq hend]

/-- A step counts what it reads, and keeps how reading ends. -/
theorem step_counts (h : p.Ready ring) :
    (p.step ring).1.total + (p.step ring).1.unread.length = p.total + p.unread.length ∧
      (p.step ring).1.verdict = p.verdict := by
  rcases step_cases h with ⟨-, hstep⟩ | ⟨hdone, hchunk, -, hstep⟩ |
    ⟨-, -, -, hstep⟩ | ⟨-, -, -, hstep⟩
  · rw [hstep]
    exact ⟨rfl, rfl⟩
  · rcases read_moves hdone hchunk with ⟨-, htotal, hverdict, -⟩
    rw [hstep]
    exact ⟨htotal, hverdict⟩
  · rw [hstep]
    exact ⟨rfl, rfl⟩
  · rw [hstep]
    exact ⟨rfl, rfl⟩

/-! ## The end of the pump -/

/-- A bound on the steps that are left when there is always room. -/
def owed (p : Pump) : Nat := p.stepsLeft - if p.room = 0 then 0 else 1

theorem owed_le_stepsLeft (p : Pump) : p.owed ≤ p.stepsLeft := Nat.sub_le _ _

/-- Room that was seen is for a chunk, so at least one step is owed. -/
theorem owed_pos (p : Pump) (hroom : p.room ≤ p.chunk.length) : 0 < p.owed := by
  simp only [owed, stepsLeft]
  by_cases hnone : p.room = 0
  · simp only [hnone, if_true]
    omega
  · simp only [hnone, if_false]
    omega

/-- Reading takes a step. -/
theorem stepsLeft_read (hchunk : p.chunk = []) :
    p.read.isDone = true ∨ p.read.stepsLeft < p.stepsLeft := by
  rcases hreads : p.reads with _ | ⟨⟨_ | ⟨b, bytes⟩⟩ | _ | _ | reason, rest⟩
  all_goals
    simp [read, hreads, isDone, stepsLeft, hchunk, ReadResult.steps]
  omega

/-- A step leaves no more steps, and fewer when there is room. -/
theorem owed_step (h : p.Ready ring) :
    (p.step ring).1.isDone = true ∨
      p.isDone = false ∧ (p.step ring).1.owed ≤ p.owed ∧
        (1 ≤ ring.free → (p.step ring).1.owed < p.owed) := by
  have hle := h.room_le_chunk
  rcases step_cases h with ⟨hdone, hstep⟩ | ⟨hdone, hchunk, hroom, hstep⟩ |
    ⟨hdone, hchunk, hroom, hstep⟩ | ⟨hdone, hchunk, hroom, hstep⟩
  · rw [hstep]
    exact Or.inl hdone
  · rw [hstep]
    rcases stepsLeft_read hchunk with hend | hlt
    · exact Or.inl hend
    · refine Or.inr ⟨hdone, ?_⟩
      simp only [owed, hroom, room_read, if_true]
      omega
  · have hlength := List.length_pos_iff.2 hchunk
    rw [hstep]
    refine Or.inr ⟨hdone, ?_⟩
    by_cases hnone : min ring.free p.chunk.length = 0
    · simp only [owed, stepsLeft, look, hroom, hnone, if_true]
      omega
    · simp only [owed, stepsLeft, look, hroom, hnone, if_true, if_false]
      omega
  · rw [hstep]
    refine Or.inr ⟨hdone, ?_⟩
    simp only [owed, stepsLeft, push, hroom, List.length_drop, if_true, if_false]
    omega

end Pump

/-! ## The pump and a reader of the ring -/

/-- A pump, the ring that it fills, and the bytes that its reader took. -/
structure Pumping where
  pump : Pump
  ring : Ring
  taken : List UInt8

/-- Who works next. -/
inductive PumpingTurn where
  | pump
  /-- The reader, who takes a byte if one waits. -/
  | take
deriving DecidableEq, Repr

namespace Pumping

/-- A pump that has not begun, on a new ring. -/
def start (capacity : Nat) (reads : List ReadResult) : Pumping :=
  ⟨Pump.start reads, Ring.empty capacity, []⟩

/-- One turn. -/
def next (s : Pumping) : PumpingTurn → Pumping
  | .pump => ⟨(s.pump.step s.ring).1, (s.pump.step s.ring).2, s.taken⟩
  | .take =>
    match s.ring.pop? with
    | none => s
    | some (b, ring) => ⟨s.pump, ring, s.taken ++ [b]⟩

/-- The turns of a schedule. -/
def run (s : Pumping) (schedule : List PumpingTurn) : Pumping := schedule.foldl next s

theorem run_append (s : Pumping) (first second : List PumpingTurn) :
    s.run (first ++ second) = (s.run first).run second :=
  List.foldl_append

/-- The bytes that the reader took, those in the ring and those ahead of it are what the
host sends; none was lost. -/
structure Ledger (reads : List ReadResult) (s : Pumping) : Prop where
  ready : s.pump.Ready s.ring
  lossless : s.ring.overruns = 0
  bytes_eq : s.taken ++ s.ring.toList ++ s.pump.ahead = ReadResult.stream reads
  count_eq : s.pump.total + s.pump.unread.length = (ReadResult.stream reads).length
  verdict_eq : s.pump.verdict = ReadResult.outcome reads

variable {reads : List ReadResult} {s : Pumping}

/-- At the start all bytes are ahead, and none was lost. -/
theorem ledger_start (capacity : Nat) (reads : List ReadResult) :
    Ledger reads (start capacity reads) where
  ready := Pump.ready_start reads _
  lossless := rfl
  bytes_eq := by simp [start, Pump.ahead_start]
  count_eq := by simp [start, Pump.start, Pump.unread, Pump.isDone]
  verdict_eq := rfl

/-- The pump pushes what it saw room for, whatever the reader did since. -/
theorem Ledger.pump (h : Ledger reads s) : Ledger reads (s.next .pump) := by
  rcases Pump.step_pushes h.ready with ⟨pushed, hfits, hring, hahead, hready⟩
  rcases Pump.step_counts h.ready with ⟨hcount, hverdict⟩
  rcases Ring.extend_of_le_free hfits with ⟨hlist, hoverruns⟩
  constructor
  · exact hready
  · simp only [next, hring, hoverruns, h.lossless]
  · simp only [next, hring, hlist, ← h.bytes_eq, ← hahead, List.append_assoc]
  · simp only [next, hcount, h.count_eq]
  · simp only [next, hverdict, h.verdict_eq]

/-- The reader takes the oldest byte, and leaves more room. -/
theorem Ledger.take (h : Ledger reads s) : Ledger reads (s.next .take) := by
  rcases hpop : s.ring.pop? with _ | ⟨b, ring⟩
  · simpa only [next, hpop] using h
  · have hfree := Ring.free_of_pop? hpop
    simp only [next, hpop]
    constructor
    · exact h.ready.mono (hfree ▸ Nat.le_succ _)
    · exact (Ring.overruns_of_pop? hpop).trans h.lossless
    · simp [← h.bytes_eq, Ring.toList_of_pop? hpop]
    · exact h.count_eq
    · exact h.verdict_eq

/-- Every schedule keeps the ledger, by induction over its turns. -/
theorem Ledger.run (h : Ledger reads s) (schedule : List PumpingTurn) :
    Ledger reads (s.run schedule) := by
  induction schedule generalizing s with
  | nil => exact h
  | cons turn schedule ih =>
    cases turn with
    | pump => exact ih h.pump
    | take => exact ih h.take

/-- No byte is lost, repeated or moved, whoever works when. -/
theorem run_ledger (capacity : Nat) (reads : List ReadResult) (schedule : List PumpingTurn) :
    Ledger reads ((start capacity reads).run schedule) :=
  (ledger_start capacity reads).run schedule

/-- The bytes that reached the ring, and the rest of the chunk, are those read so far. -/
theorem Ledger.read_eq (h : Ledger reads s) :
    s.taken ++ s.ring.toList ++ s.pump.chunk = (ReadResult.stream reads).take s.pump.total := by
  have hbytes := h.bytes_eq
  have hcount := h.count_eq
  rw [Pump.ahead, ← List.append_assoc] at hbytes
  rw [← hbytes, List.length_append] at hcount
  rw [← hbytes, List.take_left']
  omega

/-- When the pump has ended, all reached the ring. -/
theorem Ledger.of_result {result : Except String Nat} (h : Ledger reads s)
    (hresult : s.pump.result = some result) :
    s.taken ++ s.ring.toList = ReadResult.stream reads ∧ result = ReadResult.outcome reads := by
  have hdone : s.pump.isDone = true := by simp [Pump.isDone, hresult]
  constructor
  · have hbytes := h.bytes_eq
    simpa [Pump.ahead, Pump.unread, hdone, h.ready.chunk_eq hdone] using hbytes
  · simpa [Pump.verdict, hresult] using h.verdict_eq

/-! ## A reader who keeps reading -/

@[simp]
theorem pump_take (s : Pumping) : (s.next .take).pump = s.pump := by
  simp only [next]
  split <;> rfl

/-- After the reader worked, there is room for a byte. -/
theorem one_le_free_take (s : Pumping) : 1 ≤ (s.next .take).ring.free := by
  rcases hpop : s.ring.pop? with _ | ⟨b, ring⟩
  · simpa only [next, hpop] using Ring.one_le_free ((Ring.pop?_eq_none_iff s.ring).1 hpop)
  · have hfree := Ring.free_of_pop? hpop
    simp only [next, hpop]
    omega

/-- The pump has ended, or it owes no more than a number of steps. -/
def Owes (s : Pumping) (steps : Nat) : Prop :=
  s.pump.isDone = true ∨ s.pump.owed ≤ steps

/-- No turn adds to what the pump owes. -/
theorem Ledger.owes_run {steps : Nat} (h : Ledger reads s) (howes : s.Owes steps)
    (schedule : List PumpingTurn) : (s.run schedule).Owes steps := by
  induction schedule generalizing s with
  | nil => exact howes
  | cons turn schedule ih =>
    cases turn with
    | pump =>
      apply ih h.pump
      rcases Pump.owed_step h.ready with hend | ⟨hdone, hle, -⟩
      · exact Or.inl hend
      · rcases howes with hend | howed
        · simp [hend] at hdone
        · exact Or.inr (Nat.le_trans hle howed)
    | take =>
      apply ih h.take
      simpa only [Owes, pump_take] using howes

/-- A turn of the reader and then one of the pump take off a step. -/
theorem Ledger.owes_round {steps : Nat} (h : Ledger reads s) (howes : s.Owes (steps + 1)) :
    (s.run [.take, .pump]).Owes steps := by
  rcases Pump.owed_step h.take.ready with hend | ⟨hdone, -, hlt⟩
  · exact Or.inl hend
  · have hless : (s.run [.take, .pump]).pump.owed < (s.next .take).pump.owed :=
      hlt (one_le_free_take s)
    rw [pump_take] at hdone hless
    rcases howes with hend | howed
    · simp [hend] at hdone
    · right
      omega

/-- A pump ends when the reader keeps reading, whatever else happens in between. -/
theorem Ledger.isDone_rounds (h : Ledger reads s) (between : List (List PumpingTurn))
    (howes : s.Owes between.length) :
    (s.run (between.flatMap (· ++ [.take, .pump]))).pump.isDone = true := by
  induction between generalizing s with
  | nil =>
    rcases howes with hend | hle
    · exact hend
    · have hpos := Pump.owed_pos s.pump h.ready.room_le_chunk
      simp only [List.length_nil] at hle
      omega
  | cons turns between ih =>
    have hturns := h.run turns
    rw [List.flatMap_cons, run_append, run_append]
    apply ih (hturns.run [.take, .pump])
    exact hturns.owes_round (h.owes_run howes turns)

/-- The pump never overruns the ring, whoever works when: what was taken, what waits in
the ring and the rest of the chunk are the bytes read so far, in order; when the pump
has ended, all bytes of the host reached the ring, and it counted them or reports the
failure; and it ends, if the reader keeps reading. -/
theorem run_delivers (capacity : Nat) (reads : List ReadResult)
    (schedule : List PumpingTurn) :
    let s := (start capacity reads).run schedule
    s.ring.overruns = 0 ∧
      s.taken ++ s.ring.toList ++ s.pump.chunk =
        (ReadResult.stream reads).take s.pump.total ∧
      (∀ result, s.pump.result = some result →
        s.taken ++ s.ring.toList = ReadResult.stream reads ∧
          result = ReadResult.outcome reads) ∧
      (∀ count, s.pump.result = some (.ok count) →
        count = (ReadResult.stream reads).length) ∧
      ∀ between : List (List PumpingTurn), s.pump.stepsLeft ≤ between.length →
        (s.run (between.flatMap (· ++ [.take, .pump]))).pump.isDone = true := by
  intro s
  have hledger : Ledger reads s := run_ledger capacity reads schedule
  refine ⟨hledger.lossless, hledger.read_eq, ?_, ?_, ?_⟩
  · intro result hresult
    exact hledger.of_result hresult
  · intro count hcount
    exact ReadResult.eq_length_of_outcome (hledger.of_result hcount).2.symm
  · intro between hrounds
    apply hledger.isDone_rounds between
    exact Or.inr (Nat.le_trans s.pump.owed_le_stepsLeft hrounds)

end Pumping

end GraphicsTerminal
