import GraphicsTerminal.Terminal

/-!
# Runs of the terminal

From outside a terminal receives bytes and key presses, its surface gains
clicks and its link may fail.  These are the events of a run.  Inside a run the
terminal works in turns: in each of them one step is taken.

Main definitions:

- {lit}`Terminal.Event`: what happens to a terminal from outside.
- {lit}`Terminal.respond`, {lit}`Terminal.run`: the effect of events.
- {lit}`Terminal.turns`, {lit}`Terminal.feedTurns`, {lit}`Terminal.runTurns`: the
  terminals in which steps are taken.
- {lit}`Terminal.InvariantUnder`, {lit}`Terminal.Invariant`: a property that every event
  keeps, if its surface changes in allowed ways only, or in any case.

Main results:

- Theorem {lit}`Terminal.InvariantUnder.run`: an invariant that holds at first holds
  after every run.
- Theorem {lit}`Terminal.InvariantUnder.runTurns`: and in every turn of it.
- Theorem {lit}`Terminal.run_eq_error_iff`: a run is refused exactly when one of
  its turns is.
-/

namespace GraphicsTerminal

namespace Terminal

variable {L S : Type}

/-- What happens to a terminal from outside. -/
inductive Event (L S : Type) where
  /-- Bytes of any number arrive and are used. -/
  | feed (bytes : List UInt8)
  /-- Bytes arrive and wait. -/
  | push (bytes : List UInt8)
  /-- One step is taken. -/
  | step
  /-- The bytes that wait are used. -/
  | settle
  | key (key : Key)
  /-- The surface changes by itself, for example by a click. -/
  | surface (change : S → S)
  /-- The link changes by itself, for example by a failure. -/
  | link (change : L → L)
  /-- The owner collects what it is told. -/
  | collect

/-- Change the surface from outside. -/
def changeSurface (t : Terminal L S) (change : S → S) : Terminal L S :=
  t.modifyEngine fun e => { e with surface := change e.surface }

/-- Change the link from outside. -/
def changeLink (t : Terminal L S) (change : L → L) : Terminal L S :=
  t.modifyEngine fun e => { e with channel := { e.channel with link := change e.channel.link } }

/-- Forget what the owner was told. -/
def collect (t : Terminal L S) : Terminal L S :=
  t.modifyEngine fun e => e.takeEvents.2

/-- A new terminal whose link and surface record what they are told. -/
def recorded (capacity : Nat) : Terminal RecordingLink RecordingSurface :=
  start { Settings.standard with ringCapacity := capacity } RecordingLink.unlimited
    RecordingSurface.empty fun _ => .missing

variable [HostLink L] [Surface S]

/-! ## Events and turns -/

/-- The effect of an event. -/
def respond (t : Terminal L S) : Event L S → Except Fault (Terminal L S)
  | .feed bytes => t.feed bytes
  | .push bytes => .ok (t.push bytes).2
  | .step => t.step.map Prod.snd
  | .settle => t.runUntilIdle
  | .key key => .ok (t.press key).2
  | .surface change => .ok (t.changeSurface change)
  | .link change => .ok (t.changeLink change)
  | .collect => .ok t.collect

/-- The effect of events in order, up to one that is refused. -/
def run (t : Terminal L S) : List (Event L S) → Except Fault (Terminal L S)
  | [] => .ok t
  | event :: events => do
    let t' ← t.respond event
    t'.run events

/-- The terminals in which a step is taken until no byte is left. -/
def turns (t : Terminal L S) : List (Terminal L S) :=
  match _ : t.step with
  | .ok (true, t') => t :: t'.turns
  | _ => [t]
termination_by t.work
decreasing_by exact work_step_lt ‹_›

/-- The turns of what follows, unless the part before it was refused. -/
def followed (first : Except Fault (Terminal L S))
    (later : Terminal L S → List (Terminal L S)) : List (Terminal L S) :=
  match first with
  | .error _ => []
  | .ok next => later next

/-- The terminals in which a step is taken while bytes are used. -/
def feedTurns (t : Terminal L S) : List UInt8 → List (Terminal L S)
  | [] => t.turns
  | b :: rest =>
    let count := t.slice (rest.length + 1)
    let filled := (t.push ((b :: rest).take count)).2
    filled.turns ++
      followed filled.runUntilIdle fun t' => t'.feedTurns ((b :: rest).drop count)
termination_by bytes => bytes.length
decreasing_by
  simp only [slice, List.length_drop, List.length_cons]
  omega

/-- The terminals in which a step is taken while an event is answered. -/
def respondTurns (t : Terminal L S) : Event L S → List (Terminal L S)
  | .feed bytes => t.feedTurns bytes
  | .step => [t]
  | .settle => t.turns
  | _ => []

/-- The terminals in which a step is taken during a run. -/
def runTurns (t : Terminal L S) : List (Event L S) → List (Terminal L S)
  | [] => []
  | event :: events =>
    t.respondTurns event ++ followed (t.respond event) fun t' => t'.runTurns events

/-- A run can be cut between any two events. -/
theorem run_append (t : Terminal L S) (front back : List (Event L S)) :
    t.run (front ++ back) = t.run front >>= fun t' => t'.run back := by
  induction front generalizing t with
  | nil => rfl
  | cons event front ih =>
    rw [List.cons_append, run, run]
    cases t.respond event with
    | error fault => rfl
    | ok next => exact ih next

theorem run_singleton (t : Terminal L S) (event : Event L S) :
    t.run [event] = t.respond event := by
  rw [run]
  cases t.respond event with
  | error fault => rfl
  | ok next => rfl

/-! ## One step more -/

section

variable {t t' : Terminal L S}

omit [HostLink L] in
theorem engine_pollClick (t : Terminal L S) : t.pollClick.engine = t.engine.pollClick.2 := by
  unfold pollClick
  split
  · rename_i hpoll
    rw [hpoll]
  · rename_i hpoll
    rw [hpoll]

/-- A step is an idle moment of the engine, or the engine receives a byte. -/
theorem engine_of_step {more : Bool} (h : t.step = .ok (more, t')) :
    t'.engine = t.engine.pollClick.2.idle ∨
      ∃ b, t.engine.pollClick.2.receive b = .ok t'.engine := by
  simp only [step, ← engine_pollClick] at h ⊢
  split at h
  · cases h
    exact Or.inl rfl
  · rename_i b ring _
    rcases Fault.exists_of_map h with ⟨engine, hreceive, hstepped⟩
    cases hstepped
    exact Or.inr ⟨b, hreceive⟩

/-- A step that is refused refuses the work. -/
theorem runUntilIdle_of_error {fault : Fault} (h : t.step = .error fault) :
    t.runUntilIdle = .error fault := by
  rw [runUntilIdle, h]

/-- A step without a byte ends the work. -/
theorem runUntilIdle_of_idle (h : t.step = .ok (false, t')) : t.runUntilIdle = .ok t' := by
  rw [runUntilIdle, h]

/-- A step that used a byte is followed by the rest of the work. -/
theorem runUntilIdle_of_more (h : t.step = .ok (true, t')) :
    t.runUntilIdle = t'.runUntilIdle := by
  rw [runUntilIdle, h]

end

/-! ## Invariants -/

/-- A property that the work of a terminal keeps. -/
structure StepInvariant (P : Terminal L S → Prop) : Prop where
  push : ∀ t bytes, P t → P (t.push bytes).2
  step : ∀ t t' more, P t → t.step = .ok (more, t') → P t'

namespace StepInvariant

variable {P : Terminal L S → Prop} {t t' : Terminal L S}

/-- What polls, idle moments and bytes keep of the engine is kept by the work of the
terminal. -/
theorem of_engine {P : Engine L S → Prop} (hpoll : ∀ e, P e → P e.pollClick.2)
    (hidle : ∀ e, P e → P e.idle) (hreceive : ∀ e e' b, P e → e.receive b = .ok e' → P e') :
    StepInvariant fun t : Terminal L S => P t.engine where
  push := fun _ _ h => h
  step := by
    intro t t' more h hstep
    rcases engine_of_step hstep with hidled | ⟨b, hreceived⟩
    · rw [hidled]
      exact hidle _ (hpoll _ h)
    · exact hreceive _ _ b (hpoll _ h) hreceived

/-- The work on the bytes that wait keeps the property, by induction over its steps. -/
theorem runUntilIdle (hP : StepInvariant P) (ht : P t) (h : t.runUntilIdle = .ok t') :
    P t' := by
  fun_induction Terminal.runUntilIdle t with
  | case1 t fault hstep => cases h
  | case2 t idle hstep =>
    cases h
    exact hP.step t t' false ht hstep
  | case3 t next hstep ih => exact ih (hP.step t next true ht hstep) h

/-- The property holds in every turn of the work. -/
theorem turns (hP : StepInvariant P) (ht : P t) : ∀ s ∈ t.turns, P s := by
  fun_induction Terminal.turns t with
  | case1 t next hstep ih =>
    intro s hs
    rcases List.mem_cons.1 hs with rfl | hlater
    · exact ht
    · exact ih (hP.step t next true ht hstep) s hlater
  | case2 t hstep =>
    intro s hs
    rw [List.mem_singleton.1 hs]
    exact ht

/-- Feeding keeps the property, slice by slice. -/
theorem feed (hP : StepInvariant P) {bytes : List UInt8} (ht : P t)
    (h : t.feed bytes = .ok t') : P t' := by
  fun_induction Terminal.feed t bytes with
  | case1 t => exact hP.runUntilIdle ht h
  | case2 t b rest count ih =>
    rcases Fault.exists_of_bind h with ⟨idle, hslice, hrest⟩
    exact ih idle (hP.runUntilIdle (hP.push t _ ht) hslice) hrest

/-- An invariant holds in every turn while bytes are used. -/
theorem feedTurns (hP : StepInvariant P) (bytes : List UInt8) (ht : P t) :
    ∀ s ∈ t.feedTurns bytes, P s := by
  fun_induction Terminal.feedTurns t bytes with
  | case1 t => exact hP.turns ht
  | case2 t b rest count filled ih =>
    have hfilled : P filled := hP.push t _ ht
    intro s hs
    rcases List.mem_append.1 hs with hnow | hlater
    · exact hP.turns hfilled s hnow
    · cases hslice : filled.runUntilIdle with
      | error fault => simp [followed, hslice] at hlater
      | ok idle =>
        simp only [followed, hslice] at hlater
        exact ih idle (hP.runUntilIdle hfilled hslice) s hlater

end StepInvariant

/-- An event in which the surface changes by itself does so in an allowed way. -/
def Event.Allowed (allowed : (S → S) → Prop) : Event L S → Prop
  | .surface change => allowed change
  | _ => True

omit [HostLink L] [Surface S] in
theorem Event.allowed_true (event : Event L S) : event.Allowed fun _ => True := by
  cases event with
  | _ => trivial

/-- A property that everything that happens to a terminal keeps, as long as its surface
changes by itself in allowed ways only. -/
structure InvariantUnder (allowed : (S → S) → Prop) (P : Terminal L S → Prop) : Prop
    extends StepInvariant P where
  press : ∀ t key, P t → P (t.press key).2
  surface : ∀ t change, allowed change → P t → P (t.changeSurface change)
  link : ∀ t change, P t → P (t.changeLink change)
  collect : ∀ t, P t → P t.collect

namespace InvariantUnder

variable {allowed : (S → S) → Prop} {P : Terminal L S → Prop} {t t' : Terminal L S}

/-- An allowed event keeps the property. -/
theorem respond (hP : InvariantUnder allowed P) {event : Event L S}
    (hevent : event.Allowed allowed) (ht : P t) (h : t.respond event = .ok t') : P t' := by
  cases event with
  | feed bytes => exact hP.feed ht h
  | push bytes =>
    cases h
    exact hP.push t bytes ht
  | step =>
    rcases Fault.exists_of_map h with ⟨stepped, hstep, rfl⟩
    exact hP.step t _ _ ht hstep
  | settle => exact hP.runUntilIdle ht h
  | key key =>
    cases h
    exact hP.press t key ht
  | surface change =>
    cases h
    exact hP.surface t change hevent ht
  | link change =>
    cases h
    exact hP.link t change ht
  | collect =>
    cases h
    exact hP.collect t ht

/-- An invariant holds in every turn of an event. -/
theorem respondTurns (hP : InvariantUnder allowed P) (event : Event L S) (ht : P t) :
    ∀ s ∈ t.respondTurns event, P s := by
  intro s hs
  cases event with
  | feed bytes => exact hP.feedTurns bytes ht s hs
  | step =>
    rw [List.mem_singleton.1 hs]
    exact ht
  | settle => exact hP.turns ht s hs
  | _ => cases hs

/-- An invariant that holds at first holds after every run. -/
theorem run (hP : InvariantUnder allowed P) {events : List (Event L S)}
    (hevents : ∀ event ∈ events, event.Allowed allowed) (ht : P t)
    (h : t.run events = .ok t') : P t' := by
  induction events generalizing t with
  | nil =>
    cases h
    exact ht
  | cons event events ih =>
    rcases Fault.exists_of_bind h with ⟨next, hevent, hrest⟩
    have hnext : P next := hP.respond (hevents event (.head events)) ht hevent
    exact ih (fun e he => hevents e (.tail event he)) hnext hrest

/-- An invariant that holds at first holds in every turn of every run. -/
theorem runTurns (hP : InvariantUnder allowed P) {events : List (Event L S)}
    (hevents : ∀ event ∈ events, event.Allowed allowed) (ht : P t) :
    ∀ s ∈ t.runTurns events, P s := by
  induction events generalizing t with
  | nil =>
    intro s hs
    cases hs
  | cons event events ih =>
    intro s hs
    rcases List.mem_append.1 hs with hnow | hlater
    · exact hP.respondTurns event ht s hnow
    · cases hevent : t.respond event with
      | error fault => simp [followed, hevent] at hlater
      | ok next =>
        simp only [followed, hevent] at hlater
        have hnext : P next := hP.respond (hevents event (.head events)) ht hevent
        exact ih (fun e he => hevents e (.tail event he)) hnext s hlater

end InvariantUnder

/-- A property that everything that happens to a terminal keeps. -/
structure Invariant (P : Terminal L S → Prop) : Prop extends StepInvariant P where
  press : ∀ t key, P t → P (t.press key).2
  surface : ∀ t change, P t → P (t.changeSurface change)
  link : ∀ t change, P t → P (t.changeLink change)
  collect : ∀ t, P t → P t.collect

namespace Invariant

variable {P : Terminal L S → Prop} {t t' : Terminal L S}

/-- An invariant is kept whatever is allowed. -/
theorem under (hP : Invariant P) : InvariantUnder (fun _ : S → S => True) P where
  toStepInvariant := hP.toStepInvariant
  press := hP.press
  surface := fun t change _ ht => hP.surface t change ht
  link := hP.link
  collect := hP.collect

/-- Every event keeps an invariant. -/
theorem respond (hP : Invariant P) {event : Event L S} (ht : P t)
    (h : t.respond event = .ok t') : P t' :=
  hP.under.respond event.allowed_true ht h

/-- An invariant that holds at first holds after every run. -/
theorem run (hP : Invariant P) {events : List (Event L S)} (ht : P t)
    (h : t.run events = .ok t') : P t' :=
  hP.under.run (fun event _ => event.allowed_true) ht h

/-- An invariant that holds at first holds in every turn of every run. -/
theorem runTurns (hP : Invariant P) (events : List (Event L S)) (ht : P t) :
    ∀ s ∈ t.runTurns events, P s :=
  hP.under.runTurns (fun event _ => event.allowed_true) ht

end Invariant

/-! ## Refused runs -/

variable {t : Terminal L S} {fault : Fault}

/-- Using the bytes that wait is refused exactly when one of the turns is. -/
theorem runUntilIdle_eq_error_iff :
    t.runUntilIdle = .error fault ↔ ∃ s ∈ t.turns, s.step = .error fault := by
  fun_induction runUntilIdle t with
  | case1 t refusal hstep =>
    rw [turns, hstep]
    simp [hstep]
  | case2 t idle hstep =>
    rw [turns, hstep]
    simp [hstep]
  | case3 t next hstep ih =>
    rw [turns, hstep, ih]
    simp [hstep]

/-- Work that goes on after its first part is refused exactly when a turn of the
first part is, or one of what follows. -/
theorem refused_append_iff {first : Except Fault (Terminal L S)}
    {later : Terminal L S → Except Fault (Terminal L S)} {now : List (Terminal L S)}
    {laterTurns : Terminal L S → List (Terminal L S)}
    (hnow : ∀ fault : Fault, first = .error fault ↔ ∃ s ∈ now, s.step = .error fault)
    (hlater : ∀ next, first = .ok next →
      (later next = .error fault ↔ ∃ s ∈ laterTurns next, s.step = .error fault)) :
    (first >>= later) = .error fault ↔
      ∃ s ∈ now ++ followed first laterTurns, s.step = .error fault := by
  cases first with
  | error refusal =>
    rw [followed, List.append_nil]
    exact hnow fault
  | ok next =>
    have hnone : ¬ ∃ s ∈ now, s.step = .error fault := by
      intro hrefused
      cases (hnow fault).2 hrefused
    simp only [followed, List.mem_append, or_and_right, exists_or, hnone, false_or]
    exact hlater next rfl

/-- Using bytes is refused exactly when one of the turns is. -/
theorem feed_eq_error_iff (bytes : List UInt8) :
    t.feed bytes = .error fault ↔ ∃ s ∈ t.feedTurns bytes, s.step = .error fault := by
  fun_induction feedTurns t bytes with
  | case1 t =>
    rw [feed]
    exact runUntilIdle_eq_error_iff
  | case2 t b rest count filled ih =>
    rw [feed]
    exact refused_append_iff (fun _ => runUntilIdle_eq_error_iff) fun next _ => ih next

/-- An event is refused exactly when one of its turns is. -/
theorem respond_eq_error_iff (event : Event L S) :
    t.respond event = .error fault ↔ ∃ s ∈ t.respondTurns event, s.step = .error fault := by
  cases event with
  | feed bytes => exact feed_eq_error_iff bytes
  | settle => exact runUntilIdle_eq_error_iff
  | step =>
    cases hstep : t.step with
    | error refusal => simp [respond, respondTurns, hstep, Except.map]
    | ok stepped => simp [respond, respondTurns, hstep, Except.map]
  | _ => simp [respond, respondTurns]

/-- A run is refused exactly when one of its turns is. -/
theorem run_eq_error_iff (events : List (Event L S)) :
    t.run events = .error fault ↔ ∃ s ∈ t.runTurns events, s.step = .error fault := by
  induction events generalizing t with
  | nil => simp [run, runTurns]
  | cons event events ih =>
    rw [run, runTurns]
    exact refused_append_iff (fun _ => respond_eq_error_iff event) fun _ _ => ih

end Terminal

end GraphicsTerminal
