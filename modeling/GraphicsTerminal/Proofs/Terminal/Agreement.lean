import Mathlib.Data.List.Forall2
import GraphicsTerminal.Proofs.Engine.Agreement
import GraphicsTerminal.Proofs.Terminal.Run

/-!
# Terminals that agree

Two terminals are paired when the same bytes wait in their rings and their engines
agree inside a frame.  The same events keep them paired, if all that an engine does
keeps the frame.

Main definitions:

- {lit}`Terminal.Paired`: two terminals with the same ring and engines that agree.
- {lit}`Terminal.Event.Paired`: two events that are the same, or that change the
  surroundings alike.

Main results:

- Theorem {lit}`Terminal.Paired.run`: paired events lead from paired terminals to
  paired terminals, or to the same refusal.
- Theorem {lit}`Terminal.Paired.runTurns`: and they do so through paired turns.
-/

namespace GraphicsTerminal

namespace Terminal

variable {L L' S S' : Type} {F : Frame L L' S S'}

/-- Two terminals with the same ring and engines that agree. -/
structure Paired (F : Frame L L' S S') (t : Terminal L S) (t' : Terminal L' S') : Prop where
  ring : t.ring = t'.ring
  engine : Agree F t.engine t'.engine

/-- Two events that are the same, or that change the surroundings alike. -/
inductive Event.Paired (F : Frame L L' S S') : Event L S → Event L' S' → Prop
  | feed (bytes : List UInt8) : Event.Paired F (.feed bytes) (.feed bytes)
  | push (bytes : List UInt8) : Event.Paired F (.push bytes) (.push bytes)
  | step : Event.Paired F .step .step
  | settle : Event.Paired F .settle .settle
  | key (key : Key) : Event.Paired F (.key key) (.key key)
  | surface {change : S → S} {change' : S' → S'}
      (h : ∀ s s', F.surface s s' → F.surface (change s) (change' s')) :
      Event.Paired F (.surface change) (.surface change')
  | link {change : L → L} {change' : L' → L'}
      (h : ∀ c c', F.channel c c' →
        F.channel { c with link := change c.link } { c' with link := change' c'.link }) :
      Event.Paired F (.link change) (.link change')
  | collect : Event.Paired F .collect .collect

namespace Paired

variable {t : Terminal L S} {t' : Terminal L' S'}

/-- The same bytes fill both rings. -/
theorem push (h : Paired F t t') (bytes : List UInt8) :
    Paired F (t.push bytes).2 (t'.push bytes).2 where
  ring := by
    simp only [Terminal.push, h.ring]
  engine := h.engine

variable [HostLink L] [HostLink L'] [Surface S] [Surface S']

/-- A click is polled on both sides or on neither, and puts the same byte back. -/
theorem pollClick (hF : F.KeptByAll) (h : Paired F t t') : Paired F t.pollClick t'.pollClick := by
  obtain ⟨hclick, hpolled⟩ := h.engine.pollClick hF.toKeptByAnswers
  unfold Terminal.pollClick
  generalize t.engine.pollClick = polled at hclick hpolled ⊢
  generalize t'.engine.pollClick = polled' at hclick hpolled ⊢
  obtain ⟨click, engine⟩ := polled
  obtain ⟨click', engine'⟩ := polled'
  obtain rfl : click = click' := hclick
  cases click with
  | true => exact ⟨congrArg (·.putBack Byte.dc1) h.ring, hpolled⟩
  | false => exact ⟨h.ring, hpolled⟩

/-- Paired terminals take the same step. -/
theorem step (hF : F.KeptByAll) (h : Paired F t t') :
    Matches (fun taken taken' => taken.1 = taken'.1 ∧ Paired F taken.2 taken'.2)
      t.step t'.step := by
  have hpolled := h.pollClick hF
  simp only [Terminal.step, ← hpolled.ring]
  cases t.pollClick.ring.pop? with
  | none => exact .ok ⟨rfl, hpolled.ring, hpolled.engine.idle hF⟩
  | some taken =>
    exact (hpolled.engine.receive hF taken.1).map fun _ _ hengine => ⟨rfl, rfl, hengine⟩

/-- A step that one terminal takes is taken by the other as well. -/
theorem step_of_ok (hF : F.KeptByAll) (h : Paired F t t') {more : Bool} {next : Terminal L S}
    (hstep : t.step = .ok (more, next)) :
    ∃ next', t'.step = .ok (more, next') ∧ Paired F next next' := by
  have hmatch := h.step hF
  rw [hstep] at hmatch
  obtain ⟨⟨_, next'⟩, hstep', rfl, hnext⟩ := hmatch.of_ok
  exact ⟨next', hstep', hnext⟩

/-- The bytes that wait are used alike, or refused alike. -/
theorem runUntilIdle (hF : F.KeptByAll) (h : Paired F t t') :
    Matches (Paired F) t.runUntilIdle t'.runUntilIdle := by
  fun_induction Terminal.runUntilIdle t generalizing t' with
  | case1 t fault hstep =>
    have hmatch := h.step hF
    rw [hstep] at hmatch
    rw [runUntilIdle_of_error hmatch.of_error]
    exact .error fault
  | case2 t idle hstep =>
    obtain ⟨idle', hstep', hidle⟩ := h.step_of_ok hF hstep
    rw [runUntilIdle_of_idle hstep']
    exact .ok hidle
  | case3 t next hstep ih =>
    obtain ⟨next', hstep', hnext⟩ := h.step_of_ok hF hstep
    rw [runUntilIdle_of_more hstep']
    exact ih hnext

/-- A stream is cut into the same slices on both sides. -/
theorem feed (hF : F.KeptByAll) (h : Paired F t t') (bytes : List UInt8) :
    Matches (Paired F) (t.feed bytes) (t'.feed bytes) := by
  fun_induction Terminal.feed t bytes generalizing t' with
  | case1 t =>
    rw [Terminal.feed]
    exact h.runUntilIdle hF
  | case2 t b rest count =>
    rename_i ih
    have hcount : t'.slice (rest.length + 1) = count := by
      simp only [count, slice, h.ring]
    rw [Terminal.feed, hcount]
    exact ((h.push _).runUntilIdle hF).bind fun idle idle' hidle => ih idle hidle

/-- A key has the same outcome on both sides. -/
theorem press (hF : F.KeptByAll) (h : Paired F t t') (key : Key) :
    (t.press key).1 = (t'.press key).1 ∧ Paired F (t.press key).2 (t'.press key).2 := by
  obtain ⟨houtcome, hpressed⟩ := h.engine.press hF.toKeptByReports key
  exact ⟨houtcome, h.ring, hpressed⟩

/-- Paired events are answered alike, or refused alike. -/
theorem respond (hF : F.KeptByAll) (h : Paired F t t') {event : Event L S}
    {event' : Event L' S'} (hevent : Event.Paired F event event') :
    Matches (Paired F) (t.respond event) (t'.respond event') := by
  cases hevent with
  | feed bytes => exact h.feed hF bytes
  | push bytes => exact .ok (h.push bytes)
  | step => exact (h.step hF).map fun _ _ hstepped => hstepped.2
  | settle => exact h.runUntilIdle hF
  | key key => exact .ok (h.press hF key).2
  | surface hchange =>
    exact .ok ⟨h.ring, { h.engine with surface := hchange _ _ h.engine.surface }⟩
  | link hchange =>
    exact .ok ⟨h.ring, { h.engine with channel := hchange _ _ h.engine.channel }⟩
  | collect => exact .ok ⟨h.ring, { h.engine with events := hF.collect }⟩

/-- Paired events lead from paired terminals to paired terminals, or to the same
refusal. -/
theorem run (hF : F.KeptByAll) (h : Paired F t t') {events : List (Event L S)}
    {events' : List (Event L' S')} (hevents : List.Forall₂ (Event.Paired F) events events') :
    Matches (Paired F) (t.run events) (t'.run events') := by
  induction hevents generalizing t t' with
  | nil => exact .ok h
  | cons hevent _ ih => exact (h.respond hF hevent).bind fun _ _ hnext => ih hnext

/-! ### Turns -/

/-- Paired terminals use the bytes that wait in paired turns. -/
theorem turns (hF : F.KeptByAll) (h : Paired F t t') :
    List.Forall₂ (Paired F) t.turns t'.turns := by
  fun_induction Terminal.turns t generalizing t' with
  | case1 t next hstep ih =>
    obtain ⟨next', hstep', hnext⟩ := h.step_of_ok hF hstep
    have hturns' : t'.turns = t' :: next'.turns := by rw [Terminal.turns, hstep']
    rw [hturns']
    exact .cons h (ih hnext)
  | case2 t hlast =>
    have hlast' : ∀ next', t'.step ≠ .ok (true, next') := by
      intro next' hstep'
      have hmatch := h.step hF
      rw [hstep'] at hmatch
      obtain ⟨⟨more, next⟩, hstep, hmore, -⟩ := hmatch.ok_of_right
      obtain rfl : more = true := hmore
      exact hlast next hstep
    rw [Terminal.turns]
    split
    · rename_i next' hstep'
      exact absurd hstep' (hlast' next')
    · exact .cons h .nil

omit [HostLink L] [HostLink L'] [Surface S] [Surface S'] in
/-- What follows takes paired turns, or the part before it was refused on both sides. -/
theorem followed {first : Except Fault (Terminal L S)} {first' : Except Fault (Terminal L' S')}
    {later : Terminal L S → List (Terminal L S)} {later' : Terminal L' S' → List (Terminal L' S')}
    (hfirst : Matches (Paired F) first first')
    (hlater : ∀ next next', Paired F next next' →
      List.Forall₂ (Paired F) (later next) (later' next')) :
    List.Forall₂ (Paired F) (Terminal.followed first later) (Terminal.followed first' later') := by
  cases hfirst with
  | error fault => exact .nil
  | ok h => exact hlater _ _ h

/-- The turns of a stream are paired one by one. -/
theorem feedTurns (hF : F.KeptByAll) (h : Paired F t t') (bytes : List UInt8) :
    List.Forall₂ (Paired F) (t.feedTurns bytes) (t'.feedTurns bytes) := by
  fun_induction Terminal.feedTurns t bytes generalizing t' with
  | case1 t =>
    rw [Terminal.feedTurns]
    exact h.turns hF
  | case2 t b rest count filled =>
    rename_i ih
    have hcount : t'.slice (rest.length + 1) = count := by
      simp only [count, slice, h.ring]
    have hfilled : Paired F filled (t'.push ((b :: rest).take count)).2 := h.push _
    rw [Terminal.feedTurns, hcount]
    exact List.rel_append (hfilled.turns hF)
      (Paired.followed (hfilled.runUntilIdle hF) fun idle idle' hidle => ih idle hidle)

/-- The turns of an event are paired one by one. -/
theorem respondTurns (hF : F.KeptByAll) (h : Paired F t t') {event : Event L S}
    {event' : Event L' S'} (hevent : Event.Paired F event event') :
    List.Forall₂ (Paired F) (t.respondTurns event) (t'.respondTurns event') := by
  cases hevent with
  | feed bytes => exact h.feedTurns hF bytes
  | step => exact .cons h .nil
  | settle => exact h.turns hF
  | _ => exact .nil

/-- Paired events lead paired terminals through paired turns. -/
theorem runTurns (hF : F.KeptByAll) (h : Paired F t t') {events : List (Event L S)}
    {events' : List (Event L' S')} (hevents : List.Forall₂ (Event.Paired F) events events') :
    List.Forall₂ (Paired F) (t.runTurns events) (t'.runTurns events') := by
  induction hevents generalizing t t' with
  | nil => exact .nil
  | cons hevent _ ih =>
    exact List.rel_append (h.respondTurns hF hevent)
      (Paired.followed (h.respond hF hevent) fun _ _ hnext => ih hnext)

end Paired

/-! ## One terminal alone -/

section

variable {P : Channel L → Prop} {Q : Array TerminalEvent → Prop}

/-- Every terminal is paired with itself. -/
theorem Paired.alone (t : Terminal L S) (hP : P t.engine.channel) (hQ : Q t.engine.events) :
    Paired (Frame.alone t.engine.settings t.engine.tape P Q) t t :=
  ⟨rfl, Agree.alone t.engine hP hQ⟩

/-- An event is the same as itself, if the link may change as it does. -/
theorem Event.paired_alone {settings : Settings} {tape : S → TapeSource} {event : Event L S}
    (hlink : ∀ change, event = .link change →
      ∀ c, P c → P { c with link := change c.link }) :
    Event.Paired (Frame.alone settings tape P Q) event event := by
  cases event with
  | feed bytes => exact .feed bytes
  | push bytes => exact .push bytes
  | step => exact .step
  | settle => exact .settle
  | key pressed => exact .key pressed
  | surface change => exact .surface fun _ _ h => congrArg change h
  | link change =>
    refine .link fun c c' h => ?_
    obtain ⟨rfl, hP⟩ := h
    exact ⟨rfl, hlink change rfl c hP⟩
  | collect => exact .collect

variable [HostLink L] [Surface S]

/-- What everything keeps of a channel and its events holds after every run, and the
settings and the tape stay. -/
theorem paired_of_run {t t' : Terminal L S} {events : List (Event L S)}
    (hF : (Frame.alone t.engine.settings t.engine.tape P Q).KeptByAll)
    (hlink : ∀ change, .link change ∈ events → ∀ c, P c → P { c with link := change c.link })
    (hP : P t.engine.channel) (hQ : Q t.engine.events) (h : t.run events = .ok t') :
    Paired (Frame.alone t.engine.settings t.engine.tape P Q) t' t' := by
  have hevents : List.Forall₂ (Event.Paired (Frame.alone t.engine.settings t.engine.tape P Q))
      events events := by
    rw [List.forall₂_same]
    rintro event hevent
    refine Event.paired_alone ?_
    rintro change rfl
    exact hlink change hevent
  have hmatch := (Paired.alone t hP hQ).run hF hevents
  rw [h] at hmatch
  obtain ⟨_, hsame, hpaired⟩ := hmatch.of_ok
  cases hsame
  exact hpaired

end

end Terminal

end GraphicsTerminal
