import GraphicsTerminal.Proofs.Graphics.HpglLog
import GraphicsTerminal.Proofs.Terminal.Log

/-!
# Terminals with a capture

A capture stands between the terminal and its surface.  The terminal does not notice it:
beside a terminal without a capture it goes through the same states, its link gets the
same writes, and the surface behind the capture is told and asked the same as the
surface of the other terminal.  This does not depend on what the writer of the capture
does.

Main definitions:

- {lit}`WatchedSurface`: a surface with a list of what it was told and asked.
- {lit}`Terminal.startCapturing`: the terminal of a new session with a capture.
- {lit}`Terminal.uncaptured`, {lit}`Terminal.Event.captured`: a terminal without its
  capture, and an event at a terminal with one.

Main results:

- Theorem {lit}`Terminal.run_captured`: without its capture a terminal ends where it
  would have ended without one.
- Theorem {lit}`Terminal.capture_transparent`: the same in every turn, with the same
  writes, calls and clicks, and with a log that stops for good at the first refused
  write.
-/

namespace GraphicsTerminal

/-! ## Watched surfaces -/

/-- What passes between a terminal and its surface. -/
inductive SurfaceExchange where
  | told (call : SurfaceCall)
  /-- The surface was asked for a click. -/
  | asked (answer : Option Click)
deriving DecidableEq, Repr

/-- The call of an exchange. -/
def SurfaceExchange.call? : SurfaceExchange → Option SurfaceCall
  | told call => some call
  | asked _ => none

/-- A surface with a list of its exchanges, in order. -/
structure WatchedSurface (S : Type) where
  inner : S
  exchanges : List SurfaceExchange

namespace WatchedSurface

variable {S : Type}

instance [Surface S] : Surface (WatchedSurface S) where
  call surface call := ⟨Surface.call surface.inner call, surface.exchanges ++ [.told call]⟩
  takeClick surface :=
    let taken := Surface.takeClick surface.inner
    (taken.1, ⟨taken.2, surface.exchanges ++ [.asked taken.1]⟩)

/-- The calls so far, in order. -/
def calls (surface : WatchedSurface S) : List SurfaceCall :=
  surface.exchanges.filterMap SurfaceExchange.call?

variable [Surface S]

@[simp]
theorem calls_call (surface : WatchedSurface S) (call : SurfaceCall) :
    (Surface.call surface call).calls = surface.calls ++ [call] :=
  List.filterMap_append

@[simp]
theorem calls_takeClick (surface : WatchedSurface S) :
    (Surface.takeClick surface).2.calls = surface.calls :=
  List.filterMap_append.trans (List.append_nil _)

end WatchedSurface

namespace Terminal

variable {L S W : Type}

/-! ## Terminals without their capture -/

/-- The terminal without its capture. -/
def uncaptured (t : Terminal L (HpglCapture S W)) : Terminal L S :=
  ⟨t.ring,
    { settings := t.engine.settings
      parser := t.engine.parser
      screen := t.engine.screen
      channel := t.engine.channel
      surface := t.engine.surface.inner
      graphics := t.engine.graphics
      tape := fun surface => t.engine.tape ⟨surface, none, none⟩
      alphaActive := t.engine.alphaActive
      events := t.engine.events }⟩

/-- The event at a terminal with a capture.  What changes a surface from outside changes
the one behind the capture. -/
def Event.captured : Event L S → Event L (HpglCapture S W)
  | .feed bytes => .feed bytes
  | .push bytes => .push bytes
  | .step => .step
  | .settle => .settle
  | .key pressed => .key pressed
  | .surface change => .surface fun c => { c with inner := change c.inner }
  | .link change => .link change
  | .collect => .collect

/-- The event at watched surroundings; changes from outside are no exchanges. -/
def Event.watched : Event L S → Event (LoggedLink L) (WatchedSurface S)
  | .feed bytes => .feed bytes
  | .push bytes => .push bytes
  | .step => .step
  | .settle => .settle
  | .key pressed => .key pressed
  | .surface change => .surface fun surface => { surface with inner := change surface.inner }
  | .link change => .link fun link => { link with inner := change link.inner }
  | .collect => .collect

/-- The terminal of a new session with a capture. -/
def startCapturing [Surface S] [Writer W] (settings : Settings) (link : L) (surface : S)
    (tape : S → TapeSource) (out : W) : Terminal L (HpglCapture S W) :=
  start settings link (HpglCapture.start surface out) fun c => tape c.inner

/-- The terminal of a new session over watched surroundings, whose lists are empty. -/
def startWatched [Surface S] (settings : Settings) (link : L) (surface : S)
    (tape : S → TapeSource) : Terminal (LoggedLink L) (WatchedSurface S) :=
  start settings ⟨link, []⟩ ⟨surface, []⟩ fun watched => tape watched.inner

/-- The terminal of a new session with a capture in front of a watched surface. -/
def startWatchedCapturing [Surface S] [Writer W] (settings : Settings) (link : L) (surface : S)
    (tape : S → TapeSource) (out : W) :
    Terminal (LoggedLink L) (HpglCapture (WatchedSurface S) W) :=
  startCapturing settings ⟨link, []⟩ ⟨surface, []⟩ (fun watched => tape watched.inner) out

/-- The terminals in the turns of a run, and the one at its end. -/
def moments [HostLink L] [Surface S] (t : Terminal L S) (events : List (Event L S)) :
    List (Terminal L S) :=
  t.runTurns events ++ followed (t.run events) fun t' => [t']

/-! ## A capture beside no capture -/

/-- The frame of an engine beside one with a capture.  The relation says what is known of
the surface and of the writes so far. -/
def captureFrame (settings : Settings) (tape : S → TapeSource)
    (R : S → Except String W → Prop) : Frame L L S (HpglCapture S W) where
  settings := settings
  settings' := settings
  tape := tape
  tape' := fun c => tape c.inner
  channel := Eq
  surface := fun surface c => ∃ written, c = HpglCapture.after surface written ∧ R surface written
  events := Eq
  settings_eq := rfl
  tape_eq := by
    rintro surface c ⟨written, rfl, -⟩
    rw [HpglCapture.inner_after]

/-- Without its capture the other terminal is the same. -/
theorem uncaptured_of_paired {settings : Settings} {tape : S → TapeSource}
    {R : S → Except String W → Prop} {t : Terminal L S} {u : Terminal L (HpglCapture S W)}
    (h : Paired (captureFrame settings tape R) t u) : u.uncaptured = t := by
  obtain ⟨written, hsurface, -⟩ := h.engine.surface
  have hinner : u.engine.surface.inner = t.engine.surface := by
    rw [hsurface, HpglCapture.inner_after]
  have hchannel : t.engine.channel = u.engine.channel := h.engine.channel
  have hevents : t.engine.events = u.engine.events := h.engine.events
  have hsettings : u.engine.settings = t.engine.settings :=
    h.engine.settings'.trans h.engine.settings.symm
  have htape : (fun surface => u.engine.tape ⟨surface, none, none⟩) = t.engine.tape := by
    rw [h.engine.tape, h.engine.tape']
    rfl
  simp only [uncaptured, ← h.ring, ← h.engine.parser, ← h.engine.screen, ← h.engine.graphics,
    ← h.engine.alphaActive, ← hchannel, ← hevents, hinner, hsettings, htape]

/-- A relation that changes of the surface from outside keep leaves the event the
same. -/
theorem Event.captured_paired {settings : Settings} {tape : S → TapeSource}
    {R : S → Except String W → Prop} {event : Event L S}
    (hchange : ∀ change, event = .surface change →
      ∀ surface written, R surface written → R (change surface) written) :
    Event.Paired (captureFrame settings tape R) event event.captured := by
  cases event with
  | feed bytes => exact .feed bytes
  | push bytes => exact .push bytes
  | step => exact .step
  | settle => exact .settle
  | key pressed => exact .key pressed
  | surface change =>
    refine .surface ?_
    rintro surface c ⟨written, rfl, hR⟩
    refine ⟨written, ?_, hchange change rfl surface written hR⟩
    rw [HpglCapture.inner_after, HpglCapture.after_with_inner]
  | link change =>
    refine .link ?_
    rintro c c' rfl
    rfl
  | collect => exact .collect

variable [HostLink L] [Surface S] [Writer W]

/-- What is known of the surface and of the writes is kept by calls and polls. -/
structure KeptByCapture (R : S → Except String W → Prop) : Prop where
  call : ∀ {surface written} (call : SurfaceCall), R surface written →
    R (Surface.call surface call)
      (written >>= fun out => Writer.writeTexts out (Hpgl.record call))
  takeClick : ∀ {surface written}, R surface written → R (Surface.takeClick surface).2 written

section

variable {R : S → Except String W → Prop} {settings : Settings} {tape : S → TapeSource}

/-- Whatever happens to both terminals, they differ in the capture alone. -/
theorem captureFrame_kept (settings : Settings) (tape : S → TapeSource)
    (hR : KeptByCapture R) :
    (captureFrame (L := L) settings tape R).KeptByAll where
  call := by
    rintro surface c call ⟨written, rfl, h⟩
    exact ⟨_, HpglCapture.call_after surface written call, hR.call call h⟩
  bell := fun h => congrArg (Array.push · TerminalEvent.bell) h
  channel := Channel.Kept.eq
  lost := fun h => congrArg Channel.lost h
  takeLoss := fun h => congrArg (fun c : Channel L => c.takeLoss.2) h
  report := fun reason h => congrArg (Array.push · (TerminalEvent.linkLost reason)) h
  queueAck := fun _ _ _ h => congrArg Channel.queueAck h
  flushAck := by
    rintro c c' screen rfl
    exact ⟨rfl, rfl⟩
  takeClick := by
    rintro surface c ⟨written, rfl, h⟩
    rw [HpglCapture.takeClick_after]
    exact ⟨rfl, written, rfl, hR.takeClick h⟩
  collect := rfl

/-- A new terminal beside one with a capture. -/
theorem startCapturing_paired (settings : Settings) (tape : S → TapeSource)
    (hR : KeptByCapture R) (link : L) (surface : S) (out : W)
    (hstart : R surface (Writer.writeTexts out [Hpgl.header])) :
    Paired (captureFrame settings tape R) (start settings link surface tape)
      (startCapturing settings link surface tape out) where
  ring := rfl
  engine :=
    { settings := rfl
      settings' := rfl
      tape := rfl
      tape' := rfl
      parser := rfl
      screen := rfl
      graphics := rfl
      alphaActive := rfl
      channel := rfl
      surface := (captureFrame_kept settings tape hR).call _
        ⟨_, HpglCapture.start_eq surface out, hstart⟩
      events := rfl }

variable {t : Terminal L S} {u : Terminal L (HpglCapture S W)} {events : List (Event L S)}

/-- Terminals with and without a capture go through paired moments. -/
theorem moments_paired (events : List (Event L S)) (hR : KeptByCapture R)
    (h : Paired (captureFrame settings tape R) t u)
    (hevents : ∀ change, .surface change ∈ events →
      ∀ surface written, R surface written → R (change surface) written) :
    List.Forall₂ (Paired (captureFrame settings tape R)) (t.moments events)
        (u.moments (events.map Event.captured)) ∧
      Matches (Paired (captureFrame settings tape R)) (t.run events)
        (u.run (events.map Event.captured)) := by
  have hF := captureFrame_kept (L := L) settings tape hR
  have hpaired : List.Forall₂ (Event.Paired (captureFrame settings tape R)) events
      (events.map Event.captured) := by
    rw [List.forall₂_map_right_iff, List.forall₂_same]
    intro event hevent
    refine Event.captured_paired ?_
    rintro change rfl
    exact hevents change hevent
  have hrun := h.run hF hpaired
  exact ⟨List.rel_append (h.runTurns hF hpaired)
    (Paired.followed hrun fun _ _ hlast => .cons hlast .nil), hrun⟩

end

/-! ## Captures that have stopped -/

omit [HostLink L] in
theorem keptByCapture_true : KeptByCapture fun (_ : S) (_ : Except String W) => True where
  call := fun _ _ => trivial
  takeClick := fun _ => trivial

omit [HostLink L] in
/-- A log that has stopped stays as it is. -/
theorem keptByCapture_error (reason : String) :
    KeptByCapture fun (_ : S) (written : Except String W) => written = .error reason where
  call := by
    rintro surface written call rfl
    rfl
  takeClick := fun h => h

omit [HostLink L] in
/-- The log holds the records of the calls that the surface was told. -/
theorem keptByCapture_writeTexts (out : W) :
    KeptByCapture fun (surface : WatchedSurface S) written =>
      written = Writer.writeTexts out (Hpgl.header :: surface.calls.flatMap Hpgl.record) where
  call := by
    rintro surface written call rfl
    rw [WatchedSurface.calls_call, List.flatMap_append, List.flatMap_singleton,
      ← List.cons_append, Writer.writeTexts_append]
  takeClick := by
    rintro surface written rfl
    rw [WatchedSurface.calls_takeClick]

/-! ## Transparency -/

section

variable {R : S → Except String W → Prop} {settings : Settings} {tape : S → TapeSource}
  {t : Terminal L S} {u : Terminal L (HpglCapture S W)} {events : List (Event L S)}

/-- In every moment the terminal with a capture is paired with itself without it. -/
theorem uncaptured_paired (hR : KeptByCapture R)
    (h : Paired (captureFrame settings tape R) t u)
    (hevents : ∀ change, .surface change ∈ events →
      ∀ surface written, R surface written → R (change surface) written) :
    ∀ v ∈ u.moments (events.map Event.captured),
      Paired (captureFrame settings tape R) v.uncaptured v := by
  have hmoments := (moments_paired events hR h hevents).1
  have hself : List.Forall₂ (fun v w => Paired (captureFrame settings tape R) v.uncaptured v ∧
      Paired (captureFrame settings tape R) w v)
      (u.moments (events.map Event.captured)) (t.moments events) := by
    refine hmoments.flip.imp fun v w hpaired => ⟨?_, hpaired⟩
    rw [uncaptured_of_paired hpaired]
    exact hpaired
  exact ((List.forall₂_and_left _ _).1 hself).1

omit [HostLink L] [Surface S] [Writer W] in
/-- Once a capture has stopped, no later moment knows of another write. -/
theorem Paired.stopped (h : Paired (captureFrame settings tape R) t u) {reason : String}
    (herror : u.engine.surface.error = some reason) :
    Paired (captureFrame settings tape fun _ written => written = .error reason) t u := by
  obtain ⟨written, hsurface, -⟩ := h.engine.surface
  have hwritten : written = .error reason := by
    rw [hsurface] at herror
    exact HpglCapture.eq_error_of_error_after herror
  have hagree := h.engine
  exact ⟨h.ring,
    { settings := hagree.settings
      settings' := hagree.settings'
      tape := hagree.tape
      tape' := hagree.tape'
      parser := hagree.parser
      screen := hagree.screen
      graphics := hagree.graphics
      alphaActive := hagree.alphaActive
      channel := hagree.channel
      surface := ⟨written, hsurface, hwritten⟩
      events := hagree.events }⟩

/-- A capture that has stopped keeps its error, and gives no writer back. -/
theorem Paired.run_stopped {reason : String}
    (h : Paired (captureFrame settings tape fun _ written => written = .error reason) t u)
    {u' : Terminal L (HpglCapture S W)} (hrun : u.run (events.map Event.captured) = .ok u') :
    u'.engine.surface.error = some reason ∧ u'.engine.surface.out = none ∧
      u'.engine.surface.finish.2 = none := by
  have hmatch := (moments_paired events (keptByCapture_error reason) h
    fun _ _ _ _ hR => hR).2
  rw [hrun] at hmatch
  obtain ⟨t', -, hpaired⟩ := hmatch.ok_of_right
  obtain ⟨written, hsurface, rfl⟩ := hpaired.engine.surface
  rw [hsurface]
  exact ⟨rfl, rfl, rfl⟩

end

section

variable (settings : Settings) (link : L) (surface : S) (tape : S → TapeSource) (out : W)
  (events : List (Event L S))

/-- Without its capture a terminal ends where it would have ended without one, or is
refused where it would have been refused. -/
theorem run_captured :
    ((startCapturing settings link surface tape out).run (events.map Event.captured)).map
      uncaptured = (start settings link surface tape).run events := by
  have hstart := startCapturing_paired settings tape keptByCapture_true link surface out trivial
  have hmatch := (moments_paired events keptByCapture_true hstart
    fun _ _ _ _ _ => trivial).2
  have hsame := hmatch.map_eq (f := id) fun _ _ h => (uncaptured_of_paired h).symm
  rw [← hsame, Except.map_id]
  rfl

/-- Without its capture a terminal goes through the moments that it would have gone
through without one. -/
theorem moments_captured :
    ((startCapturing settings link surface tape out).moments (events.map Event.captured)).map
      uncaptured = (start settings link surface tape).moments events := by
  have hstart := startCapturing_paired settings tape keptByCapture_true link surface out trivial
  have hmoments := (moments_paired events keptByCapture_true hstart
    fun _ _ _ _ _ => trivial).1
  have hsame := hmoments.imp fun _ _ h => (uncaptured_of_paired h).symm
  rw [← List.forall₂_map_right_iff (f := uncaptured), List.forall₂_eq_eq_eq] at hsame
  exact hsame.symm

/-- A capture is transparent, whatever its writer does.  Without it the terminal goes
through the same states, in every turn and at the end.  The same is true over a link and
a surface that keep a list of what they were told and asked, so the writes, the calls and
the clicks are the same.  The log is what writing the header and the records of the calls
comes to, up to the first write that is refused; then its reason is kept in all later
runs, nothing is written any more, and no writer is given back. -/
theorem capture_transparent :
    ((startCapturing settings link surface tape out).run (events.map Event.captured)).map
        uncaptured = (start settings link surface tape).run events ∧
    ((startCapturing settings link surface tape out).moments (events.map Event.captured)).map
        uncaptured = (start settings link surface tape).moments events ∧
    ((startWatchedCapturing settings link surface tape out).moments
        ((events.map Event.watched).map Event.captured)).map uncaptured =
      (startWatched settings link surface tape).moments (events.map Event.watched) ∧
    ∀ u ∈ (startWatchedCapturing settings link surface tape out).moments
        ((events.map Event.watched).map Event.captured),
      u.engine.surface = HpglCapture.after u.engine.surface.inner (Writer.writeTexts out
        (Hpgl.header :: u.engine.surface.inner.calls.flatMap Hpgl.record)) ∧
      ∀ reason, u.engine.surface.error = some reason →
        ∀ (later : List (Event L S)) (u'),
          u.run ((later.map Event.watched).map Event.captured) = .ok u' →
          u'.engine.surface.error = some reason ∧ u'.engine.surface.out = none ∧
            u'.engine.surface.finish.2 = none := by
  refine ⟨run_captured settings link surface tape out events,
    moments_captured settings link surface tape out events, moments_captured _ _ _ _ _ _, ?_⟩
  intro u hu
  have hkept := keptByCapture_writeTexts (S := S) out
  have hstart := startCapturing_paired settings
    (fun watched : WatchedSurface S => tape watched.inner) hkept
    (LoggedLink.mk link []) (WatchedSurface.mk surface []) out rfl
  have hchanges : ∀ change, .surface change ∈ events.map Event.watched →
      ∀ (watched : WatchedSurface S) (written : Except String W),
        written = Writer.writeTexts out (Hpgl.header :: watched.calls.flatMap Hpgl.record) →
        written = Writer.writeTexts out
          (Hpgl.header :: (change watched).calls.flatMap Hpgl.record) := by
    intro change hmem watched written hwritten
    obtain ⟨event, -, hevent⟩ := List.mem_map.1 hmem
    cases event with
    | surface changed =>
      cases hevent
      exact hwritten
    | _ => cases hevent
  have hpaired := uncaptured_paired hkept hstart hchanges u hu
  refine ⟨?_, fun reason herror later u' hrun => (hpaired.stopped herror).run_stopped hrun⟩
  obtain ⟨written, hsurface, rfl⟩ := hpaired.engine.surface
  exact hsurface

end

/-- A writer that has no room for the header stops the capture at once and for good. -/
theorem capture_transparent_refused :
    ((startWatchedCapturing Settings.standard RecordingLink.unlimited RecordingSurface.empty
        (fun _ => .missing) (MemoryWriter.mk #[] (some 4) false)).run
        (([Event.key (.char 0x41), .collect].map Event.watched).map Event.captured)).map
      (fun u => (u.engine.surface.error, u.engine.surface.finish.2)) =
    .ok (some "disk full", none) := by
  have hmoment : startWatchedCapturing Settings.standard RecordingLink.unlimited
      RecordingSurface.empty (fun _ => .missing) (MemoryWriter.mk #[] (some 4) false) ∈
      (startWatchedCapturing Settings.standard RecordingLink.unlimited RecordingSurface.empty
        (fun _ => .missing) (MemoryWriter.mk #[] (some 4) false)).moments
        ((([] : List (Event RecordingLink RecordingSurface)).map Event.watched).map
          Event.captured) := .head []
  obtain ⟨-, -, -, hmoments⟩ := capture_transparent Settings.standard RecordingLink.unlimited
    RecordingSurface.empty (fun _ => .missing) (MemoryWriter.mk #[] (some 4) false) []
  obtain ⟨herror, -, hfinish⟩ := (hmoments _ hmoment).2 "disk full" rfl
    [.key (.char 0x41), .collect] _ rfl
  exact congrArg Except.ok (Prod.ext herror hfinish)

end Terminal

end GraphicsTerminal
