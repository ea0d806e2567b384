import GraphicsTerminal.Proofs.Engine.Channels

/-!
# Engines that agree

Two engines over different links and surfaces agree when they are in the same
state, but for the link, the surface, the waiting events and the size of the ring.
What is known of these is the frame of the agreement.  Whatever happens to both
engines keeps the agreement, as long as writing, drawing and ringing the bell keep
the frame.

One engine agrees with itself, so a frame that speaks of one side only gives what
an engine keeps.

Main definitions:

- {lit}`Matches`: two results that are refused alike, or both accepted and related.
- {lit}`Frame`: what is known of the surroundings of two engines.
- {lit}`Agree`: two engines in the same state inside a frame.

Main results:

- Theorem {lit}`Agree.apply_of_quiet`: an action that does not use the channel keeps
  every agreement, whatever the channels are.
- Theorem {lit}`Agree.apply`: every action keeps an agreement that writing keeps.
- Theorems {lit}`Agree.receive`, {lit}`Agree.pollClick`, {lit}`Agree.idle` and
  {lit}`Agree.press`: so do bytes, clicks, idle moments and keys.
-/

namespace GraphicsTerminal

/-! ## Related results -/

/-- Two results that are refused for the same reason, or both accepted and
related. -/
inductive Matches {α β : Type} (R : α → β → Prop) : Except Fault α → Except Fault β → Prop
  | error (fault : Fault) : Matches R (.error fault) (.error fault)
  | ok {a : α} {b : β} (h : R a b) : Matches R (.ok a) (.ok b)

namespace Matches

variable {α β γ δ : Type} {R : α → β → Prop} {Q : γ → δ → Prop}

/-- What matches an accepted result is accepted, and related to it. -/
theorem of_ok {a : α} {y : Except Fault β} (h : Matches R (.ok a) y) :
    ∃ b, y = .ok b ∧ R a b := by
  cases h with
  | ok h => exact ⟨_, rfl, h⟩

/-- What an accepted result matches was accepted, too. -/
theorem ok_of_right {x : Except Fault α} {b : β} (h : Matches R x (.ok b)) :
    ∃ a, x = .ok a ∧ R a b := by
  cases h with
  | ok h => exact ⟨_, rfl, h⟩

/-- What matches a refusal is the same refusal. -/
theorem of_error {fault : Fault} {y : Except Fault β} (h : Matches R (.error fault) y) :
    y = .error fault := by
  cases h with
  | error => rfl

/-- What a refusal matches is the same refusal. -/
theorem error_of_right {x : Except Fault α} {fault : Fault} (h : Matches R x (.error fault)) :
    x = .error fault := by
  cases h with
  | error => rfl

/-- Related results may be mapped to related ones. -/
theorem map {x : Except Fault α} {y : Except Fault β} {f : α → γ} {g : β → δ}
    (h : Matches R x y) (hmap : ∀ a b, R a b → Q (f a) (g b)) :
    Matches Q (x.map f) (y.map g) := by
  cases h with
  | error fault => exact .error fault
  | ok h => exact .ok (hmap _ _ h)

/-- One side may be mapped, if the relation allows for it. -/
theorem map_left {Q : γ → β → Prop} {x : Except Fault α} {y : Except Fault β} {f : α → γ}
    (h : Matches R x y) (hmap : ∀ a b, R a b → Q (f a) b) : Matches Q (x.map f) y := by
  cases h with
  | error fault => exact .error fault
  | ok h => exact .ok (hmap _ _ h)

/-- Matching computations go on with matching ones. -/
theorem bind {x : Except Fault α} {y : Except Fault β} {f : α → Except Fault γ}
    {g : β → Except Fault δ} (h : Matches R x y)
    (hbind : ∀ a b, R a b → Matches Q (f a) (g b)) : Matches Q (x >>= f) (y >>= g) := by
  cases h with
  | error fault => exact .error fault
  | ok h => exact hbind _ _ h

/-- Results that match by a relation match by every weaker one. -/
theorem mono {R' : α → β → Prop} {x : Except Fault α} {y : Except Fault β}
    (h : Matches R x y) (himp : ∀ a b, R a b → R' a b) : Matches R' x y := by
  cases h with
  | error fault => exact .error fault
  | ok h => exact .ok (himp _ _ h)

/-- The second of two related results is the one that was computed. -/
theorem with_right {x : Except Fault α} {y : Except Fault β} (h : Matches R x y) :
    Matches (fun a b => R a b ∧ y = .ok b) x y := by
  cases h with
  | error fault => exact .error fault
  | ok h => exact .ok ⟨h, rfl⟩

/-- Two results that are related to the same one. -/
theorem join {R' : γ → β → Prop} {x : Except Fault α} {z : Except Fault γ} {y : Except Fault β}
    (h : Matches R x y) (h' : Matches R' z y) : Matches (fun a c => ∃ b, R a b ∧ R' c b) x z := by
  cases h with
  | error fault =>
    cases h' with
    | error => exact .error fault
  | ok h =>
    cases h' with
    | ok h' => exact .ok ⟨_, h, h'⟩

/-- Related results that show the same are the same to a viewer. -/
theorem map_eq {V : Type} {x : Except Fault α} {y : Except Fault β} {f : α → V} {g : β → V}
    (h : Matches R x y) (hview : ∀ a b, R a b → f a = g b) : x.map f = y.map g := by
  cases h with
  | error fault => rfl
  | ok h => exact congrArg Except.ok (hview _ _ h)

end Matches

/-! ## Frames -/

/-- What is known of the surroundings of two engines. -/
structure Frame (L L' S S' : Type) where
  settings : Settings
  settings' : Settings
  tape : S → TapeSource
  tape' : S' → TapeSource
  channel : Channel L → Channel L' → Prop
  surface : S → S' → Prop
  events : Array TerminalEvent → Array TerminalEvent → Prop
  settings_eq : settings' = { settings with ringCapacity := settings'.ringCapacity }
  tape_eq : ∀ {s s'}, surface s s' → tape s = tape' s'

namespace Frame

/-- The frame of one engine beside itself. -/
def alone {L S : Type} (settings : Settings) (tape : S → TapeSource) (P : Channel L → Prop)
    (Q : Array TerminalEvent → Prop) : Frame L L S S where
  settings := settings
  settings' := settings
  tape := tape
  tape' := tape
  channel := fun c c' => c = c' ∧ P c
  surface := Eq
  events := fun events events' => events = events' ∧ Q events
  settings_eq := rfl
  tape_eq := fun h => congrArg tape h

section

variable {L L' S S' : Type} [Surface S] [Surface S']

/-- Drawing and ringing the bell keep the frame. -/
structure KeptByDrawing (F : Frame L L' S S') : Prop where
  call : ∀ {s s'} (call : SurfaceCall), F.surface s s' →
    F.surface (Surface.call s call) (Surface.call s' call)
  bell : ∀ {events events'}, F.events events events' →
    F.events (events.push .bell) (events'.push .bell)

variable [HostLink L] [HostLink L']

/-- Writing keeps the frame as well. -/
structure KeptByWriting (F : Frame L L' S S') : Prop extends F.KeptByDrawing where
  channel : Channel.Kept F.channel

/-- Reporting a loss keeps the frame as well. -/
structure KeptByReports (F : Frame L L' S S') : Prop extends F.KeptByWriting where
  lost : ∀ {c c'}, F.channel c c' → c.lost = c'.lost
  takeLoss : ∀ {c c'}, F.channel c c' → F.channel c.takeLoss.2 c'.takeLoss.2
  report : ∀ {events events'} (reason : String), F.events events events' →
    F.events (events.push (.linkLost reason)) (events'.push (.linkLost reason))

/-- Acknowledgements and clicks keep the frame as well as writing does. -/
structure KeptByAnswers (F : Frame L L' S S') : Prop extends F.KeptByWriting where
  queueAck : F.settings.enqAck = true → ∀ {c c'}, F.channel c c' →
    F.channel c.queueAck c'.queueAck
  flushAck : ∀ {c c'} (screen : Screen), F.channel c c' →
    F.channel (c.flushAck screen).1 (c'.flushAck screen).1 ∧
      (c.flushAck screen).2 = (c'.flushAck screen).2
  takeClick : ∀ {s s'}, F.surface s s' →
    (Surface.takeClick s).1 = (Surface.takeClick s').1 ∧
      F.surface (Surface.takeClick s).2 (Surface.takeClick s').2

/-- Everything keeps the frame, the collection of events included. -/
structure KeptByAll (F : Frame L L' S S') : Prop extends F.KeptByReports, F.KeptByAnswers where
  collect : F.events #[] #[]

end

section

variable {L S : Type} [HostLink L] [Surface S] {settings : Settings} {tape : S → TapeSource}
  {P : Channel L → Prop}

/-- What acknowledgements and clicks keep of one engine. -/
theorem alone_keptByAnswers {Q : Array TerminalEvent → Prop}
    (hkept : Channel.Kept fun c c' => c = c' ∧ P c)
    (hqueue : settings.enqAck = true → ∀ c, P c → P c.queueAck)
    (hclear : ∀ c, P c → P { c with ackPending := false })
    (hbell : ∀ events, Q events → Q (events.push .bell)) :
    (alone settings tape P Q).KeptByAnswers where
  call := fun call h => congrArg (Surface.call · call) h
  bell := fun {events events'} h => by
    obtain ⟨rfl, hevents⟩ := h
    exact ⟨rfl, hbell events hevents⟩
  channel := hkept
  queueAck := fun hack c c' h => ⟨congrArg Channel.queueAck h.1, hqueue hack c h.2⟩
  flushAck := fun {c c'} screen h => by
    obtain ⟨rfl, hchannel⟩ := h
    exact hkept.flushAck screen ⟨rfl, hchannel⟩ ⟨rfl, hclear c hchannel⟩ rfl
  takeClick := fun h => by
    cases h
    exact ⟨rfl, rfl⟩

/-- What every event keeps of one channel. -/
theorem alone_keptByAll (hkept : Channel.Kept fun c c' => c = c' ∧ P c)
    (hqueue : settings.enqAck = true → ∀ c, P c → P c.queueAck)
    (hclear : ∀ c, P c → P { c with ackPending := false })
    (htake : ∀ c, P c → P { c with lost := none }) :
    (alone settings tape P fun _ => True).KeptByAll :=
  { alone_keptByAnswers hkept hqueue hclear fun _ _ => trivial with
    lost := fun h => congrArg Channel.lost h.1
    takeLoss := fun {c c'} h => by
      obtain ⟨rfl, hchannel⟩ := h
      exact ⟨rfl, htake c hchannel⟩
    report := fun reason h =>
      ⟨congrArg (Array.push · (TerminalEvent.linkLost reason)) h.1, trivial⟩
    collect := ⟨rfl, trivial⟩ }

end

end Frame

/-! ## Agreement -/

/-- Two engines in the same state inside a frame. -/
structure Agree {L L' S S' : Type} (F : Frame L L' S S') (e : Engine L S)
    (e' : Engine L' S') : Prop where
  settings : e.settings = F.settings
  settings' : e'.settings = F.settings'
  tape : e.tape = F.tape
  tape' : e'.tape = F.tape'
  parser : e.parser = e'.parser
  screen : e.screen = e'.screen
  graphics : e.graphics = e'.graphics
  alphaActive : e.alphaActive = e'.alphaActive
  channel : F.channel e.channel e'.channel
  surface : F.surface e.surface e'.surface
  events : F.events e.events e'.events

namespace Agree

variable {L L' S S' : Type} {F : Frame L L' S S'} {e : Engine L S} {e' : Engine L' S'}

/-- The engines agree on all settings but the size of the ring. -/
theorem setting (h : Agree F e e') {α : Type} (f : Settings → α)
    (hf : ∀ (s : Settings) (n : Nat), f { s with ringCapacity := n } = f s) :
    f e.settings = f e'.settings := by
  rw [h.settings, h.settings', F.settings_eq]
  exact (hf _ _).symm

/-- Engines that agree read the same tape image. -/
theorem tape_eq (h : Agree F e e') : e.tape e.surface = e'.tape e'.surface := by
  rw [h.tape, h.tape']
  exact F.tape_eq h.surface

/-- Every engine agrees with itself. -/
theorem alone (e : Engine L S) {P : Channel L → Prop} {Q : Array TerminalEvent → Prop}
    (hP : P e.channel) (hQ : Q e.events) : Agree (Frame.alone e.settings e.tape P Q) e e where
  settings := rfl
  settings' := rfl
  tape := rfl
  tape' := rfl
  parser := rfl
  screen := rfl
  graphics := rfl
  alphaActive := rfl
  channel := ⟨rfl, hP⟩
  surface := rfl
  events := ⟨rfl, hQ⟩

/-! ### What an engine does besides using the channel -/

/-- Both screens may be changed alike. -/
theorem modifyScreen (h : Agree F e e') (f : Screen → Screen) :
    Agree F (e.modifyScreen f) (e'.modifyScreen f) :=
  { h with screen := congrArg f h.screen }

/-- Both graphics states may be changed alike. -/
theorem modifyGraphics (h : Agree F e e') (f : GraphicsState → GraphicsState) :
    Agree F { e with graphics := f e.graphics } { e' with graphics := f e'.graphics } :=
  { h with graphics := congrArg f h.graphics }

/-- A key that changes the screen alone has the same outcome on both engines. -/
theorem pressScreen (h : Agree F e e') {outcome : KeyOutcome} {f : Screen → Screen} :
    ((outcome, e.modifyScreen f) : KeyOutcome × Engine L S).1 =
        ((outcome, e'.modifyScreen f) : KeyOutcome × Engine L' S').1 ∧
      Agree F ((outcome, e.modifyScreen f) : KeyOutcome × Engine L S).2
        ((outcome, e'.modifyScreen f) : KeyOutcome × Engine L' S').2 :=
  ⟨rfl, h.modifyScreen f⟩

/-- Both parsers may be replaced by equal ones. -/
theorem withParser (h : Agree F e e') {p p' : Parser} (hparser : p = p') :
    Agree F { e with parser := p } { e' with parser := p' } :=
  { h with parser := hparser }

/-- The text screen may be switched in both engines. -/
theorem withAlphaActive (h : Agree F e e') (on : Bool) :
    Agree F { e with alphaActive := on } { e' with alphaActive := on } :=
  { h with alphaActive := rfl }

/-- Steps that keep the agreement keep it in any number. -/
theorem foldl {α : Type} {f : Engine L S → α → Engine L S} {f' : Engine L' S' → α → Engine L' S'}
    (hf : ∀ {e : Engine L S} {e' : Engine L' S'} (a : α), Agree F e e' →
      Agree F (f e a) (f' e' a)) (as : List α) (h : Agree F e e') :
    Agree F (as.foldl f e) (as.foldl f' e') := by
  induction as generalizing e e' with
  | nil => exact h
  | cons a as ih => exact ih (hf a h)

/-- Both engines print a data byte alike. -/
theorem putData (h : Agree F e e') (b : UInt8) : Agree F (e.putData b) (e'.putData b) := by
  unfold Engine.putData
  rw [h.alphaActive, h.setting Settings.invertHighBytes fun _ _ => rfl]
  split
  · split
    · exact h.modifyScreen _
    · exact h.modifyScreen _
  · exact h

/-- Both engines treat their key labels alike. -/
theorem applyKeyLabels (h : Agree F e e') (command : KeyLabelCommand) :
    Agree F (e.applyKeyLabels command) (e'.applyKeyLabels command) := by
  unfold Engine.applyKeyLabels
  cases command with
  | inert code => exact h
  | _ => exact h.modifyScreen _

section Drawing

variable [Surface S] [Surface S']

/-- A call goes to both surfaces, if the frame allows for calls. -/
theorem tell (hF : F.KeptByDrawing) (h : Agree F e e') (call : SurfaceCall) :
    Agree F (e.tell call) (e'.tell call) :=
  { h with surface := hF.call call h.surface }

/-- Both engines ring the bell. -/
theorem bell (hF : F.KeptByDrawing) (h : Agree F e e') : Agree F e.bell e'.bell := by
  unfold Engine.bell
  rw [h.setting Settings.sound fun _ _ => rfl]
  split
  · exact { h with events := hF.bell h.events }
  · exact h

/-- Both engines are reset alike, as far as the frame allows for drawing. -/
theorem reset (hF : F.KeptByDrawing) (h : Agree F e e') (hard : Bool) :
    Agree F (e.reset hard) (e'.reset hard) := by
  have htold := ((h.bell hF).modifyScreen (·.reset hard)).tell hF (.resetDefaults hard)
  exact { htold with graphics := congrArg GraphicsState.reset htold.graphics, alphaActive := rfl }

/-- Both engines place the graphics cursor. -/
theorem placeGraphicsCursor (hF : F.KeptByDrawing) (h : Agree F e e') (point : Point) :
    Agree F (e.placeGraphicsCursor point) (e'.placeGraphicsCursor point) :=
  (h.modifyGraphics fun g => { g with cursor := point }).tell hF _

/-- Both engines obey a display operation alike. -/
theorem applyDisplay (hF : F.KeptByDrawing) (h : Agree F e e') (op : DisplayOp) :
    Agree F (e.applyDisplay op) (e'.applyDisplay op) := by
  unfold Engine.applyDisplay
  cases op with
  | clear color => exact (h.tell hF _).tell hF _
  | fill color => exact h.tell hF _
  | graphicsVisible on =>
    exact (h.modifyGraphics fun g => { g with visible := on }).tell hF _
  | alphaVisible on => exact h.withAlphaActive on
  | graphicsCursorVisible on =>
    exact (h.modifyGraphics fun g => { g with cursorVisible := on }).tell hF _
  | setGraphicsCursor point => exact h.placeGraphicsCursor hF point
  | moveGraphicsCursor delta =>
    simp only [h.graphics]
    exact h.placeGraphicsCursor hF _
  | alphaCursorVisible on => exact h.modifyScreen _
  | enterGraphicsText => exact h
  | screenSize width height =>
    simp only [h.graphics]
    exact { h with graphics := rfl, surface := hF.call _ h.surface }
  | skip => exact h
  | unknown code => exact h

/-- Both engines obey a mode operation alike. -/
theorem applyMode (hF : F.KeptByDrawing) (h : Agree F e e') (op : ModeOp) :
    Agree F (e.applyMode op) (e'.applyMode op) := by
  cases op with
  | graphicsDefaults => exact (h.modifyGraphics GraphicsState.reset).tell hF _
  | skip => exact h
  | unknown code => exact h
  | _ => exact h.tell hF _

/-- Both engines draw a plot body alike. -/
theorem drawPlot (hF : F.KeptByDrawing) (h : Agree F e e') (body : Payload) :
    Agree F (e.drawPlot body) (e'.drawPlot body) :=
  foldl (fun call h => (h.modifyGraphics (·.record call)).tell hF call) _ h

/-- A function key has the same outcome on both engines. -/
theorem pressFunction (hF : F.KeptByDrawing) (h : Agree F e e') (number : Nat)
    (shift : Bool) :
    (e.pressFunction number shift).1 = (e'.pressFunction number shift).1 ∧
      Agree F (e.pressFunction number shift).2 (e'.pressFunction number shift).2 := by
  unfold Engine.pressFunction
  rw [← h.screen, ← h.graphics]
  split
  · exact ⟨rfl, h⟩
  split
  · exact h.pressScreen
  split
  · exact ⟨rfl, { h with screen := rfl, graphics := rfl, surface := hF.call _ h.surface }⟩
  · exact ⟨rfl, h⟩

end Drawing

/-! ### Actions that do not use the channel -/

section Quiet

variable [HostLink L] [HostLink L']

/-- A control sequence that sends nothing has the same effect on both engines. -/
theorem applyControl_of_quiet (h : Agree F e e') {command : ControlSequence}
    (hquiet : e.traffic (.control command) = .quiet) :
    Matches (Agree F) (e.applyControl command) (e'.applyControl command) := by
  unfold Engine.applyControl
  cases command with
  | cursorReport => cases hquiet
  | insertChars count =>
    simp only [h.screen]
    cases e'.screen.insertChars count.toNat with
    | error fault => exact .error fault
    | ok screen => exact .ok { h with screen := rfl }
  | _ => exact .ok (h.modifyScreen _)

/-- A cursor key that sends nothing has the same effect on both engines. -/
theorem pressCursor_of_quiet (h : Agree F e e') {key : CursorKey} (rows cols : Int)
    (hquiet : e.cursorTraffic key = .quiet) :
    Agree F (e.pressCursor key rows cols) (e'.pressCursor key rows cols) := by
  have hlocal : e.settings.localKeys = true := by
    unfold Engine.cursorTraffic at hquiet
    split at hquiet
    · assumption
    · cases hquiet
  unfold Engine.pressCursor
  rw [← h.setting Settings.localKeys fun _ _ => rfl, if_pos hlocal, if_pos hlocal]
  exact h.modifyScreen _

variable [Surface S] [Surface S']

/-- A command of one byte that sends nothing has the same effect on both engines. -/
theorem applySingle_of_quiet (hF : F.KeptByDrawing) (h : Agree F e e')
    {command : SingleCommand} (hquiet : e.singleTraffic command = .quiet) :
    Agree F (e.applySingle command) (e'.applySingle command) := by
  unfold Engine.applySingle
  cases command with
  | cursorSense => cases hquiet
  | sendLine => cases hquiet
  | fileTransfer => cases hquiet
  | primaryStatus => cases hquiet
  | secondaryStatus => cases hquiet
  | hardReset => exact h.reset hF true
  | softReset => exact h.reset hF false
  | inert code => exact h
  | _ => exact h.modifyScreen _

/-- A query that is not answered at once has the same effect on both engines. -/
theorem applyStatus_of_quiet (hF : F.KeptByDrawing) (h : Agree F e e') {query : Option Int}
    (hquiet : e.statusTraffic query = .quiet) :
    Agree F (e.applyStatus query) (e'.applyStatus query) := by
  revert hquiet
  fun_cases Engine.statusTraffic e query with
  | case4 =>
    intro _
    exact (h.tell hF .clickWait).withParser (congrArg Parser.awaitClick h.parser)
  | _ =>
    intro hquiet
    cases hquiet

/-- An action that does not use the channel keeps an agreement, whatever is known
of the channels. -/
theorem apply_of_quiet (hF : F.KeptByDrawing) (h : Agree F e e') {action : Action}
    (hquiet : e.traffic action = .quiet) :
    Matches (Agree F) (e.apply action) (e'.apply action) := by
  cases action with
  | handshake => cases hquiet
  | control command => exact h.applyControl_of_quiet hquiet
  | data b => exact .ok (h.putData b)
  | bell => exact .ok (h.bell hF)
  | single command => exact .ok (h.applySingle_of_quiet hF hquiet)
  | display ops => exact .ok (foldl (fun op h => h.applyDisplay hF op) ops h)
  | drawing ops => exact .ok (foldl (fun op h => h.applyMode hF op) ops h)
  | textPen pen => exact .ok (h.tell hF _)
  | plot body => exact .ok (h.drawPlot hF body)
  | status query => exact .ok (h.applyStatus_of_quiet hF hquiet)
  | keyLabels command => exact .ok (h.applyKeyLabels command)
  | graphicsText text => exact .ok (h.tell hF _)
  | inert payload => exact .ok h
  | unrecognized payload => exact .ok h
  | _ => exact .ok (h.modifyScreen _)

/-- A byte that asks for no use of the channel keeps an agreement, whatever is known
of the channels. -/
theorem interpret_of_quiet (hF : F.KeptByDrawing) (h : Agree F e e') {b : UInt8}
    (hquiet : e.byteTraffic b = .quiet) :
    Matches (Agree F) (e.interpret b) (e'.interpret b) := by
  have hadvanced : Agree F { e with parser := (e.parser.advance b).2 }
      { e' with parser := (e.parser.advance b).2 } :=
    h.withParser rfl
  unfold Engine.byteTraffic at hquiet
  simp only [Engine.interpret, ← h.parser]
  cases haction : (e.parser.advance b).1 with
  | none => exact .ok hadvanced
  | some action =>
    rw [haction] at hquiet
    exact hadvanced.apply_of_quiet hF hquiet

/-- A key that does not use the channel keeps an agreement, whatever is known of the
channels. -/
theorem pressUnlocked_of_quiet (hF : F.KeptByDrawing) (h : Agree F e e') {key : Key}
    (hquiet : e.keyTraffic key = .quiet) :
    (e.pressUnlocked key).1 = (e'.pressUnlocked key).1 ∧
      Agree F (e.pressUnlocked key).2 (e'.pressUnlocked key).2 := by
  have hlocal := h.setting Settings.localKeys fun _ _ => rfl
  cases key with
  | up ctrl =>
    cases ctrl with
    | true => exact h.pressScreen
    | false => exact ⟨rfl, h.pressCursor_of_quiet (-1) 0 hquiet⟩
  | down ctrl =>
    cases ctrl with
    | true => exact h.pressScreen
    | false => exact ⟨rfl, h.pressCursor_of_quiet 1 0 hquiet⟩
  | left => exact ⟨rfl, h.pressCursor_of_quiet 0 (-1) hquiet⟩
  | right => exact ⟨rfl, h.pressCursor_of_quiet 0 1 hquiet⟩
  | insert ctrl =>
    cases ctrl with
    | true => exact h.pressScreen
    | false =>
      simp only [Engine.pressUnlocked, hlocal]
      split
      · exact h.pressScreen
      · exact ⟨rfl, h⟩
  | delete ctrl =>
    cases ctrl with
    | true => exact h.pressScreen
    | false =>
      simp only [Engine.pressUnlocked, hlocal]
      split
      · exact h.pressScreen
      · exact ⟨rfl, h⟩
  | function number shift => exact h.pressFunction hF number shift
  | enter => cases hquiet
  | char b =>
    simp only [Engine.keyTraffic, hlocal] at hquiet
    simp only [Engine.pressUnlocked, hlocal]
    split
    · exact ⟨rfl, h⟩
    · rename_i hsent
      rw [if_neg hsent] at hquiet
      cases hquiet
  | _ => exact h.pressScreen

end Quiet

/-! ### Uses of the channel -/

/-- A query sends the same from both engines. -/
theorem statusTraffic (h : Agree F e e') (query : Option Int) :
    e.statusTraffic query = e'.statusTraffic query := by
  unfold Engine.statusTraffic
  rw [h.graphics, h.setting Settings.answerback fun _ _ => rfl,
    h.setting Settings.model fun _ _ => rfl]

/-- A command of one byte sends the same from both engines. -/
theorem singleTraffic (h : Agree F e e') (command : SingleCommand) :
    e.singleTraffic command = e'.singleTraffic command := by
  unfold Engine.singleTraffic
  rw [h.screen]

/-- Engines that agree ask the same of their channels. -/
theorem traffic (h : Agree F e e') (action : Action) : e.traffic action = e'.traffic action := by
  cases action with
  | single command => exact h.singleTraffic command
  | status query => exact h.statusTraffic query
  | control command =>
    cases command with
    | cursorReport =>
      simp only [Engine.traffic, h.screen]
    | _ => rfl
  | _ => rfl

/-- A cursor key sends the same from both engines. -/
theorem cursorTraffic (h : Agree F e e') (key : CursorKey) :
    e.cursorTraffic key = e'.cursorTraffic key := by
  unfold Engine.cursorTraffic
  rw [h.setting Settings.localKeys fun _ _ => rfl, h.setting Settings.model fun _ _ => rfl]

/-- A key sends the same from both engines. -/
theorem keyTraffic (h : Agree F e e') (key : Key) : e.keyTraffic key = e'.keyTraffic key := by
  unfold Engine.keyTraffic
  simp only [h.cursorTraffic, h.setting Settings.localKeys fun _ _ => rfl,
    h.setting Settings.enterByte fun _ _ => rfl]

section Writing

variable [HostLink L] [HostLink L'] [Surface S] [Surface S']

/-- What is sent is sent from both engines, if the frame allows for writing. -/
theorem carry (hF : F.KeptByWriting) (h : Agree F e e') (traffic : Traffic) :
    Agree F (e.carry traffic) (e'.carry traffic) := by
  have hcarried := hF.channel.carry e'.screen (e'.tape e'.surface) traffic h.channel
  simp only [Engine.carry, Engine.useChannel, h.screen, h.tape_eq]
  exact { h with channel := hcarried.1, screen := hcarried.2 }

/-- Every action keeps an agreement that writing keeps. -/
theorem apply (hF : F.KeptByWriting) (h : Agree F e e') (action : Action) :
    Matches (Agree F) (e.apply action) (e'.apply action) := by
  by_cases hquiet : e.traffic action = .quiet
  · exact h.apply_of_quiet hF.toKeptByDrawing hquiet
  · rw [e.apply_of_traffic hquiet, e'.apply_of_traffic (h.traffic action ▸ hquiet),
      ← h.traffic action]
    exact .ok (h.carry hF _)

/-- Both engines interpret a byte alike, or refuse it alike. -/
theorem interpret (hF : F.KeptByWriting) (h : Agree F e e') (b : UInt8) :
    Matches (Agree F) (e.interpret b) (e'.interpret b) := by
  have hadvanced : Agree F { e with parser := (e.parser.advance b).2 }
      { e' with parser := (e.parser.advance b).2 } :=
    h.withParser rfl
  simp only [Engine.interpret, ← h.parser]
  cases (e.parser.advance b).1 with
  | none => exact .ok hadvanced
  | some action => exact hadvanced.apply hF action

/-- An unlocked key has the same outcome and effect in both engines. -/
theorem pressUnlocked (hF : F.KeptByWriting) (h : Agree F e e') (key : Key) :
    (e.pressUnlocked key).1 = (e'.pressUnlocked key).1 ∧
      Agree F (e.pressUnlocked key).2 (e'.pressUnlocked key).2 := by
  by_cases hquiet : e.keyTraffic key = .quiet
  · exact h.pressUnlocked_of_quiet hF.toKeptByDrawing hquiet
  · rw [e.pressUnlocked_of_traffic hquiet,
      e'.pressUnlocked_of_traffic (h.keyTraffic key ▸ hquiet), ← h.keyTraffic key]
    exact ⟨rfl, h.carry hF _⟩

/-! ### Bytes, clicks, idle moments and keys -/

/-- Both engines report the loss of the link. -/
theorem reportLoss (hF : F.KeptByReports) (h : Agree F e e') :
    Agree F e.reportLoss e'.reportLoss := by
  have hlost := hF.lost h.channel
  have htaken := hF.takeLoss h.channel
  simp only [Engine.reportLoss, Channel.takeLoss] at htaken ⊢
  rw [← hlost]
  cases e.channel.lost with
  | none => exact { h with channel := htaken }
  | some reason => exact { h with channel := htaken, events := hF.report reason h.events }

/-- A byte that queues no acknowledgement keeps an agreement. -/
theorem receive_of_unqueued (hF : F.KeptByReports) (h : Agree F e e') {b : UInt8}
    (hb : F.settings.enqAck = true → b ≠ Byte.enq) :
    Matches (Agree F) (e.receive b) (e'.receive b) := by
  unfold Engine.receive
  by_cases henq : b = Byte.enq
  · have hsent : ¬ e.settings.enqAck = true := by
      intro hack
      rw [h.settings] at hack
      exact hb hack henq
    have hsent' : ¬ e'.settings.enqAck = true := by
      rw [← h.setting Settings.enqAck fun _ _ => rfl]
      exact hsent
    rw [if_pos henq, if_pos henq, Engine.answerEnquiry, Engine.answerEnquiry, if_neg hsent,
      if_neg hsent', h.setting Settings.answerback fun _ _ => rfl]
    exact .ok ((h.carry hF.toKeptByWriting (.send _)).reportLoss hF)
  · rw [if_neg henq, if_neg henq]
    exact (h.interpret hF.toKeptByWriting b).map fun _ _ h => h.reportLoss hF

/-- Both engines answer an enquiry. -/
theorem answerEnquiry (hF : F.KeptByAnswers) (h : Agree F e e') :
    Agree F e.answerEnquiry e'.answerEnquiry := by
  unfold Engine.answerEnquiry
  rw [← h.setting Settings.enqAck fun _ _ => rfl, h.setting Settings.answerback fun _ _ => rfl]
  split
  · rename_i hack
    rw [h.settings] at hack
    exact { h with channel := hF.queueAck hack h.channel }
  · exact h.carry hF.toKeptByWriting (.send _)

/-- Every byte keeps an agreement that reports and answers keep. -/
theorem receive_of_kept (hreports : F.KeptByReports) (hanswers : F.KeptByAnswers)
    (h : Agree F e e') (b : UInt8) : Matches (Agree F) (e.receive b) (e'.receive b) := by
  by_cases hb : b = Byte.enq
  · unfold Engine.receive
    rw [if_pos hb, if_pos hb]
    exact .ok ((h.answerEnquiry hanswers).reportLoss hreports)
  · exact h.receive_of_unqueued hreports fun _ => hb

/-- Every byte keeps an agreement. -/
theorem receive (hF : F.KeptByAll) (h : Agree F e e') (b : UInt8) :
    Matches (Agree F) (e.receive b) (e'.receive b) :=
  h.receive_of_kept hF.toKeptByReports hF.toKeptByAnswers b

/-- Both engines take a click, or neither does. -/
theorem pollClick (hF : F.KeptByAnswers) (h : Agree F e e') :
    e.pollClick.1 = e'.pollClick.1 ∧ Agree F e.pollClick.2 e'.pollClick.2 := by
  obtain ⟨hclick, htaken⟩ := hF.takeClick h.surface
  unfold Engine.pollClick Engine.isAwaitingClick
  rw [h.parser]
  split
  · generalize Surface.takeClick e.surface = taken at hclick htaken ⊢
    generalize Surface.takeClick e'.surface = taken' at hclick htaken ⊢
    obtain ⟨click, surface⟩ := taken
    obtain ⟨click', surface'⟩ := taken'
    obtain rfl : click = click' := hclick
    cases click with
    | none => exact ⟨rfl, { h with parser := rfl, surface := htaken }⟩
    | some click =>
      exact ⟨rfl, { h with
        parser := rfl
        surface := htaken
        channel := hF.channel.arm _ h.channel }⟩
  · exact ⟨rfl, h⟩

/-- Both engines send the acknowledgement that waits. -/
theorem flushAck (hF : F.KeptByAnswers) (h : Agree F e e') :
    Agree F (e.useChannel Channel.flushAck) (e'.useChannel Channel.flushAck) := by
  have hflushed := hF.flushAck e'.screen h.channel
  simp only [Engine.useChannel, h.screen]
  exact { h with channel := hflushed.1, screen := hflushed.2 }

/-- Both engines spend an idle moment alike, if the frame allows for reports and answers. -/
theorem idle_of_kept (hreports : F.KeptByReports) (hanswers : F.KeptByAnswers)
    (h : Agree F e e') : Agree F e.idle e'.idle :=
  (h.flushAck hanswers).reportLoss hreports

/-- Both engines spend an idle moment alike, if the frame allows for everything. -/
theorem idle (hF : F.KeptByAll) (h : Agree F e e') : Agree F e.idle e'.idle :=
  h.idle_of_kept hF.toKeptByReports hF.toKeptByAnswers

/-- A key has the same outcome on both engines. -/
theorem press (hF : F.KeptByReports) (h : Agree F e e') (key : Key) :
    (e.press key).1 = (e'.press key).1 ∧ Agree F (e.press key).2 (e'.press key).2 := by
  unfold Engine.press
  rw [h.screen]
  split
  · split
    · exact h.pressScreen
    · exact ⟨rfl, h⟩
  · obtain ⟨houtcome, hpressed⟩ := h.pressUnlocked hF.toKeptByWriting key
    exact ⟨houtcome, hpressed.reportLoss hF⟩

end Writing

end Agree

end GraphicsTerminal
