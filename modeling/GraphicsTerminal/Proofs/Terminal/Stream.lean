import GraphicsTerminal.Proofs.Terminal.Delivery
import GraphicsTerminal.Proofs.Terminal.Log

/-!
# Streams in pieces

A stream of host bytes reaches the engine in pieces: the ring cuts it into slices, and
between them the engine polls its surface for a click and uses its idle moments.  When
no click comes, a terminal that is fed in pieces follows any machine that takes the
same bytes one after another, as long as polls and idle moments cannot be seen.

Main definitions:

- {lit}`Surface.Quiet`: a surface that never reports a click.
- {lit}`Surface.SameCalls`: a surface that was polled beside one that was not.
- {lit}`Frame.polled`: what is known of an engine that is polled beside one that is not.
- {lit}`Terminal.AllowedAfter`: a stream whose bytes are allowed where they come.
- {lit}`Terminal.Follows`: how an engine that works in turns follows a machine that
  only takes bytes.

Main results:

- Theorem {lit}`Terminal.Follows.runUntilIdle`: the bytes that wait are taken.
- Theorem {lit}`Terminal.Follows.run_feeds`: a stream is taken however it is cut into
  pieces.
-/

namespace GraphicsTerminal

/-! ## Quiet surfaces -/

/-- A use of a surface. -/
inductive SurfaceUse where
  | call (call : SurfaceCall)
  /-- Ask for a click. -/
  | poll
deriving DecidableEq, Repr

/-- The call that a use makes. -/
def SurfaceUse.call? : SurfaceUse → Option SurfaceCall
  | call told => some told
  | poll => none

namespace Surface

variable {S : Type} [Surface S]

/-- The surface after a use. -/
def use (surface : S) : SurfaceUse → S
  | .call told => Surface.call surface told
  | .poll => (takeClick surface).2

/-- A surface that never reports a click, and whose polls leave no trace on the tape
image that is made from it. -/
structure Quiet (tape : S → TapeSource) (surface : S) : Prop where
  no_click : ∀ uses : List SurfaceUse, (takeClick (uses.foldl use surface)).1 = none
  tape_eq : ∀ uses : List SurfaceUse,
    tape (uses.foldl use surface) = tape (callAll surface (uses.filterMap SurfaceUse.call?))

/-- Two surfaces that come from one surface by the same calls; the first was also
polled. -/
def SameCalls (origin polled other : S) : Prop :=
  ∃ uses : List SurfaceUse,
    polled = uses.foldl use origin ∧ other = callAll origin (uses.filterMap SurfaceUse.call?)

namespace SameCalls

variable {origin polled other : S}

theorem refl (origin : S) : SameCalls origin origin origin := ⟨[], rfl, rfl⟩

/-- A call on both surfaces is one more use of the origin. -/
theorem call (h : SameCalls origin polled other) (call : SurfaceCall) :
    SameCalls origin (Surface.call polled call) (Surface.call other call) := by
  obtain ⟨uses, rfl, rfl⟩ := h
  refine ⟨uses ++ [.call call], ?_, ?_⟩
  · rw [List.foldl_append]
    rfl
  · simp only [callAll, List.filterMap_append, List.foldl_append]
    rfl

/-- A poll of the first surface makes no call. -/
theorem poll (h : SameCalls origin polled other) :
    SameCalls origin (takeClick polled).2 other := by
  obtain ⟨uses, rfl, rfl⟩ := h
  refine ⟨uses ++ [.poll], ?_, ?_⟩
  · rw [List.foldl_append]
    rfl
  · rw [List.filterMap_append, List.filterMap_cons_none rfl, List.filterMap_nil,
      List.append_nil]

/-- The polled surface has no click, however it was used before. -/
theorem no_click {tape : S → TapeSource} (h : SameCalls origin polled other)
    (hquiet : Quiet tape origin) : (takeClick polled).1 = none := by
  obtain ⟨uses, rfl, -⟩ := h
  exact hquiet.no_click uses

/-- The tape images come from the same calls, so they are the same. -/
theorem tape_eq {tape : S → TapeSource} (h : SameCalls origin polled other)
    (hquiet : Quiet tape origin) : tape polled = tape other := by
  obtain ⟨uses, rfl, rfl⟩ := h
  exact hquiet.tape_eq uses

end SameCalls

end Surface

/-- Without a prepared click a recording surface reports none, and stays as it is. -/
theorem RecordingSurface.nextClick_of_nil {surface : RecordingSurface}
    (h : surface.clicks = []) : surface.nextClick = (none, surface) := by
  unfold nextClick
  rw [h]
  split
  · rename_i hclicks
    cases hclicks
  · rfl

/-- A recording surface is quiet as long as no click is prepared, if the tape image
does not come from it. -/
theorem RecordingSurface.quiet (source : TapeSource) {surface : RecordingSurface}
    (h : surface.clicks = []) : Surface.Quiet (fun _ => source) surface where
  no_click := by
    intro uses
    have hnone : (uses.foldl Surface.use surface).clicks = [] := by
      induction uses generalizing surface with
      | nil => exact h
      | cons use uses ih =>
        refine @ih (Surface.use surface use) ?_
        cases use with
        | call told => exact h
        | poll =>
          simp only [Surface.use, Surface.takeClick, nextClick_of_nil h]
          exact h
    exact congrArg Prod.fst (nextClick_of_nil hnone)
  tape_eq := fun _ => rfl

/-! ## Quiet surfaces with a log -/

namespace LoggedSurface

variable {S : Type} [Surface S]

/-- Uses of a surface with a log reach the surface inside. -/
theorem inner_foldl_use (uses : List SurfaceUse) (surface : LoggedSurface S) :
    (uses.foldl Surface.use surface).inner = uses.foldl Surface.use surface.inner := by
  induction uses generalizing surface with
  | nil => rfl
  | cons use uses ih =>
    rw [List.foldl_cons, ih, List.foldl_cons]
    cases use with
    | call told => rfl
    | poll => rfl

/-- Calls on a surface with a log reach the surface inside. -/
theorem inner_callAll (calls : List SurfaceCall) (surface : LoggedSurface S) :
    (Surface.callAll surface calls).inner = Surface.callAll surface.inner calls := by
  induction calls generalizing surface with
  | nil => rfl
  | cons told calls ih => exact ih (Surface.call surface told)

/-- The log of a surface grows by the calls among its uses. -/
theorem calls_foldl_use (uses : List SurfaceUse) (surface : LoggedSurface S) :
    (uses.foldl Surface.use surface).calls =
      surface.calls ++ uses.filterMap SurfaceUse.call? := by
  induction uses generalizing surface with
  | nil => exact (List.append_nil _).symm
  | cons use uses ih =>
    rw [List.foldl_cons, ih]
    cases use with
    | call told => exact List.append_assoc _ _ _
    | poll => rfl

/-- The log of a surface grows by all of its calls. -/
theorem calls_callAll (calls : List SurfaceCall) (surface : LoggedSurface S) :
    (Surface.callAll surface calls).calls = surface.calls ++ calls := by
  induction calls generalizing surface with
  | nil => exact (List.append_nil _).symm
  | cons told calls ih => exact (ih (Surface.call surface told)).trans (List.append_assoc _ _ _)

/-- A log does not make a surface report clicks. -/
theorem quiet {tape : S → TapeSource} {surface : LoggedSurface S}
    (h : Surface.Quiet tape surface.inner) :
    Surface.Quiet (fun logged => tape logged.inner) surface where
  no_click := by
    intro uses
    simp only [Surface.takeClick, inner_foldl_use]
    exact h.no_click uses
  tape_eq := by
    intro uses
    simp only [inner_foldl_use, inner_callAll]
    exact h.tape_eq uses

end LoggedSurface

/-- The same calls leave the same log. -/
theorem Surface.SameCalls.calls_eq {S : Type} [Surface S] {origin polled other : LoggedSurface S}
    (h : SameCalls origin polled other) : polled.calls = other.calls := by
  obtain ⟨uses, rfl, rfl⟩ := h
  rw [LoggedSurface.calls_foldl_use, LoggedSurface.calls_callAll]

/-! ## An engine that is polled beside one that is not -/

section

variable {L S : Type} [Surface S] {settings settings' : Settings} {tape : S → TapeSource}
  {origin : S} {channel : Channel L → Channel L → Prop}

/-- The frame of an engine whose quiet surface is polled beside one whose surface is
not. -/
def Frame.polled (channel : Channel L → Channel L → Prop)
    (hsettings : settings' = { settings with ringCapacity := settings'.ringCapacity })
    (hquiet : Surface.Quiet tape origin) : Frame L L S S where
  settings := settings
  settings' := settings'
  tape := tape
  tape' := tape
  channel := channel
  surface := Surface.SameCalls origin
  events := Eq
  settings_eq := hsettings
  tape_eq := fun h => h.tape_eq hquiet

variable {hsettings : settings' = { settings with ringCapacity := settings'.ringCapacity }}
  {hquiet : Surface.Quiet tape origin}

/-- A poll without a click changes nothing that the other engine knows of. -/
theorem Agree.pollClick_left {e e' : Engine L S}
    (h : Agree (Frame.polled channel hsettings hquiet) e e') :
    e.pollClick.1 = false ∧ Agree (Frame.polled channel hsettings hquiet) e.pollClick.2 e' := by
  have hnone : (Surface.takeClick e.surface).1 = none := h.surface.no_click hquiet
  unfold Engine.pollClick
  split
  · have hpolled := h.surface.poll
    generalize Surface.takeClick e.surface = taken at hnone hpolled ⊢
    obtain ⟨click, surface⟩ := taken
    obtain rfl : click = none := hnone
    exact ⟨rfl, { h with surface := hpolled }⟩
  · exact ⟨rfl, h⟩

/-- Reports keep such a frame, if they keep what is known of the channels. -/
theorem Frame.polled_kept [HostLink L] (hchannel : Channel.Kept channel)
    (hlost : ∀ {c c'}, channel c c' → c.lost = c'.lost)
    (htake : ∀ {c c'}, channel c c' → channel c.takeLoss.2 c'.takeLoss.2) :
    (Frame.polled channel hsettings hquiet).KeptByReports where
  call := fun call h => h.call call
  bell := fun h => congrArg (Array.push · TerminalEvent.bell) h
  channel := hchannel
  lost := hlost
  takeLoss := htake
  report := fun reason h => congrArg (Array.push · (TerminalEvent.linkLost reason)) h

end

namespace Terminal

/-! ## Following a machine -/

/-- Every byte of a stream is allowed when the bytes before it were taken. -/
def AllowedAfter (allowed : List UInt8 → UInt8 → Prop) (seen : List UInt8) :
    List UInt8 → Prop
  | [] => True
  | b :: rest => allowed seen b ∧ AllowedAfter allowed (seen ++ [b]) rest

namespace AllowedAfter

variable {allowed : List UInt8 → UInt8 → Prop} {seen : List UInt8}

/-- The back of a stream is allowed behind what was seen and the front. -/
theorem append_iff (front back : List UInt8) :
    AllowedAfter allowed seen (front ++ back) ↔
      AllowedAfter allowed seen front ∧ AllowedAfter allowed (seen ++ front) back := by
  induction front generalizing seen with
  | nil =>
    rw [List.append_nil]
    exact (iff_of_eq (true_and _)).symm
  | cons b front ih =>
    have hseen : seen ++ b :: front = (seen ++ [b]) ++ front := List.append_cons _ _ _
    rw [List.cons_append, AllowedAfter, AllowedAfter, ih, hseen, and_assoc]

/-- What is allowed may not depend on the bytes before it. -/
theorem of_forall {allowed : UInt8 → Prop} {bytes : List UInt8}
    (h : ∀ b ∈ bytes, allowed b) : AllowedAfter (fun _ => allowed) seen bytes := by
  induction bytes generalizing seen with
  | nil => trivial
  | cons b rest ih => exact ⟨h b (.head rest), ih fun c hc => h c (.tail b hc)⟩

/-- A stream stays allowed where more is allowed. -/
theorem mono {allowed' : List UInt8 → UInt8 → Prop} {bytes : List UInt8}
    (h : AllowedAfter allowed seen bytes) (hmono : ∀ seen b, allowed seen b → allowed' seen b) :
    AllowedAfter allowed' seen bytes := by
  induction bytes generalizing seen with
  | nil => trivial
  | cons b rest ih => exact ⟨hmono seen b h.1, ih h.2⟩

end AllowedAfter

/-- How an engine that works in turns follows a machine that only takes bytes.  The
relations know the bytes taken so far; the second one holds after an idle moment. -/
structure Follows {L S M : Type} [HostLink L] [Surface S]
    (allowed : List UInt8 → UInt8 → Prop) (take : M → UInt8 → Except Fault M)
    (Busy Settled : List UInt8 → Engine L S → M → Prop) : Prop where
  busy_of_settled : ∀ {seen e m}, Settled seen e m → Busy seen e m
  poll : ∀ {seen e m}, Busy seen e m → e.pollClick.1 = false ∧ Busy seen e.pollClick.2 m
  receive : ∀ {seen e m b}, allowed seen b → Busy seen e m →
    Matches (Busy (seen ++ [b])) (e.receive b) (take m b)
  idle : ∀ {seen e m}, Busy seen e m → Settled seen e.idle m

namespace Follows

variable {L S M : Type} [HostLink L] [Surface S] {allowed : List UInt8 → UInt8 → Prop}
  {take : M → UInt8 → Except Fault M} {Busy Settled : List UInt8 → Engine L S → M → Prop}
  {seen : List UInt8} {t : Terminal L S} {m : M}

/-- A step with a byte hands it over, and the machine takes it. -/
theorem step_of_cons (h : Follows allowed take Busy Settled) {b : UInt8} {rest : List UInt8}
    (hring : t.ring.toList = b :: rest) (hb : allowed seen b) (hbusy : Busy seen t.engine m) :
    Matches (fun stepped m' => stepped.1 = true ∧ stepped.2.ring.toList = rest ∧
      Busy (seen ++ [b]) stepped.2.engine m') t.step (take m b) := by
  obtain ⟨hclick, hpolled⟩ := h.poll hbusy
  rw [← engine_pollClick] at hpolled
  simp only [step]
  cases hpop : t.pollClick.ring.pop? with
  | none =>
    rw [Ring.pop?_eq_none_iff, ring_pollClick_of_false hclick, hring] at hpop
    cases hpop
  | some taken =>
    obtain ⟨b', ring⟩ := taken
    have hlist := Ring.toList_of_pop? hpop
    rw [ring_pollClick_of_false hclick, hring] at hlist
    obtain ⟨rfl, rfl⟩ := List.cons.inj hlist
    have hreceived := (h.receive hb hpolled).map
      (f := fun engine => (true, Terminal.mk ring engine)) (g := id)
      (Q := fun stepped m' => stepped.1 = true ∧ stepped.2.ring.toList = ring.toList ∧
        Busy (seen ++ [b]) stepped.2.engine m') fun _ _ hnext => ⟨rfl, rfl, hnext⟩
    rw [Except.map_id] at hreceived
    exact hreceived

/-- A step without a byte is an idle moment, which the machine does not see. -/
theorem step_of_nil (h : Follows allowed take Busy Settled) (hring : t.ring.toList = [])
    (hbusy : Busy seen t.engine m) :
    ∃ idle, t.step = .ok (false, idle) ∧ idle.ring.toList = [] ∧
      Settled seen idle.engine m := by
  obtain ⟨hclick, hpolled⟩ := h.poll hbusy
  rw [← engine_pollClick] at hpolled
  have hempty : t.pollClick.ring.toList = [] := by
    rw [ring_pollClick_of_false hclick, hring]
  refine ⟨t.pollClick.modifyEngine Engine.idle, ?_, hempty, h.idle hpolled⟩
  simp only [step, (Ring.pop?_eq_none_iff _).2 hempty]

/-- The machine takes the bytes that wait, and then the engine has settled. -/
theorem runUntilIdle (h : Follows allowed take Busy Settled) {bytes : List UInt8}
    (hring : t.ring.toList = bytes) (hallowed : AllowedAfter allowed seen bytes)
    (hbusy : Busy seen t.engine m) :
    Matches (fun idle m' => idle.ring.toList = [] ∧ Settled (seen ++ bytes) idle.engine m')
      t.runUntilIdle (bytes.foldlM take m) := by
  induction bytes generalizing seen t m with
  | nil =>
    obtain ⟨idle, hstep, hempty, hsettled⟩ := h.step_of_nil hring hbusy
    rw [runUntilIdle_of_idle hstep, List.append_nil]
    exact .ok ⟨hempty, hsettled⟩
  | cons b rest ih =>
    obtain ⟨hb, hrest⟩ := hallowed
    have hmatch := h.step_of_cons hring hb hbusy
    rw [List.foldlM_cons]
    cases hstep : t.step with
    | error fault =>
      rw [hstep] at hmatch
      rw [runUntilIdle_of_error hstep, hmatch.of_error]
      exact .error fault
    | ok stepped =>
      rw [hstep] at hmatch
      obtain ⟨more, next⟩ := stepped
      obtain ⟨m', htaken, rfl, hring', hbusy'⟩ := hmatch.of_ok
      rw [runUntilIdle_of_more hstep, htaken]
      have hlater := ih hring' hrest hbusy'
      rw [List.append_assoc] at hlater
      exact hlater

/-- A slice that fits is taken after the bytes that wait. -/
theorem runUntilIdle_push (h : Follows allowed take Busy Settled) {waiting bytes : List UInt8}
    (hring : t.ring.toList = waiting) (hfits : bytes.length ≤ t.ring.free)
    (hallowed : AllowedAfter allowed seen (waiting ++ bytes)) (hbusy : Busy seen t.engine m) :
    Matches (fun idle m' => idle.ring.toList = [] ∧
        Settled (seen ++ (waiting ++ bytes)) idle.engine m')
      (t.push bytes).2.runUntilIdle ((waiting ++ bytes).foldlM take m) := by
  refine h.runUntilIdle ?_ hallowed hbusy
  have hextended := (Ring.extend_of_le_free hfits).1
  rw [hring] at hextended
  exact hextended

/-- The machine takes the bytes that wait, and then those that are used in slices, if
the first slice has room. -/
theorem feed (h : Follows allowed take Busy Settled) {waiting bytes : List UInt8}
    (hring : t.ring.toList = waiting) (hroom : 0 < t.ring.free)
    (hallowed : AllowedAfter allowed seen (waiting ++ bytes)) (hbusy : Busy seen t.engine m) :
    Matches (fun idle m' => idle.ring.toList = [] ∧
        Settled (seen ++ (waiting ++ bytes)) idle.engine m')
      (t.feed bytes) ((waiting ++ bytes).foldlM take m) := by
  fun_induction Terminal.feed t bytes generalizing seen m waiting with
  | case1 t =>
    rw [List.append_nil] at hallowed ⊢
    exact h.runUntilIdle hring hallowed hbusy
  | case2 t b rest count =>
    rename_i ih
    have hfits : ((b :: rest).take count).length ≤ t.ring.free := by
      simp only [count, slice, List.length_take]
      omega
    have hsplit : waiting ++ b :: rest =
        (waiting ++ (b :: rest).take count) ++ (b :: rest).drop count := by
      rw [List.append_assoc, List.take_append_drop]
    rw [hsplit] at hallowed ⊢
    obtain ⟨hallowedNow, hallowedLater⟩ := (AllowedAfter.append_iff _ _).1 hallowed
    rw [List.foldlM_append]
    have hnow := h.runUntilIdle_push hring hfits hallowedNow hbusy
    refine hnow.bind ?_
    rintro idle m' ⟨hidle, hsettled⟩
    -- The ring is empty now, so the slices that are left have room.
    have hlater := ih idle hidle (Ring.one_le_free hidle) hallowedLater
      (h.busy_of_settled hsettled)
    rw [List.nil_append, List.append_assoc] at hlater
    exact hlater

/-- A stream is taken however it is cut into pieces. -/
theorem run_feeds (h : Follows allowed take Busy Settled) (seen : List UInt8)
    {chunks : List (List UInt8)} (hempty : t.ring.toList = [])
    (hallowed : AllowedAfter allowed seen chunks.flatten) (hsettled : Settled seen t.engine m) :
    Matches (fun last m' => last.ring.toList = [] ∧
        Settled (seen ++ chunks.flatten) last.engine m')
      (t.run (chunks.map .feed)) (chunks.flatten.foldlM take m) := by
  induction chunks generalizing seen t m with
  | nil =>
    rw [List.flatten_nil, List.append_nil]
    exact .ok ⟨hempty, hsettled⟩
  | cons chunk chunks ih =>
    rw [List.flatten_cons] at hallowed ⊢
    obtain ⟨hallowedNow, hallowedLater⟩ := (AllowedAfter.append_iff _ _).1 hallowed
    rw [List.foldlM_append]
    have hnow := h.feed hempty (Ring.one_le_free hempty) hallowedNow
      (h.busy_of_settled hsettled)
    refine hnow.bind ?_
    rintro next m' ⟨hnext, hsettled'⟩
    have hlater := ih (seen ++ chunk) hnext hallowedLater hsettled'
    rw [List.append_assoc] at hlater
    exact hlater

/-- The bytes that wait are taken first, if there is room for the first piece. -/
theorem run_feeds_of_free (h : Follows allowed take Busy Settled) {waiting : List UInt8}
    {chunks : List (List UInt8)} (hchunks : chunks ≠ []) (hring : t.ring.toList = waiting)
    (hroom : 0 < t.ring.free)
    (hallowed : AllowedAfter allowed seen (waiting ++ chunks.flatten))
    (hbusy : Busy seen t.engine m) :
    Matches (fun last m' => last.ring.toList = [] ∧
        Settled (seen ++ (waiting ++ chunks.flatten)) last.engine m')
      (t.run (chunks.map .feed)) ((waiting ++ chunks.flatten).foldlM take m) := by
  cases chunks with
  | nil => exact absurd rfl hchunks
  | cons chunk chunks =>
    have hsplit : waiting ++ (chunk :: chunks).flatten = (waiting ++ chunk) ++ chunks.flatten := by
      rw [List.flatten_cons, List.append_assoc]
    rw [hsplit] at hallowed ⊢
    obtain ⟨hallowedNow, hallowedLater⟩ := (AllowedAfter.append_iff _ _).1 hallowed
    rw [List.foldlM_append]
    have hnow := h.feed hring hroom hallowedNow hbusy
    refine hnow.bind ?_
    rintro next m' ⟨hnext, hsettled⟩
    have hlater := h.run_feeds _ hnext hallowedLater hsettled
    rw [List.append_assoc] at hlater
    exact hlater

end Follows

end Terminal

end GraphicsTerminal
