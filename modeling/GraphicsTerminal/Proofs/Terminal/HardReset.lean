import GraphicsTerminal.Proofs.Terminal.ScreenSequences
import GraphicsTerminal.Proofs.Terminal.WellFormed

/-!
# Hard reset

A hard reset between two units makes the screen that of a new terminal, whatever the history
was, but for one component: the alternate character set stays as it was designated.  The tab
stops and the labels of the soft keys are made anew from what the screen holds, so it matters
that no history changes their number and their texts.

Main results:

- Theorem {lit}`Screen.reset_eq`: what a hard reset makes of a screen.
- Theorem {lit}`Terminal.labels_of_run_start`: no run changes a label.
- Theorem {lit}`Terminal.atRest_of_feed`: a terminal that was fed is at rest.
- Theorem {lit}`Terminal.feed_hardReset`: the screen after a hard reset.
-/

namespace GraphicsTerminal

/-- A hard reset makes a screen new, but for its alternate character set. -/
theorem Screen.reset_eq {s : Screen} (hsize : s.tabs.stops.size = columns)
    (hlabels : s.labels = initial.labels) :
    s.reset true = { initial with charset := s.charset } := by
  obtain ⟨hmode, huser⟩ := Prod.mk.inj hlabels
  have htabs : s.tabs.setDefault TabStops.defaultStep = initial.tabs := by
    rw [TabStops.setDefault, hsize]
    rfl
  have hkeys : s.softKeys.select .mode = initial.softKeys := by
    rw [SoftKeys.select, hmode, huser]
    rfl
  simp only [reset, if_true, htabs, hkeys]
  rfl

/-- After an idle moment no acknowledgement waits. -/
theorem Engine.ackPending_idle {L S : Type} [HostLink L] (e : Engine L S) :
    e.idle.channel.ackPending = false := by
  rw [idle, channel_reportLoss]
  simp only [useChannel, Channel.flushAck]
  split
  · exact Channel.ackPending_sendBytes _ _ _
  · next hnone => exact Bool.eq_false_iff.2 hnone

namespace Terminal

variable {L S : Type} [HostLink L] [Surface S] {t t' : Terminal L S} {bytes : List UInt8}

/-! ## Labels -/

/-- Nothing that happens to a terminal changes a label. -/
theorem labels_invariant (labels : LabelBank × LabelBank) :
    Invariant fun t : Terminal L S => t.engine.labels = labels where
  toStepInvariant := .of_engine (fun e h => e.labels_pollClick.trans h)
    (fun e h => e.labels_idle.trans h)
    fun _ _ _ h hreceive => (Engine.labels_of_receive hreceive).trans h
  press := fun t key h => (t.engine.labels_press key).trans h
  surface := fun _ _ h => h
  link := fun _ _ h => h
  collect := fun _ h => h

/-- In every run the labels are those of a new terminal. -/
theorem labels_of_run_start {settings : Settings} {link : L} {surface : S}
    {tape : S → TapeSource} {events : List (Event L S)}
    (h : (start settings link surface tape).run events = .ok t) :
    t.engine.labels = Screen.initial.labels :=
  (labels_invariant _).run rfl h

/-! ## After a feed -/

/-- When no byte is left, no acknowledgement waits. -/
theorem ackPending_of_runUntilIdle (h : t.runUntilIdle = .ok t') :
    t'.engine.channel.ackPending = false := by
  fun_induction runUntilIdle t with
  | case1 t fault hstep => cases h
  | case2 t idle hstep =>
    cases h
    simp only [step] at hstep
    split at hstep
    · cases hstep
      exact Engine.ackPending_idle _
    · obtain ⟨engine, -, hstepped⟩ := Fault.exists_of_map hstep
      cases hstepped
  | case3 t next hstep ih => exact ih h

/-- A feed ends when no byte is left. -/
theorem exists_runUntilIdle_of_feed (h : t.feed bytes = .ok t') :
    ∃ last : Terminal L S, last.runUntilIdle = .ok t' := by
  fun_induction feed t bytes with
  | case1 t => exact ⟨t, h⟩
  | case2 t b rest count ih =>
    obtain ⟨idle, -, hrest⟩ := Fault.exists_of_bind h
    exact ih idle hrest

/-- A terminal that was fed up to the end of a unit is at rest. -/
theorem atRest_of_feed {settings : Settings} {link : L} {surface : S} {tape : S → TapeSource}
    {events : List (Event L S)}
    (hrun : (start settings link surface tape).run (events ++ [.feed bytes]) = .ok t)
    (hboundary : t.engine.parser.AtBoundary) : t.AtRest := by
  have hlost := lost_of_run_start hrun
  rw [run_append] at hrun
  obtain ⟨before, -, hfed⟩ := Fault.exists_of_bind hrun
  rw [run_singleton] at hfed
  obtain ⟨last, hlast⟩ := exists_runUntilIdle_of_feed hfed
  exact
    { empty := (accounts_of_runUntilIdle hlast).empty
      boundary := hboundary
      discreet := ⟨hlost, .inl (ackPending_of_runUntilIdle hlast)⟩ }

/-! ## The reset -/

/-- After any history that ends with a unit, a hard reset makes the screen that of a new
terminal, but for the alternate character set. -/
theorem feed_hardReset {settings : Settings} {link : L} {surface : S} {tape : S → TapeSource}
    {events : List (Event L S)}
    (hrun : (start settings link surface tape).run (events ++ [.feed bytes]) = .ok t)
    (hboundary : t.engine.parser.AtBoundary)
    (hkept : ∀ s ∈ t.feedTurns [Byte.esc, 0x45], s.losesByte = false) :
    ∃ t', t.feed [Byte.esc, 0x45] = .ok t' ∧
      t'.engine.screen = { Screen.initial with charset := t.engine.screen.charset } ∧
      (t'.engine.screen = Screen.initial ↔ t.engine.screen.charset = .roman) := by
  have hrest := atRest_of_feed hrun hboundary
  obtain ⟨opened, hopens⟩ := Engine.exists_opens hboundary
  obtain ⟨text, hwithin⟩ := hopens.parser
  have hactions : (opened.parser.feed [0x45]).1 = [.single .hardReset] := by
    rw [hwithin]
    rfl
  obtain ⟨t', hfeed, hsheet⟩ := hrest.feed_edit hopens (by decide) hactions .hardReset hkept
  -- A click that comes first may be shown, which changes neither labels nor character set.
  have hfittings := hopens.fittings hboundary
  have hformed := hopens.wellFormed
    (wellFormed_invariant.run (Engine.WellFormed.start settings link surface tape) hrun)
  have hlabels : opened.screen.labels = Screen.initial.labels :=
    (Screen.labels_of_fittings hfittings).trans (labels_of_run_start hrun)
  have hcharset : opened.screen.charset = t.engine.screen.charset :=
    congrArg Fittings.charset hfittings
  have hscreen : t'.engine.screen =
      { Screen.initial with charset := t.engine.screen.charset } := by
    rw [← hcharset, ← Screen.reset_eq hformed.screen.tabs_size hlabels]
    exact congrArg Sheet.screen hsheet
  refine ⟨t', hfeed, hscreen, ?_⟩
  rw [hscreen]
  constructor
  · exact congrArg Screen.charset
  · intro hroman
    rw [hroman]
    rfl

/-- A terminal that was fed a letter is reset. -/
theorem feed_hardReset_recorded :
    ∃ t t', (recorded 8).run ([] ++ [.feed [0x61]]) = .ok t ∧
      t.feed [Byte.esc, 0x45] = .ok t' ∧ t'.engine.screen = Screen.initial := by
  have hfacts : ((recorded 8).run ([] ++ [.feed [0x61]])).map (fun t =>
      (t.engine.parser.phase, t.engine.screen.charset,
        (t.feedTurns [Byte.esc, 0x45]).all (fun s => !s.losesByte))) =
      .ok (.idle, .roman, true) := by
    cbv
  obtain ⟨t, hrun, hseen⟩ := Fault.exists_of_map hfacts
  simp only [Prod.mk.injEq] at hseen
  obtain ⟨hphase, hroman, hkept⟩ := hseen
  obtain ⟨t', hfeed, -, hnew⟩ := feed_hardReset hrun (.inl hphase)
    fun s hs => Bool.not_eq_true' _ ▸ List.all_eq_true.1 hkept s hs
  exact ⟨t, t', hrun, hfeed, hnew.2 hroman⟩

/-- A designated character set survives a hard reset, so the screen is not that of a new
terminal. -/
theorem charset_of_hardReset :
    ∃ t, (recorded 8).run [.feed [Byte.esc, 0x29, 0x42], .feed [Byte.esc, 0x45]] = .ok t ∧
      t.engine.screen.charset = .lineDraw ∧ t.engine.screen ≠ Screen.initial := by
  have hcharset : ((recorded 8).run [.feed [Byte.esc, 0x29, 0x42], .feed [Byte.esc, 0x45]]).map
      (·.engine.screen.charset) = .ok .lineDraw := by
    cbv
  obtain ⟨t, hrun, hkept⟩ := Fault.exists_of_map hcharset
  refine ⟨t, hrun, hkept, fun hnew => ?_⟩
  rw [hnew] at hkept
  cases hkept

end Terminal

end GraphicsTerminal
