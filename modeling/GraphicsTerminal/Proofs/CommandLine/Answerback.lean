import GraphicsTerminal.CommandLine.Options
import GraphicsTerminal.Proofs.Settings.RejectedValues

/-!
# Where the answerback comes from

The answerback can be named by an option and by the environment, and each model has one of its
own.  Arguments are used one after another, and each use replaces what was named before, so of
several options of one kind the last one counts, wherever it stands between the others.  An
option for the answerback comes before all else.  An option for the model brings the answerback
of that model, also in place of one that the environment names.

Main definitions:

- {lit}`Options.flags`: the arguments that are options.
- {lit}`Options.lastValue?`: the value of the last option of a kind.
- {lit}`Options.Draft.Named`: what two options make of the choices.
- {lit}`Options.model`, {lit}`Options.precedence`: the model and the answerback by precedence.

Main results:

- Theorem {lit}`Options.Draft.named_of_useArguments`: all arguments together do what the last
  option for the model and the last one for the answerback do.
- Theorem {lit}`Options.answerback_of_parse`: the answerback of the options, and when it is the
  one by precedence.
-/

namespace GraphicsTerminal

/-- A text that goes on after another one begins with it. -/
theorem Text.prefix_of_after? {start text rest : String} (h : after? start text = some rest) :
    start.toList <+: text.toList := by
  unfold after? at h
  split at h
  · next hstart => exact List.isPrefixOf_iff_prefix.1 hstart
  · cases h

namespace Options

/-! ## Options among the arguments -/

/-- The arguments that are options: neither the operand of a mode, nor a program with its
arguments. -/
def flags : List String → List String
  | [] => []
  | "run" :: _ => []
  | "connect" :: _ :: rest => flags rest
  | "replay" :: _ :: rest => flags rest
  | argument :: rest => argument :: flags rest

/-- The value of the last option that begins with a text. -/
def lastValue? (start : String) (arguments : List String) : Option String :=
  ((flags arguments).filterMap (Text.after? start)).getLast?

variable {argument : String} {rest arguments : List String}

/-- A later value comes before that of an option in front. -/
theorem lastValue?_of_flags (start : String)
    (h : flags (argument :: rest) = argument :: flags rest) :
    lastValue? start (argument :: rest) =
      (lastValue? start rest).or (Text.after? start argument) := by
  rw [lastValue?, lastValue?, h, List.filterMap_cons]
  cases Text.after? start argument with
  | none => exact (Option.or_none).symm
  | some value =>
    rw [List.getLast?_cons]
    cases ((flags rest).filterMap (Text.after? start)).getLast? <;> rfl

/-- An option without a value of the kind does not count. -/
theorem lastValue?_of_switch {start : String}
    (h : flags (argument :: rest) = argument :: flags rest)
    (hnone : Text.after? start argument = none) :
    lastValue? start (argument :: rest) = lastValue? start rest := by
  rw [lastValue?_of_flags start h, hnone, Option.or_none]

/-- No argument is an option for the model and one for the answerback. -/
theorem after?_answerback_of_terminal {value : String}
    (h : Text.after? "--terminal=" argument = some value) :
    Text.after? "--answerback=" argument = none := by
  rw [Option.eq_none_iff_forall_ne_some]
  intro other hother
  have hprefix := List.prefix_of_prefix_length_le (Text.prefix_of_after? h)
    (Text.prefix_of_after? hother) (by decide)
  exact absurd hprefix (by decide)

/-! ## What the options make of the choices -/

namespace Draft

/-- What an option for the model and one for the answerback make of the choices, if there are
such options. -/
structure Named (d d' : Draft) (terminal answerback : Option String) : Prop where
  answerback : d'.answerback = answerback.or d.answerback
  /-- Without an option the model and its answerback stay as they were. -/
  kept : terminal = none → d'.settings.model = d.settings.model ∧
    d'.settings.answerback = d.settings.answerback
  /-- An option brings the answerback of its model. -/
  brought : ∀ value ∈ terminal, TerminalModel.parse? value = some d'.settings.model ∧
    d'.settings.answerback = d'.settings.model.answerback

variable {d d' next : Draft} {terminal answerback : Option String}

theorem Named.refl (d : Draft) : d.Named d none none where
  answerback := rfl
  kept := fun _ => ⟨rfl, rfl⟩
  brought := fun _ h => by cases h

/-- What else was chosen before does not count. -/
theorem Named.congr (h : next.Named d' terminal answerback)
    (hanswerback : next.answerback = d.answerback := by rfl)
    (hmodel : next.settings.model = d.settings.model := by rfl)
    (hown : next.settings.answerback = d.settings.answerback := by rfl) :
    d.Named d' terminal answerback where
  answerback := hanswerback ▸ h.answerback
  kept := hmodel ▸ hown ▸ h.kept
  brought := h.brought

theorem Named.trans {terminal' answerback' : Option String} (h : d.Named next terminal answerback)
    (hnext : next.Named d' terminal' answerback') :
    d.Named d' (terminal'.or terminal) (answerback'.or answerback) where
  answerback := by rw [hnext.answerback, h.answerback, Option.or_assoc]
  kept := by
    intro hnone
    obtain ⟨hlater, hearlier⟩ := Option.or_eq_none_iff.1 hnone
    obtain ⟨hmodel, hanswerback⟩ := hnext.kept hlater
    rw [hmodel, hanswerback]
    exact h.kept hearlier
  brought := by
    intro value hvalue
    rcases Option.or_eq_some_iff.1 hvalue with hlater | ⟨hlater, hearlier⟩
    · exact hnext.brought value hlater
    · obtain ⟨hmodel, hanswerback⟩ := hnext.kept hlater
      rw [hmodel, hanswerback]
      exact h.brought value hearlier

/-- One argument does what it names. -/
theorem named_of_useFlag (h : d.useFlag argument = .ok d') :
    d.Named d' (Text.after? "--terminal=" argument) (Text.after? "--answerback=" argument) := by
  unfold useFlag at h
  cases hterminal : Text.after? "--terminal=" argument with
  | some value =>
    rw [after?_answerback_of_terminal hterminal]
    simp only [hterminal] at h
    cases hparsed : TerminalModel.parse? value with
    | none =>
      rw [hparsed] at h
      cases h
    | some model =>
      rw [hparsed] at h
      cases h
      exact
        { answerback := rfl
          kept := fun hnone => nomatch hnone
          brought := by
            intro _ hvalue
            rw [← Option.some.inj hvalue]
            exact ⟨hparsed, rfl⟩ }
  | none =>
    simp only [hterminal] at h
    cases hanswerback : Text.after? "--answerback=" argument with
    | some value =>
      simp only [hanswerback, nonempty] at h
      split at h
      · cases h
      · cases h
        exact ⟨rfl, fun _ => ⟨rfl, rfl⟩, fun _ hvalue => by cases hvalue⟩
    | none =>
      simp only [hanswerback] at h
      split at h
      · next path _ =>
        simp only [nonempty] at h
        split at h
        · cases h
        · cases h
          exact ⟨rfl, fun _ => ⟨rfl, rfl⟩, fun _ hvalue => by cases hvalue⟩
      · cases h

/-- All arguments together do what the last option of each kind does. -/
theorem named_of_useArguments (h : d.useArguments arguments = .ok d') :
    d.Named d' (lastValue? "--terminal=" arguments) (lastValue? "--answerback=" arguments) := by
  fun_induction useArguments d arguments
  case case1 d =>
    cases h
    exact Named.refl _
  -- Help, the version and a missing operand end the options.
  case case2 | case3 | case4 | case5 | case8 | case10 | case12 => cases h
  case case6 d rest ih | case7 d rest ih =>
    rw [lastValue?_of_switch rfl (by decide), lastValue?_of_switch rfl (by decide)]
    exact (ih h).congr
  case case9 d address rest ih | case11 d path rest ih => exact (ih h).congr
  case case13 d words _ =>
    cases h
    exact (Named.refl _).congr
  case case14 d argument rest _ _ _ _ _ _ _ hconnect _ hreplay hrun ih =>
    have hflags : flags (argument :: rest) = argument :: flags rest := by
      rw [flags]
      all_goals assumption
    cases hused : d.useFlag argument with
    | error problem =>
      rw [hused] at h
      cases h
    | ok next =>
      rw [hused] at h
      rw [lastValue?_of_flags _ hflags, lastValue?_of_flags _ hflags]
      exact (named_of_useFlag hused).trans (ih next h)

end Draft

/-! ## Precedence -/

/-- The model: of the last option, or else of the environment if it names one, or else the
standard one. -/
def model (arguments : List String) (lookup : String → Option String) : TerminalModel :=
  ((lastValue? "--terminal=" arguments).bind TerminalModel.parse?).getD
    (((lookup "HPTERM_TERMINAL").bind TerminalModel.parse?).getD .standard)

/-- The answerback by precedence: of the last option, or else of the environment, or else that
of the model. -/
def precedence (arguments : List String) (lookup : String → Option String) : String :=
  (lastValue? "--answerback=" arguments).getD
    ((lookup "HPTERM_ANSWERBACK").getD (model arguments lookup).answerback)

variable {lookup : String → Option String} {o : Options}

/-- The options of a command line come from the choices that the options make over the settings
of the environment. -/
theorem exists_draft_of_parse (h : parse arguments lookup = .ok o) :
    ∃ d : Draft,
      Draft.Named ⟨(Settings.ofEnvironment lookup).1, none, none, false, none⟩ d
        (lastValue? "--terminal=" arguments) (lastValue? "--answerback=" arguments) ∧
      o.settings = { d.settings with answerback := d.answerback.getD d.settings.answerback } := by
  simp only [parse] at h
  cases hused : Draft.useArguments ⟨(Settings.ofEnvironment lookup).1, none, none, false, none⟩
      arguments with
  | error problem =>
    rw [hused] at h
    cases h
  | ok d =>
    rw [hused] at h
    refine ⟨d, Draft.named_of_useArguments hused, ?_⟩
    cases hmode : d.mode with
    | none =>
      simp only [bind, Except.bind, hmode] at h
      cases h
    | some mode =>
      simp only [bind, Except.bind, hmode] at h
      cases h
      rfl

/-- An option for the model stands for the environment too, also for its answerback.  So the
answerback by precedence is lost when the environment names one and only the model has an
option. -/
theorem answerback_of_parse (h : parse arguments lookup = .ok o) :
    o.settings.model = model arguments lookup ∧
      o.settings.answerback = (lastValue? "--answerback=" arguments).getD
        (if lastValue? "--terminal=" arguments = none then
          (lookup "HPTERM_ANSWERBACK").getD (model arguments lookup).answerback
        else (model arguments lookup).answerback) ∧
      (o.settings.answerback = precedence arguments lookup ↔
        lastValue? "--answerback=" arguments ≠ none ∨
          lastValue? "--terminal=" arguments = none ∨
          ∀ text, lookup "HPTERM_ANSWERBACK" = some text →
            text = (model arguments lookup).answerback) := by
  obtain ⟨d, hnamed, hsettings⟩ := exists_draft_of_parse h
  have hbefore := Settings.settings_ofEnvironment lookup
  have hown : d.settings.model = model arguments lookup ∧ d.settings.answerback =
      if lastValue? "--terminal=" arguments = none then
        (lookup "HPTERM_ANSWERBACK").getD (model arguments lookup).answerback
      else (model arguments lookup).answerback := by
    cases hterminal : lastValue? "--terminal=" arguments with
    | none =>
      obtain ⟨hmodel, hanswerback⟩ := hnamed.kept hterminal
      rw [hmodel, hanswerback, hbefore, model, hterminal, if_pos rfl]
      exact ⟨rfl, rfl⟩
    | some value =>
      obtain ⟨hparsed, hanswerback⟩ := hnamed.brought value hterminal
      have hmodel : d.settings.model = model arguments lookup := by
        rw [model, hterminal, Option.bind_some, hparsed, Option.getD_some]
      rw [hanswerback, hmodel, if_neg (Option.some_ne_none value)]
      exact ⟨rfl, rfl⟩
  have hanswerback : o.settings.answerback = (lastValue? "--answerback=" arguments).getD
      d.settings.answerback := by
    rw [hsettings, hnamed.answerback, Option.or_none]
  have hmodel : o.settings.model = model arguments lookup := by rw [hsettings, ← hown.1]
  rw [hown.2] at hanswerback
  refine ⟨hmodel, hanswerback, ?_⟩
  rw [hanswerback, precedence]
  cases lastValue? "--answerback=" arguments with
  | some value => exact iff_of_true rfl (.inl (Option.some_ne_none value))
  | none =>
    rw [Option.getD_none, Option.getD_none]
    split
    · next hterminal => exact iff_of_true rfl (.inr (.inl hterminal))
    · next hterminal =>
      cases lookup "HPTERM_ANSWERBACK" with
      | none => exact iff_of_true rfl (.inr (.inr fun _ h => nomatch h))
      | some text => simp [hterminal, eq_comm]

/-- Neither the operand of a mode nor the arguments of a program count as options. -/
theorem answerback_of_parse_between_operands :
    let arguments := ["--answerback=LAB7", "--terminal=2648A", "connect", "--answerback=host",
      "--terminal=ansi", "run", "--", "--answerback=x"]
    let lookup := fun name => if name = "HPTERM_ANSWERBACK" then some "X1" else none
    ∃ o, parse arguments lookup = .ok o ∧ o.settings.model = .ansi ∧
      o.settings.answerback = "LAB7" ∧ o.settings.answerback = precedence arguments lookup := by
  intro arguments lookup
  obtain ⟨o, h⟩ : ∃ o, parse arguments lookup = .ok o := ⟨_, rfl⟩
  have hmodel : model arguments lookup = .ansi := by decide
  have hlast : lastValue? "--answerback=" arguments = some "LAB7" := by decide
  obtain ⟨hgiven, hanswerback, hprecedence⟩ := answerback_of_parse h
  rw [hlast] at hanswerback hprecedence
  exact ⟨o, h, hgiven.trans hmodel, hanswerback,
    hprecedence.2 (.inl (Option.some_ne_none _))⟩

/-- An option for the model loses the answerback of the environment. -/
theorem answerback_of_environment_lost :
    let arguments := ["--terminal=ansi", "replay", "x"]
    let lookup := fun name => if name = "HPTERM_ANSWERBACK" then some "LAB7" else none
    ∃ o, parse arguments lookup = .ok o ∧ o.settings.answerback = "VT100" ∧
      precedence arguments lookup = "LAB7" := by
  refine ⟨_, rfl, ?_⟩
  decide

end Options

end GraphicsTerminal
