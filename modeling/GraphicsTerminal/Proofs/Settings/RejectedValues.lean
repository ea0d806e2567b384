import GraphicsTerminal.Settings.Environment

/-!
# Rejected values

The settings of an environment depend only on the values that are understood, so a variable
with any other value may as well be unset.  The answerback is the exception: every text is
understood, the empty one too, which is out of range.

Main definitions:

- {lit}`Environment.fields`: the variables with the fields that they set.
- {lit}`Environment.unset`: an environment without one variable.
- {lit}`Settings.Understood`: what is understood of an environment.

Main results:

- Theorem {lit}`Settings.settings_ofEnvironment`: the settings follow from what is understood.
- Theorem {lit}`Settings.mem_errors_ofEnvironment`: what is reported is as good as unset, or
  out of range.
- Theorem {lit}`Settings.reported_values`: every reported value is as good as none, but for an
  empty answerback, which alone makes the settings invalid.
-/

namespace GraphicsTerminal

namespace Environment

/-- The variables, each with the name of the field that it sets. -/
def fields : List (String × String) :=
  [("HPTERM_TERMINAL", "terminal"), ("HPTERM_ENQ_ACK", "enq_ack"), ("HPTERM_SOUND", "sound"),
    ("HPTERM_REMOTE", "remote"), ("HPTERM_LOCAL_KEYS", "local_keys"),
    ("HPTERM_CPM_HIGH_BIT", "cpm_high_bit"), ("HPTERM_ANSWERBACK", "answerback"),
    ("HPTERM_TAPE_PATH", "tape_path"), ("HPTERM_TRACE", "trace_level")]

/-- An environment without one variable. -/
def unset (lookup : String → Option String) (name : String) : String → Option String :=
  fun other => if other = name then none else lookup other

theorem unset_self (lookup : String → Option String) (name : String) :
    unset lookup name name = none := if_pos rfl

theorem unset_of_ne (lookup : String → Option String) {name other : String} (h : other ≠ name) :
    unset lookup name other = lookup other := if_neg h

end Environment

namespace Settings

/-! ## One variable -/

namespace Draft

variable {α : Type} {d : Draft} {value : Option String} {parse? : String → Option α}
  {field message : String} {apply : Settings → α → Settings}

/-- The field of a variable gets the value that is understood.  When there is none, it keeps
the one that is read from it. -/
theorem settings_use {s : Settings} (read : Settings → α) (h : d.settings = s)
    (hkept : apply s (read s) = s := by rfl) :
    (d.use value parse? field message apply).settings =
      apply s ((value.bind parse?).getD (read s)) := by
  cases value with
  | none => exact h.trans hkept.symm
  | some text =>
    rw [use, Option.bind_some]
    cases hparsed : parse? text with
    | none => exact h.trans hkept.symm
    | some parsed => exact congrArg (apply · parsed) h

/-- A value that is not understood is reported. -/
theorem mem_errors_use {e : SettingError} :
    e ∈ (d.use value parse? field message apply).errors ↔
      e ∈ d.errors ∨ value = some e.value ∧ parse? e.value = none ∧
        e.field = field ∧ e.message = message := by
  cases value with
  | none => simp [use]
  | some text =>
    rw [use]
    cases hparsed : parse? text with
    | none =>
      obtain ⟨name, value, told⟩ := e
      simp only [List.mem_append, List.mem_singleton, SettingError.mk.injEq, Option.some.injEq]
      refine or_congr_right ⟨?_, ?_⟩
      · rintro ⟨rfl, rfl, rfl⟩
        exact ⟨rfl, hparsed, rfl, rfl⟩
      · rintro ⟨rfl, -, rfl, rfl⟩
        exact ⟨rfl, rfl, rfl⟩
    | some parsed =>
      refine ⟨.inl, ?_⟩
      rintro (hbefore | ⟨htext, hnone, -⟩)
      · exact hbefore
      · rw [← Option.some.inj htext, hparsed] at hnone
        cases hnone

end Draft

/-! ## All variables -/

/-- The values of an environment that are understood. -/
structure Understood where
  model : Option TerminalModel
  enqAck : Option Bool
  sound : Option Bool
  remote : Option Bool
  localKeys : Option Bool
  invertHighBytes : Option Bool
  answerback : Option String
  tapePath : Option String
  traceLevel : Option Nat

/-- What is understood of an environment. -/
def understood (lookup : String → Option String) : Understood where
  model := (lookup "HPTERM_TERMINAL").bind TerminalModel.parse?
  enqAck := (lookup "HPTERM_ENQ_ACK").bind Environment.parseSwitch?
  sound := (lookup "HPTERM_SOUND").bind Environment.parseSwitch?
  remote := (lookup "HPTERM_REMOTE").bind Environment.parseSwitch?
  localKeys := (lookup "HPTERM_LOCAL_KEYS").bind Environment.parseSwitch?
  invertHighBytes := (lookup "HPTERM_CPM_HIGH_BIT").bind Environment.parseSwitch?
  answerback := lookup "HPTERM_ANSWERBACK"
  tapePath := lookup "HPTERM_TAPE_PATH"
  traceLevel := (lookup "HPTERM_TRACE").bind Environment.parseLevel?

/-- The settings with the values that are understood, and the defaults of the model for the
other fields. -/
def ofUnderstood (u : Understood) : Settings :=
  let defaults := forModel (u.model.getD .standard)
  { defaults with
    enqAck := u.enqAck.getD defaults.enqAck
    sound := u.sound.getD defaults.sound
    remote := u.remote.getD defaults.remote
    localKeys := u.localKeys.getD defaults.localKeys
    invertHighBytes := u.invertHighBytes.getD defaults.invertHighBytes
    answerback := u.answerback.getD defaults.answerback
    tapePath := u.tapePath.getD defaults.tapePath
    traceLevel := u.traceLevel.getD defaults.traceLevel }

variable (lookup : String → Option String)

/-- The settings follow from what is understood of the environment. -/
theorem settings_ofEnvironment :
    (ofEnvironment lookup).1 = ofUnderstood (understood lookup) := by
  simp only [ofEnvironment, Draft.useSwitch]
  refine Eq.trans (Draft.settings_use traceLevel <| Draft.settings_use tapePath <|
    Draft.settings_use answerback <| Draft.settings_use invertHighBytes <|
    Draft.settings_use localKeys <| Draft.settings_use remote <| Draft.settings_use sound <|
    Draft.settings_use enqAck <| Draft.settings_use (fun _ => TerminalModel.standard) rfl) ?_
  simp only [Option.bind_fun_some]
  rfl

/-- Only a value that is not understood is reported, unless a field is out of range. -/
theorem mem_errors_ofEnvironment {e : SettingError} (h : e ∈ (ofEnvironment lookup).2) :
    (∃ name, name ≠ "HPTERM_ANSWERBACK" ∧ (name, e.field) ∈ Environment.fields ∧
      lookup name = some e.value ∧
        understood (Environment.unset lookup name) = understood lookup) ∨
      e ∈ (ofEnvironment lookup).1.problems := by
  simp only [ofEnvironment, Draft.useSwitch, List.mem_append, Draft.mem_errors_use] at h
  refine h.imp_left ?_
  -- Every text is understood as an answerback or a path.
  simp only [List.not_mem_nil, false_or, reduceCtorEq, false_and, and_false, or_false]
  rintro ((((((h | h) | h) | h) | h) | h) | h)
  all_goals
    obtain ⟨hvalue, hrejected, hfield, -⟩ := h
    refine ⟨_, ?_, ?_, hvalue, ?_⟩
    · decide
    · rw [hfield]
      decide
    · simp (disch := decide) only [understood, Environment.unset_self, Environment.unset_of_ne,
        hvalue, hrejected, Option.bind_some, Option.bind_none]

/-- The answerback is empty only if the environment says so. -/
theorem answerback_ofUnderstood_eq_empty_iff (u : Understood) :
    (ofUnderstood u).answerback = "" ↔ u.answerback = some "" := by
  have hnamed (model : TerminalModel) : (forModel model).answerback ≠ "" := by
    cases model <;> decide
  cases hanswerback : u.answerback with
  | none => simpa [ofUnderstood, hanswerback] using hnamed _
  | some text => simp [ofUnderstood, hanswerback]

/-- The answerback alone can be out of range. -/
theorem problems_ofUnderstood (u : Understood) :
    (ofUnderstood u).problems =
      if u.answerback = some "" then [⟨"answerback", "", "must not be empty"⟩] else [] := by
  have hring : ¬ (ofUnderstood u).ringCapacity < 2 := by
    show ¬ Ring.defaultCapacity < 2
    decide
  have hpacing : ¬ Duration.second < (ofUnderstood u).transferPacing := by
    show ¬ Duration.second < 10 * Duration.millisecond
    decide
  have hpoll : ¬ ((ofUnderstood u).idlePoll = 0 ∨
      Duration.second < (ofUnderstood u).idlePoll) := by
    show ¬ (10 * Duration.millisecond = 0 ∨ Duration.second < 10 * Duration.millisecond)
    decide
  rw [problems, if_neg hring, if_neg hpacing, if_neg hpoll, List.append_nil, List.append_nil,
    List.nil_append]
  simp only [answerback_ofUnderstood_eq_empty_iff]

/-- Every reported value is as good as none, but for an empty answerback: it is taken, which
makes the settings invalid, and nothing else does. -/
theorem reported_values :
    ((ofEnvironment lookup).1.Valid ↔ lookup "HPTERM_ANSWERBACK" ≠ some "") ∧
      ∀ e ∈ (ofEnvironment lookup).2, ∃ name, (name, e.field) ∈ Environment.fields ∧
        lookup name = some e.value ∧
        ((ofEnvironment (Environment.unset lookup name)).1 = (ofEnvironment lookup).1 ↔
          name ≠ "HPTERM_ANSWERBACK") := by
  simp only [settings_ofEnvironment]
  refine ⟨?_, fun e he => ?_⟩
  · rw [Valid, problems_ofUnderstood]
    split
    · next hempty => exact iff_of_false (List.cons_ne_nil _ _) (not_not_intro hempty)
    · next hother => exact iff_of_true rfl hother
  · rcases mem_errors_ofEnvironment lookup he with
      ⟨name, hname, hfield, hvalue, hunset⟩ | hproblem
    · exact ⟨name, hfield, hvalue, iff_of_true (congrArg ofUnderstood hunset) hname⟩
    · rw [settings_ofEnvironment, problems_ofUnderstood] at hproblem
      split at hproblem
      · next hempty =>
        rw [List.mem_singleton.1 hproblem]
        refine ⟨"HPTERM_ANSWERBACK", by decide, hempty, iff_of_false ?_ (not_not_intro rfl)⟩
        intro hsame
        have hunset : (understood (Environment.unset lookup "HPTERM_ANSWERBACK")).answerback =
            none := by
          simp only [understood, Environment.unset_self]
        have htaken := (answerback_ofUnderstood_eq_empty_iff (understood lookup)).2 hempty
        rw [← hsame, answerback_ofUnderstood_eq_empty_iff, hunset] at htaken
        cases htaken
      · cases hproblem

/-- An empty answerback is reported and taken. -/
theorem reported_values_of_empty_answerback :
    let lookup := fun name => if name = "HPTERM_ANSWERBACK" then some "" else none
    (ofEnvironment lookup).2 = [⟨"answerback", "", "must not be empty"⟩] ∧
      (ofEnvironment lookup).1.answerback = "" ∧
      (ofEnvironment (Environment.unset lookup "HPTERM_ANSWERBACK")).1.answerback = "2627A" ∧
      ¬ (ofEnvironment lookup).1.Valid := by
  decide

end Settings

end GraphicsTerminal
