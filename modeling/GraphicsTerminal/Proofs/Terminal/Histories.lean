import GraphicsTerminal.Proofs.Terminal.Run

/-!
# Histories of runs

An invariant speaks of one terminal.  A history relates a terminal to the turns that led to it,
so it can speak of all that was done so far: a step adds its turn, and what happens between turns
adds none.

Main definitions:

- {lit}`Terminal.HistoryUnder`: a relation of a terminal to the turns before it that every event
  keeps, if its surface changes in allowed ways only.
- {lit}`Terminal.Recounts`: turns, and a terminal they lead to, with their history.
- {lit}`Terminal.Carries`: work that carries on a history.

Main results:

- Theorem {lit}`Terminal.Carries.bind`: work that goes on after its first part.
- Theorem {lit}`Terminal.HistoryUnder.history_of_run`: a history that holds at first holds in
  every turn of a run, and after it.
-/

namespace GraphicsTerminal

namespace Terminal

variable {L S : Type}

/-! ## Turns with their history -/

section

variable (R : List (Terminal L S) → Terminal L S → Prop)

/-- Each of some turns is related to the turns before it. -/
def Along (past : List (Terminal L S)) : List (Terminal L S) → Prop
  | [] => True
  | t :: turns => R past t ∧ Along (past ++ [t]) turns

/-- Each of some turns is related to the turns before it, and so is the terminal they lead to. -/
structure Recounts (past turns : List (Terminal L S)) (result : Except Fault (Terminal L S)) :
    Prop where
  each : Along R past turns
  final : ∀ t', result = .ok t' → R (past ++ turns) t'

/-- Work whose turns carry on whatever history its terminal has. -/
def Carries (t : Terminal L S) (turns : List (Terminal L S))
    (result : Except Fault (Terminal L S)) : Prop :=
  ∀ past, R past t → Recounts R past turns result

end

variable {R : List (Terminal L S) → Terminal L S → Prop} {t : Terminal L S}
  {now : List (Terminal L S)}

theorem along_append_iff (past now later : List (Terminal L S)) :
    Along R past (now ++ later) ↔ Along R past now ∧ Along R (past ++ now) later := by
  induction now generalizing past with
  | nil => simp [Along]
  | cons t now ih =>
    rw [List.cons_append, Along, Along, ih, and_assoc, List.append_assoc, List.singleton_append]

/-- The history of a turn among others. -/
theorem Along.of_split {past before after : List (Terminal L S)}
    (h : Along R past (before ++ t :: after)) : R (past ++ before) t :=
  ((along_append_iff past before (t :: after)).1 h).2.1

namespace Carries

/-- Work that goes on after its first part. -/
theorem bind {first : Except Fault (Terminal L S)}
    {later : Terminal L S → Except Fault (Terminal L S)}
    {laterTurns : Terminal L S → List (Terminal L S)} (hnow : Carries R t now first)
    (hlater : ∀ next, first = .ok next → Carries R next (laterTurns next) (later next)) :
    Carries R t (now ++ followed first laterTurns) (first >>= later) := by
  intro past ht
  obtain ⟨heach, hfinal⟩ := hnow past ht
  cases first with
  | error fault =>
    rw [followed, List.append_nil]
    refine ⟨heach, fun t' h => ?_⟩
    cases h
  | ok next =>
    have hnext := hlater next rfl (past ++ now) (hfinal next rfl)
    refine ⟨(along_append_iff past now _).2 ⟨heach, hnext.each⟩, fun t' h => ?_⟩
    rw [← List.append_assoc]
    exact hnext.final t' h

/-- What happens between turns adds nothing to the history. -/
theorem between {next : Terminal L S} (h : ∀ past, R past t → R past next) :
    Carries R t [] (.ok next) := by
  intro past ht
  refine ⟨trivial, fun t' hnext => ?_⟩
  cases hnext
  rw [List.append_nil]
  exact h past ht

end Carries

/-! ## Histories of events -/

variable [HostLink L] [Surface S]

/-- A relation of a terminal to the turns before it that everything that happens to the terminal
keeps, as long as its surface changes by itself in allowed ways only. -/
structure HistoryUnder (allowed : (S → S) → Prop)
    (R : List (Terminal L S) → Terminal L S → Prop) : Prop where
  push : ∀ t bytes past, R past t → R past (t.push bytes).2
  step : ∀ t t' more past, t.step = .ok (more, t') → R past t → R (past ++ [t]) t'
  press : ∀ t key past, R past t → R past (t.press key).2
  surface : ∀ t change past, allowed change → R past t → R past (t.changeSurface change)
  link : ∀ t change past, R past t → R past (t.changeLink change)
  collect : ∀ t past, R past t → R past t.collect

namespace HistoryUnder

variable {allowed : (S → S) → Prop}

/-- A turn adds itself to the history. -/
theorem carries_step (hR : HistoryUnder allowed R) (t : Terminal L S) :
    Carries R t [t] (t.step.map Prod.snd) := by
  intro past ht
  refine ⟨⟨ht, trivial⟩, fun t' h => ?_⟩
  rcases Fault.exists_of_map h with ⟨stepped, hstep, rfl⟩
  exact hR.step t _ _ past hstep ht

theorem carries_runUntilIdle (hR : HistoryUnder allowed R) (t : Terminal L S) :
    Carries R t t.turns t.runUntilIdle := by
  fun_induction runUntilIdle t with
  | case1 t fault hstep =>
    have hnow := hR.carries_step t
    rw [hstep] at hnow
    rw [turns, hstep]
    exact hnow
  | case2 t idle hstep =>
    have hnow := hR.carries_step t
    rw [hstep] at hnow
    rw [turns, hstep]
    exact hnow
  | case3 t next hstep ih =>
    have hnow := hR.carries_step t
    rw [hstep] at hnow
    rw [turns, hstep]
    exact hnow.bind fun later hlater => by
      cases hlater
      exact ih

theorem carries_feed (hR : HistoryUnder allowed R) (t : Terminal L S) (bytes : List UInt8) :
    Carries R t (t.feedTurns bytes) (t.feed bytes) := by
  fun_induction feedTurns t bytes with
  | case1 t =>
    rw [feed]
    exact hR.carries_runUntilIdle t
  | case2 t b rest count filled ih =>
    rw [feed]
    have hfilled : Carries R t filled.turns filled.runUntilIdle :=
      fun past ht => hR.carries_runUntilIdle filled past (hR.push t _ past ht)
    exact hfilled.bind fun next _ => ih next

theorem carries_respond (hR : HistoryUnder allowed R) (t : Terminal L S) {event : Event L S}
    (hevent : event.Allowed allowed) : Carries R t (t.respondTurns event) (t.respond event) := by
  cases event with
  | feed bytes => exact hR.carries_feed t bytes
  | settle => exact hR.carries_runUntilIdle t
  | step => exact hR.carries_step t
  | push bytes => exact .between (hR.push t bytes)
  | key pressed => exact .between (hR.press t pressed)
  | surface change => exact .between fun past => hR.surface t change past hevent
  | link change => exact .between (hR.link t change)
  | collect => exact .between (hR.collect t)

theorem carries_run (hR : HistoryUnder allowed R) (t : Terminal L S) {events : List (Event L S)}
    (hevents : ∀ event ∈ events, event.Allowed allowed) :
    Carries R t (t.runTurns events) (t.run events) := by
  induction events generalizing t with
  | nil => exact .between fun _ ht => ht
  | cons event events ih =>
    exact (hR.carries_respond t (hevents event (.head events))).bind fun next _ =>
      ih next fun e he => hevents e (.tail event he)

/-- A history that holds before a run holds in each of its turns, and after it. -/
theorem history_of_run (hR : HistoryUnder allowed R) {events : List (Event L S)}
    (hevents : ∀ event ∈ events, event.Allowed allowed) (ht : R [] t) :
    (∀ before s after, t.runTurns events = before ++ s :: after → R before s) ∧
      ∀ t', t.run events = .ok t' → R (t.runTurns events) t' := by
  obtain ⟨heach, hfinal⟩ := hR.carries_run t hevents [] ht
  refine ⟨fun before s after hturns => ?_, hfinal⟩
  rw [hturns] at heach
  exact heach.of_split

end HistoryUnder

end Terminal

end GraphicsTerminal
