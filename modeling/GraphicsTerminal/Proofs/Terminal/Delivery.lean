import GraphicsTerminal.Proofs.Input.Accounting
import GraphicsTerminal.Proofs.Terminal.Refusal

/-!
# Delivery of host bytes

Bytes that are used in slices wait in the ring until the engine takes them.
Each turn hands over the oldest byte that waits, unless a click has put a
handshake in front of it; if the ring is full at that moment, the newest byte
gives way to the handshake and is lost.  This is the only loss.

Main definitions:

- {lit}`Terminal.handedOver`, {lit}`Terminal.delivered`: the host bytes that the
  engine receives in a turn, and in several.
- {lit}`Terminal.losesByte`: a click comes while the ring is full.

Main results:

- Theorem {lit}`Terminal.step_eq_receive`: what is handed over is what the
  engine receives.
- Theorem {lit}`Terminal.accounts_of_runUntilIdle`: the bytes that waited are
  delivered in order, but for as many of the newest ones as there were losses.
- Theorem {lit}`Terminal.accounts_of_feed`: each byte is delivered or counted as
  lost.
- Theorem {lit}`Terminal.feed_delivers_all_iff`: all bytes are delivered exactly
  when no click comes while the ring is full, and no turn fails.
- Theorem {lit}`Terminal.click_loses_byte`: a short input leads to a loss.
-/

namespace GraphicsTerminal

namespace Terminal

variable {L S : Type} [Surface S]

/-! ## What a turn hands over -/

/-- A click is taken before the next byte. -/
def takesClick (t : Terminal L S) : Bool := t.engine.pollClick.1

/-- The host byte that the engine receives in the next step, if there is one.
After a click it receives the handshake instead. -/
def handedOver (t : Terminal L S) : List UInt8 :=
  if t.takesClick then [] else (t.pollClick.ring.pop?.map Prod.fst).toList

/-- The handshake of a click takes the place of the newest byte. -/
def losesByte (t : Terminal L S) : Bool := t.takesClick && t.ring.isFull

/-- The host bytes that the engine receives in some turns. -/
def delivered (turns : List (Terminal L S)) : List UInt8 := turns.flatMap handedOver

/-- The number of bytes that are lost in some turns. -/
def losses (turns : List (Terminal L S)) : Nat := turns.countP losesByte

variable {t t' : Terminal L S}

theorem delivered_cons (t : Terminal L S) (turns : List (Terminal L S)) :
    delivered (t :: turns) = t.handedOver ++ delivered turns := List.flatMap_cons

theorem delivered_append (front back : List (Terminal L S)) :
    delivered (front ++ back) = delivered front ++ delivered back := List.flatMap_append

theorem losses_cons (t : Terminal L S) (turns : List (Terminal L S)) :
    losses (t :: turns) = losses turns + t.losesByte.toNat := by
  simp only [losses, List.countP_cons]
  cases t.losesByte with
  | true => rfl
  | false => rfl

theorem losses_append (front back : List (Terminal L S)) :
    losses (front ++ back) = losses front + losses back := List.countP_append

/-! ## The ring after a poll -/

theorem ring_pollClick_of_true (h : t.takesClick = true) :
    t.pollClick.ring = t.ring.putBack Byte.dc1 := by
  unfold pollClick
  unfold takesClick at h
  split
  · rfl
  · rename_i hpoll
    rw [hpoll] at h
    cases h

theorem ring_pollClick_of_false (h : t.takesClick = false) : t.pollClick.ring = t.ring := by
  unfold pollClick
  unfold takesClick at h
  split
  · rename_i hpoll
    rw [hpoll] at h
    cases h
  · rfl

/-! ## Accounts -/

/-- What is known of the ring after a step. -/
structure StepAccounts (t t' : Terminal L S) (more : Bool) : Prop where
  handed : t.handedOver ++ t'.ring.toList =
    if t.losesByte then t.ring.toList.dropLast else t.ring.toList
  overruns : t'.ring.overruns = t.ring.overruns + t.losesByte.toNat
  empty : more = false → t'.ring.toList = []

/-- What waits after a step, with the byte that was handed over in front and
the byte that was lost at the end, is what waited before. -/
theorem StepAccounts.waited {more : Bool} {kept lost : List UInt8}
    (h : StepAccounts t t' more) (hkept : t'.ring.toList = kept ++ lost) :
    ∃ lost', lost'.length = lost.length + t.losesByte.toNat ∧
      t.ring.toList = t.handedOver ++ kept ++ lost' := by
  have hhanded := h.handed
  rw [hkept] at hhanded
  cases hloss : t.losesByte with
  | true =>
    simp only [hloss, if_true] at hhanded
    have hfull : t.ring.isFull = true := by
      simp only [losesByte, Bool.and_eq_true] at hloss
      exact hloss.2
    have hnonempty : t.ring.toList ≠ [] := by
      rw [← List.isEmpty_eq_false_iff, ← Ring.isEmpty_eq_isEmpty_toList]
      exact Ring.isEmpty_of_isFull hfull
    refine ⟨lost ++ [t.ring.toList.getLast hnonempty], List.length_append, ?_⟩
    calc t.ring.toList
        = t.ring.toList.dropLast ++ [t.ring.toList.getLast hnonempty] :=
          (List.dropLast_concat_getLast hnonempty).symm
      _ = t.handedOver ++ kept ++ (lost ++ [t.ring.toList.getLast hnonempty]) := by
          rw [← hhanded]
          simp only [List.append_assoc]
  | false =>
    simp only [hloss, Bool.false_eq_true, if_false] at hhanded
    refine ⟨lost, rfl, ?_⟩
    rw [← hhanded, List.append_assoc]

/-- What is known after bytes were used in some turns. -/
structure FeedAccounts (t t' : Terminal L S) (bytes : List UInt8)
    (turns : List (Terminal L S)) : Prop where
  sublist : (delivered turns).Sublist bytes
  length : (delivered turns).length + losses turns = bytes.length
  overruns : t'.ring.overruns = t.ring.overruns + losses turns
  empty : t'.ring.toList = []

theorem FeedAccounts.append {next : Terminal L S} {front back : List UInt8}
    {now later : List (Terminal L S)} (hnow : FeedAccounts t next front now)
    (hlater : FeedAccounts next t' back later) :
    FeedAccounts t t' (front ++ back) (now ++ later) where
  sublist := by
    rw [delivered_append]
    exact hnow.sublist.append hlater.sublist
  length := by
    have hfront := hnow.length
    have hback := hlater.length
    rw [delivered_append, losses_append, List.length_append, List.length_append]
    omega
  overruns := by
    rw [hlater.overruns, hnow.overruns, losses_append, Nat.add_assoc]
  empty := hlater.empty

variable [HostLink L]

/-! ## One step -/

/-- What is handed over is what the engine receives. -/
theorem step_eq_receive {b : UInt8} (h : t.handedOver = [b]) :
    ∃ ring, t.step =
      (t.pollClick.engine.receive b).map fun engine => (true, ⟨ring, engine⟩) := by
  unfold handedOver at h
  split at h
  · cases h
  · cases hpop : t.pollClick.ring.pop? with
    | none =>
      rw [hpop] at h
      cases h
    | some taken =>
      obtain ⟨b', ring⟩ := taken
      rw [hpop] at h
      cases h
      refine ⟨ring, ?_⟩
      simp only [step, hpop]

/-- A step takes a byte from the ring, or there is none. -/
theorem ring_of_step {more : Bool} (h : t.step = .ok (more, t')) :
    (more = false ∧ t.pollClick.ring.pop? = none ∧ t'.ring = t.pollClick.ring) ∨
      (more = true ∧ ∃ b, t.pollClick.ring.pop? = some (b, t'.ring)) := by
  simp only [step] at h
  split at h
  · rename_i hpop
    cases h
    exact Or.inl ⟨rfl, hpop, rfl⟩
  · rename_i b ring hpop
    rcases Fault.exists_of_map h with ⟨engine, -, hstepped⟩
    cases hstepped
    exact Or.inr ⟨rfl, b, hpop⟩

/-- A step hands over the oldest byte, or the handshake of a click in place of
the newest byte of a full ring. -/
theorem accounts_of_step {more : Bool} (h : t.step = .ok (more, t')) :
    StepAccounts t t' more := by
  cases hclick : t.takesClick with
  | true =>
    have hring := ring_pollClick_of_true hclick
    -- The handshake in front is the byte that is taken, so the rest is what stays.
    rcases ring_of_step h with ⟨-, hpop, -⟩ | ⟨rfl, b, hpop⟩
    · obtain ⟨next, hnext⟩ := t.ring.pop?_putBack Byte.dc1
      rw [hring, hnext] at hpop
      cases hpop
    · rw [hring] at hpop
      have hlist := Ring.toList_of_pop? hpop
      rw [Ring.toList_putBack] at hlist
      have hoverruns := Ring.overruns_of_pop? hpop
      rw [Ring.overruns_putBack] at hoverruns
      exact
        { handed := by
            simp only [handedOver, losesByte, hclick, if_true, Bool.true_and, List.nil_append]
            exact (List.cons.inj hlist).2.symm
          overruns := by
            simp only [losesByte, hclick, Bool.true_and]
            exact hoverruns
          empty := by
            intro hmore
            cases hmore }
  | false =>
    have hring := ring_pollClick_of_false hclick
    have hkept : t.losesByte = false := by
      simp only [losesByte, hclick, Bool.false_and]
    rcases ring_of_step h with ⟨rfl, hpop, hsame⟩ | ⟨rfl, b, hpop⟩
    · have hempty := (Ring.pop?_eq_none_iff _).1 hpop
      rw [hring] at hempty hsame
      exact
        { handed := by
            simp [handedOver, hclick, hpop, hkept, hsame]
          overruns := by
            rw [hsame, hkept]
            rfl
          empty := by
            intro _
            rw [hsame, hempty] }
    · have hlist := Ring.toList_of_pop? hpop
      have hoverruns := Ring.overruns_of_pop? hpop
      rw [hring] at hlist hoverruns
      exact
        { handed := by
            simp [handedOver, hclick, hpop, hkept, hlist]
          overruns := by
            rw [hoverruns, hkept]
            rfl
          empty := by
            intro hmore
            cases hmore }

/-! ## Until no byte is left -/

/-- What is known after the bytes that waited were used. -/
structure IdleAccounts (t t' : Terminal L S) : Prop where
  waited : ∃ lost, lost.length = losses t.turns ∧ t.ring.toList = delivered t.turns ++ lost
  overruns : t'.ring.overruns = t.ring.overruns + losses t.turns
  empty : t'.ring.toList = []

/-- The bytes that waited are delivered in order, but for as many of the newest
ones as there were losses. -/
theorem accounts_of_runUntilIdle (h : t.runUntilIdle = .ok t') : IdleAccounts t t' := by
  fun_induction runUntilIdle t with
  | case1 t fault hstep => cases h
  | case2 t idle hstep =>
    cases h
    have hturns : t.turns = [t] := by
      rw [turns, hstep]
    have hturn := accounts_of_step hstep
    have hnone : t'.ring.toList = [] ++ [] := hturn.empty rfl
    obtain ⟨lost, hlength, hwaited⟩ := hturn.waited hnone
    exact
      { waited := by
          refine ⟨lost, ?_, ?_⟩
          · rw [hlength, hturns, losses_cons]
            rfl
          · rw [hwaited, hturns, delivered_cons]
            rfl
        overruns := by
          rw [hturn.overruns, hturns, losses_cons]
          simp [losses]
        empty := hturn.empty rfl }
  | case3 t next hstep ih =>
    -- What a later turn loses stands in front of what this one loses.
    have hturns : t.turns = t :: next.turns := by
      rw [turns, hstep]
    have hturn := accounts_of_step hstep
    have hidle := ih h
    obtain ⟨lostLater, hlater, hkept⟩ := hidle.waited
    obtain ⟨lost, hlength, hwaited⟩ := hturn.waited hkept
    exact
      { waited := by
          refine ⟨lost, ?_, ?_⟩
          · rw [hlength, hlater, hturns, losses_cons]
          · rw [hwaited, hturns, delivered_cons]
        overruns := by
          rw [hidle.overruns, hturn.overruns, hturns, losses_cons]
          omega
        empty := hidle.empty }

/-! ## Bytes of any number -/

/-- Bytes that fit into an empty ring are delivered or counted as lost. -/
theorem accounts_of_push {front : List UInt8} (hempty : t.ring.toList = [])
    (hfits : front.length ≤ t.ring.free) (h : (t.push front).2.runUntilIdle = .ok t') :
    FeedAccounts t t' front (t.push front).2.turns := by
  obtain ⟨hpushed, hnone⟩ := Ring.extend_of_le_free hfits
  have hidle := accounts_of_runUntilIdle h
  obtain ⟨lost, hlength, hwaited⟩ := hidle.waited
  have hfront : front = delivered (t.push front).2.turns ++ lost := by
    calc front
        = t.ring.toList ++ front := by rw [hempty, List.nil_append]
      _ = (t.push front).2.ring.toList := hpushed.symm
      _ = delivered (t.push front).2.turns ++ lost := hwaited
  have hoverruns : (t.push front).2.ring.overruns = t.ring.overruns := hnone
  exact
    { sublist := by
        have hsublist := List.sublist_append_left (delivered (t.push front).2.turns) lost
        rwa [← hfront] at hsublist
      length := by
        rw [← hlength, ← List.length_append, ← hfront]
      overruns := by
        rw [hidle.overruns, hoverruns]
      empty := hidle.empty }

/-- Each byte that is used is delivered or counted as lost, and the bytes that
are delivered are in order. -/
theorem accounts_of_feed {bytes : List UInt8} (hempty : t.ring.toList = [])
    (h : t.feed bytes = .ok t') : FeedAccounts t t' bytes (t.feedTurns bytes) := by
  fun_induction feed t bytes with
  | case1 t =>
    rw [feedTurns]
    exact accounts_of_push hempty (Nat.zero_le _) h
  | case2 t b rest count ih =>
    rcases Fault.exists_of_bind h with ⟨idle, hslice, hrest⟩
    have hfits : ((b :: rest).take count).length ≤ t.ring.free := by
      have hroom := Ring.one_le_free hempty
      simp only [count, slice, List.length_take]
      omega
    have hnow := accounts_of_push hempty hfits hslice
    have haccounts := hnow.append (ih idle hnow.empty hrest)
    rw [List.take_append_drop] at haccounts
    have hturns : t.feedTurns (b :: rest) =
        (t.push ((b :: rest).take count)).2.turns ++
          idle.feedTurns ((b :: rest).drop count) := by
      rw [feedTurns]
      simp only [hslice, followed, count]
    rw [hturns]
    exact haccounts

/-- All bytes reach the engine, in order and without an overrun, exactly when
no click comes while the ring is full and no turn fails. -/
theorem feed_delivers_all_iff (t : Terminal L S) (hempty : t.ring.toList = [])
    (bytes : List UInt8) :
    (∃ t', t.feed bytes = .ok t' ∧ delivered (t.feedTurns bytes) = bytes ∧
        t'.ring.overruns = t.ring.overruns) ↔
      ∀ s ∈ t.feedTurns bytes, s.losesByte = false ∧ ¬ s.InsertsAtFirstCell := by
  constructor
  · rintro ⟨t', hfeed, hdelivered, -⟩
    intro s hs
    constructor
    · have hlength := (accounts_of_feed hempty hfeed).length
      rw [hdelivered] at hlength
      have hnone : losses (t.feedTurns bytes) = 0 := by omega
      rw [losses, List.countP_eq_zero] at hnone
      exact Bool.eq_false_iff.2 (hnone s hs)
    · intro hinserts
      have hrefused : t.feed bytes = .error .shiftBeforeMemory :=
        (feed_eq_error_iff bytes).2 ⟨s, hs, (step_eq_error_iff s _).2 hinserts⟩
      rw [hfeed] at hrefused
      cases hrefused
  · intro h
    cases hfeed : t.feed bytes with
    | error fault =>
      obtain ⟨s, hs, hrefused⟩ := (feed_eq_error_iff bytes).1 hfeed
      exact absurd ((step_eq_error_iff s fault).1 hrefused) (h s hs).2
    | ok t' =>
      have haccounts := accounts_of_feed hempty hfeed
      have hnone : losses (t.feedTurns bytes) = 0 := by
        rw [losses, List.countP_eq_zero]
        intro s hs
        exact Bool.eq_false_iff.1 (h s hs).1
      refine ⟨t', rfl, ?_, ?_⟩
      · have hlength := haccounts.length
        rw [hnone] at hlength
        exact haccounts.sublist.eq_of_length hlength
      · rw [haccounts.overruns, hnone, Nat.add_zero]

/-- Six bytes pass a ring of four cells. -/
theorem feed_delivers_all_iff_recorded :
    (recorded 4).ring.toList = [] ∧
      ∀ s ∈ (recorded 4).feedTurns [0x61, 0x62, 0x63, 0x64, 0x65, 0x66],
        s.losesByte = false ∧ ¬ s.InsertsAtFirstCell := by
  have hempty : (recorded 4).ring.toList = [] := rfl
  have hdelivered : delivered ((recorded 4).feedTurns [0x61, 0x62, 0x63, 0x64, 0x65, 0x66]) =
      [0x61, 0x62, 0x63, 0x64, 0x65, 0x66] := by
    cbv
  have hoverruns : ((recorded 4).feed [0x61, 0x62, 0x63, 0x64, 0x65, 0x66]).map
      (fun t => t.ring.overruns) = .ok 0 := by
    cbv
  refine ⟨hempty, (feed_delivers_all_iff (recorded 4) hempty _).1 ?_⟩
  cases hfeed : (recorded 4).feed [0x61, 0x62, 0x63, 0x64, 0x65, 0x66] with
  | error fault =>
    rw [hfeed] at hoverruns
    cases hoverruns
  | ok t =>
    rw [hfeed] at hoverruns
    exact ⟨t, rfl, hdelivered, Except.ok.inj hoverruns⟩

/-- A click that waits on the surface takes the place of the last of three bytes
that fill a ring of four cells. -/
theorem click_loses_byte :
    ((recorded 4).run [.feed [Byte.esc, 0x2A, 0x73, 0x34, 0x5E],
        .surface (·.addClick ⟨⟨12, 34⟩, Click.left⟩)]).map
      (fun t => (t.ring.toList, delivered (t.feedTurns [0x61, 0x62, 0x63]),
        (t.feed [0x61, 0x62, 0x63]).map fun t => t.ring.overruns)) =
        .ok ([], [0x61, 0x62], .ok 1) := by
  cbv

end Terminal

end GraphicsTerminal
