import GraphicsTerminal.Proofs.Engine.Traffic

/-!
# Related channels

Whatever a channel is used for, it arms and forgets replies and sends bytes.  A
relation of two channels that these three keep is kept by every use, and then both
channels have the same effect on the screen.

Main definitions:

- {lit}`Channel.Kept`: a relation of channels that all uses of them keep.
- {lit}`Channel.Alike`: channels in the same state over related links.

Main results:

- Theorem {lit}`Channel.Kept.carry`: every use keeps such a relation, transfers
  included.
- Theorem {lit}`Channel.Alike.kept`: links that refuse the same writes keep their
  channels in the same state.
-/

namespace GraphicsTerminal

/-! ## What a write does -/

namespace Channel

variable {L : Type} [HostLink L]

theorem sendBytes_of_local {c : Channel L} (h : c.remote = false) (screen : Screen)
    (bytes : List UInt8) : c.sendBytes screen bytes = (c, screen.putBytes bytes) := by
  rw [sendBytes, h]
  rfl

theorem sendBytes_of_accepted {c : Channel L} (h : c.remote = true) {link : L} (screen : Screen)
    {bytes : List UInt8} (hsend : HostLink.send c.link bytes = (none, link)) :
    c.sendBytes screen bytes = ({ c with link := link }, screen) := by
  rw [sendBytes, if_pos h, hsend]

theorem sendBytes_of_refused {c : Channel L} (h : c.remote = true) {link : L} {reason : String}
    (screen : Screen) {bytes : List UInt8}
    (hsend : HostLink.send c.link bytes = (some reason, link)) :
    c.sendBytes screen bytes =
      ({ c with link := link, remote := false, lost := some reason },
        screen.putText ("\r\n" ++ lossNotice reason ++ "\r\n")) := by
  rw [sendBytes, if_pos h, hsend]

theorem release_of_none {c : Channel L} (h : c.pending = none) (screen : Screen) :
    c.release screen = (c, screen) := by
  rw [release, h]

theorem release_of_some {c : Channel L} {reply : String} (h : c.pending = some reply)
    (screen : Screen) :
    c.release screen = { c with pending := none }.sendBytes screen (Text.utf8 reply) := by
  rw [release, h]
  rfl

end Channel

/-! ## Uses that keep a relation -/

/-- A relation of channels that all uses of the channel keep, with the same effect
on the screen. -/
structure Channel.Kept {L L' : Type} [HostLink L] [HostLink L']
    (C : Channel L → Channel L' → Prop) : Prop where
  remote : ∀ {c c'}, C c c' → c.remote = c'.remote
  pending : ∀ {c c'}, C c c' → c.pending = c'.pending
  arm : ∀ {c c'} (reply : String), C c c' → C (c.arm reply) (c'.arm reply)
  disarm : ∀ {c c'}, C c c' → C { c with pending := none } { c' with pending := none }
  sendBytes : ∀ {c c'} (screen : Screen) (bytes : List UInt8), C c c' →
    C (c.sendBytes screen bytes).1 (c'.sendBytes screen bytes).1 ∧
      (c.sendBytes screen bytes).2 = (c'.sendBytes screen bytes).2

/-- Two senders that refuse the same bytes keep what every byte keeps. -/
theorem Transfer.sendAll_related {σ τ : Type} {R : σ → τ → Prop}
    {send : σ → UInt8 → Option String × σ} {send' : τ → UInt8 → Option String × τ}
    (hsend : ∀ s s' b, R s s' → (send s b).1 = (send' s' b).1 ∧ R (send s b).2 (send' s' b).2)
    {s : σ} {s' : τ} (h : R s s') (bytes : List UInt8) :
    (sendAll send s bytes).1 = (sendAll send' s' bytes).1 ∧
      R (sendAll send s bytes).2 (sendAll send' s' bytes).2 := by
  induction bytes generalizing s s' with
  | nil => exact ⟨rfl, h⟩
  | cons b rest ih =>
    obtain ⟨houtcome, hnext⟩ := hsend s s' b h
    rw [sendAll, sendAll]
    generalize send s b = sent at houtcome hnext ⊢
    generalize send' s' b = sent' at houtcome hnext ⊢
    obtain ⟨reason, next⟩ := sent
    obtain ⟨reason', next'⟩ := sent'
    obtain rfl : reason = reason' := houtcome
    cases reason with
    | none => exact ih hnext
    | some reason => exact ⟨rfl, hnext⟩

namespace Channel

variable {L L' : Type} [HostLink L] [HostLink L'] {C : Channel L → Channel L' → Prop}
  {c : Channel L} {c' : Channel L'}

/-- A byte of a transfer is refused on both sides or on neither. -/
theorem Kept.transferByte (hC : Kept C) {target : Channel L × Screen}
    {target' : Channel L' × Screen} (b : UInt8)
    (h : C target.1 target'.1 ∧ target.2 = target'.2) :
    (Engine.transferByte target b).1 = (Engine.transferByte target' b).1 ∧
      C (Engine.transferByte target b).2.1 (Engine.transferByte target' b).2.1 ∧
      (Engine.transferByte target b).2.2 = (Engine.transferByte target' b).2.2 := by
  obtain ⟨hchannel, hscreen⟩ := h
  have hsent := hC.sendBytes target'.2 [b] hchannel
  simp only [Engine.transferByte, sendByte, hscreen, hC.remote hchannel, hC.remote hsent.1]
  exact ⟨rfl, hsent⟩

/-- All uses of the channel keep such a relation, with the same effect on the
screen. -/
theorem Kept.carry (hC : Kept C) (screen : Screen) (source : TapeSource) (traffic : Traffic)
    (h : C c c') :
    C (c.carry screen source traffic).1 (c'.carry screen source traffic).1 ∧
      (c.carry screen source traffic).2 = (c'.carry screen source traffic).2 := by
  cases traffic with
  | quiet => exact ⟨h, rfl⟩
  | arm reply => exact ⟨hC.arm reply h, rfl⟩
  | release =>
    simp only [Channel.carry, release, ← hC.pending h]
    cases c.pending with
    | none => exact ⟨h, rfl⟩
    | some reply => exact hC.sendBytes screen _ (hC.disarm h)
  | send bytes => exact hC.sendBytes screen bytes h
  | transfer =>
    simp only [Channel.carry, Transfer.stream_snd]
    exact (Transfer.sendAll_related
      (R := fun (target : Channel L × Screen) (target' : Channel L' × Screen) =>
        C target.1 target'.1 ∧ target.2 = target'.2)
      (fun _ _ b => hC.transferByte b) ⟨h, rfl⟩ _).2

/-- Equal channels stay equal. -/
theorem Kept.eq : Kept (Eq : Channel L → Channel L → Prop) where
  remote := congrArg Channel.remote
  pending := congrArg Channel.pending
  arm := fun reply h => congrArg (Channel.arm · reply) h
  disarm := fun h => congrArg (fun c => { c with pending := none }) h
  sendBytes := by
    rintro c c' screen bytes rfl
    exact ⟨rfl, rfl⟩

/-- What each use of one channel keeps. -/
theorem Kept.alone {P : Channel L → Prop} (harm : ∀ c reply, P c → P (c.arm reply))
    (hdisarm : ∀ c, P c → P { c with pending := none })
    (hsend : ∀ c screen bytes, P c → P (c.sendBytes screen bytes).1) :
    Kept fun c c' => c = c' ∧ P c where
  remote := fun h => congrArg Channel.remote h.1
  pending := fun h => congrArg Channel.pending h.1
  arm := fun reply h => ⟨congrArg (Channel.arm · reply) h.1, harm _ reply h.2⟩
  disarm := fun h => by
    obtain ⟨rfl, hP⟩ := h
    exact ⟨rfl, hdisarm _ hP⟩
  sendBytes := fun screen bytes h => by
    obtain ⟨rfl, hP⟩ := h
    exact ⟨⟨rfl, hsend _ screen bytes hP⟩, rfl⟩

end Channel

/-! ## Channels over related links -/

namespace Channel

variable {L L' : Type} {R : L → L' → Prop} {c : Channel L} {c' : Channel L'}

/-- Two channels in the same state over related links, acknowledgements apart. -/
structure Alike (R : L → L' → Prop) (c : Channel L) (c' : Channel L') : Prop where
  link : R c.link c'.link
  remote : c.remote = c'.remote
  pending : c.pending = c'.pending
  lost : c.lost = c'.lost

variable [HostLink L] [HostLink L']

/-- Links that refuse the same writes keep their channels in the same state. -/
theorem Alike.sendBytes
    (hR : ∀ {l l'} (bytes : List UInt8), R l l' →
      (HostLink.send l bytes).1 = (HostLink.send l' bytes).1 ∧
        R (HostLink.send l bytes).2 (HostLink.send l' bytes).2)
    (h : Alike R c c') (screen : Screen) (bytes : List UInt8) :
    Alike R (c.sendBytes screen bytes).1 (c'.sendBytes screen bytes).1 ∧
      (c.sendBytes screen bytes).2 = (c'.sendBytes screen bytes).2 := by
  obtain ⟨houtcome, hlink⟩ := hR bytes h.link
  unfold Channel.sendBytes
  rw [h.remote]
  split
  · generalize HostLink.send c.link bytes = sent at houtcome hlink ⊢
    generalize HostLink.send c'.link bytes = sent' at houtcome hlink ⊢
    obtain ⟨refusal, link⟩ := sent
    obtain ⟨refusal', link'⟩ := sent'
    obtain rfl : refusal = refusal' := houtcome
    cases refusal with
    | none => exact ⟨{ h with link := hlink, remote := rfl }, rfl⟩
    | some reason => exact ⟨{ h with link := hlink, remote := rfl, lost := rfl }, rfl⟩
  · exact ⟨h, rfl⟩

/-- Links that refuse the same writes keep their channels in the same state, whatever
the channels are used for. -/
theorem Alike.kept
    (hR : ∀ {l l'} (bytes : List UInt8), R l l' →
      (HostLink.send l bytes).1 = (HostLink.send l' bytes).1 ∧
        R (HostLink.send l bytes).2 (HostLink.send l' bytes).2) :
    Kept (Alike R) where
  remote := fun h => h.remote
  pending := fun h => h.pending
  arm := fun _ h => { h with pending := rfl }
  disarm := fun h => { h with pending := rfl }
  sendBytes := fun screen bytes h => h.sendBytes hR screen bytes

omit [HostLink L'] in
/-- Writing neither queues an acknowledgement nor forgets one. -/
@[simp]
theorem ackPending_sendBytes (c : Channel L) (screen : Screen) (bytes : List UInt8) :
    (c.sendBytes screen bytes).1.ackPending = c.ackPending := by
  unfold Channel.sendBytes
  split
  · split
    · rfl
    · rfl
  · rfl

omit [HostLink L'] in
/-- Nor does the release of a reply. -/
theorem ackPending_release (c : Channel L) (screen : Screen) :
    (c.release screen).1.ackPending = c.ackPending := by
  unfold Channel.release
  split
  · rfl
  · exact ackPending_sendBytes _ _ _

/-- What is known of the waiting acknowledgements is kept by all uses of the
channel. -/
theorem Kept.and_ackPending {C : Channel L → Channel L' → Prop} (hC : Kept C)
    (K : Bool → Bool → Prop) :
    Kept fun c c' => C c c' ∧ K c.ackPending c'.ackPending where
  remote := fun h => hC.remote h.1
  pending := fun h => hC.pending h.1
  arm := fun reply h => ⟨hC.arm reply h.1, h.2⟩
  disarm := fun h => ⟨hC.disarm h.1, h.2⟩
  sendBytes := fun screen bytes h => by
    obtain ⟨hchannel, hscreen⟩ := hC.sendBytes screen bytes h.1
    rw [ackPending_sendBytes, ackPending_sendBytes]
    exact ⟨⟨hchannel, h.2⟩, hscreen⟩

/-- An acknowledgement that waits on both sides or on neither is sent alike. -/
theorem Kept.flushAck {C : Channel L → Channel L' → Prop} (hC : Kept C) (screen : Screen)
    (h : C c c') (hcleared : C { c with ackPending := false } { c' with ackPending := false })
    (hack : c.ackPending = c'.ackPending) :
    C (c.flushAck screen).1 (c'.flushAck screen).1 ∧
      (c.flushAck screen).2 = (c'.flushAck screen).2 := by
  unfold Channel.flushAck
  rw [hack]
  split
  · exact hC.sendBytes screen [Byte.ack] hcleared
  · exact ⟨h, rfl⟩

end Channel

end GraphicsTerminal
