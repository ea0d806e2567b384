import GraphicsTerminal.Proofs.Engine.Channels

/-!
# Transfers

A transfer sends its bytes one by one, and ends with the first byte that is refused.  So either
all of its bytes are accepted, or some of them are, up to one that is refused; and which of the
two happens is decided by the sender alone.  Over a remote channel the sender is the link: a
refusal makes the channel local, but the transfer shows nothing after the notice of the loss.

Main definitions:

- {lit}`Transfer.Accepts`: no byte is refused.
- {lit}`Transfer.RefusedAt`: the first byte that is refused.
- {lit}`Transfer.Streams`: the results of a transfer.

Main results:

- Theorem {lit}`Transfer.accepts_or_refusedAt`: one of the two happens.
- Theorem {lit}`Transfer.streams`: a transfer gives the results that are due.
- Theorems {lit}`Engine.runTransfer_of_accepts` and {lit}`Engine.runTransfer_of_refusedAt`: what a
  transfer does to an engine whose channel is remote.
-/

namespace GraphicsTerminal

/-- The result of a transfer in which no byte is refused. -/
def TapeSource.outcome : TapeSource → Except TransferError Nat
  | image bytes => .ok bytes.length
  | unreadable why => .error (.source why)

/-! ## Senders -/

namespace Transfer

section

variable {σ : Type} (send : σ → UInt8 → Option String × σ)

/-- Bytes are sent one by one, and none is refused. -/
inductive Accepts : σ → List UInt8 → σ → Prop
  | done (s : σ) : Accepts s [] s
  | next {s next last : σ} {b : UInt8} {rest : List UInt8} (hb : send s b = (none, next))
      (hrest : Accepts next rest last) : Accepts s (b :: rest) last

/-- Bytes are sent one by one, and one is refused when those in front of it were accepted. -/
structure RefusedAt (s : σ) (bytes front : List UInt8) (b : UInt8) (reason : String)
    (last : σ) : Prop where
  stands : front ++ [b] <+: bytes
  refused : ∃ before, Accepts send s front before ∧ send before b = (some reason, last)

/-- The results of a transfer: the number of bytes of the image, when there is an image and no
byte was refused; the reason why there is none, when this could be told; or the reason of the
first refusal. -/
structure Streams (source : TapeSource) (s : σ) : Prop where
  ok : ∀ n last, stream source send s = (.ok n, last) ↔
    ∃ bytes, source = .image bytes ∧ n = bytes.length ∧ Accepts send s (bytes ++ trailer) last
  unreadable : ∀ why last, stream source send s = (.error (.source why), last) ↔
    source = .unreadable why ∧ Accepts send s failedTrailer last
  refused : ∀ reason last, stream source send s = (.error (.link reason), last) ↔
    ∃ front b, RefusedAt send s source.sentBytes front b reason last

end

variable {σ : Type} {send : σ → UInt8 → Option String × σ} {s last : σ} {bytes : List UInt8}

theorem sendAll_eq_none_iff : sendAll send s bytes = (none, last) ↔ Accepts send s bytes last := by
  constructor
  · intro h
    induction bytes generalizing s with
    | nil =>
      cases h
      exact .done _
    | cons b rest ih =>
      rw [sendAll] at h
      split at h
      · next hb => exact .next hb (ih h)
      · cases h
  · intro h
    induction h with
    | done s => rfl
    | next hb hrest ih =>
      rw [sendAll, hb]
      exact ih

theorem sendAll_eq_some_iff {reason : String} :
    sendAll send s bytes = (some reason, last) ↔
      ∃ front b, RefusedAt send s bytes front b reason last := by
  constructor
  · intro h
    induction bytes generalizing s with
    | nil => cases h
    | cons b rest ih =>
      rw [sendAll] at h
      split at h
      · next hb =>
        obtain ⟨front, c, hstands, before, haccepted, hc⟩ := ih h
        exact ⟨b :: front, c, List.cons_prefix_cons.2 ⟨rfl, hstands⟩, before,
          .next hb haccepted, hc⟩
      · next hb =>
        cases h
        exact ⟨[], b, List.prefix_append [b] rest, s, .done s, hb⟩
  · rintro ⟨front, b, ⟨rest, rfl⟩, before, haccepted, hb⟩
    induction haccepted with
    | done s => rw [List.nil_append, List.singleton_append, sendAll, hb]
    | next hc hrest ih =>
      rw [List.cons_append, List.cons_append, sendAll, hc]
      exact ih hb

/-- Either all bytes are accepted, or one of them is refused. -/
theorem accepts_or_refusedAt (send : σ → UInt8 → Option String × σ) (s : σ) (bytes : List UInt8) :
    (∃ last, Accepts send s bytes last) ∨
      ∃ front b reason last, RefusedAt send s bytes front b reason last := by
  cases hsent : sendAll send s bytes with
  | mk refusal last =>
    cases refusal with
    | none => exact .inl ⟨last, sendAll_eq_none_iff.1 hsent⟩
    | some reason =>
      obtain ⟨front, b, hrefused⟩ := sendAll_eq_some_iff.1 hsent
      exact .inr ⟨front, b, reason, last, hrefused⟩

theorem stream_of_accepts {source : TapeSource} (h : Accepts send s source.sentBytes last) :
    stream source send s = (source.outcome, last) := by
  have hsent := sendAll_eq_none_iff.2 h
  cases source with
  | image bytes =>
    rw [TapeSource.sentBytes] at hsent
    rw [stream, hsent]
    rfl
  | unreadable why =>
    rw [TapeSource.sentBytes] at hsent
    rw [stream, hsent]
    rfl

theorem stream_of_refusedAt {source : TapeSource} {front : List UInt8} {b : UInt8}
    {reason : String} (h : RefusedAt send s source.sentBytes front b reason last) :
    stream source send s = (.error (.link reason), last) := by
  have hsent := sendAll_eq_some_iff.2 ⟨front, b, h⟩
  cases source with
  | image bytes =>
    rw [TapeSource.sentBytes] at hsent
    rw [stream, hsent]
  | unreadable why =>
    rw [TapeSource.sentBytes] at hsent
    rw [stream, hsent]

/-- A transfer gives the results that are due. -/
theorem streams (send : σ → UInt8 → Option String × σ) (source : TapeSource) (s : σ) :
    Streams send source s where
  ok := by
    intro n last
    constructor
    · intro h
      rcases accepts_or_refusedAt send s source.sentBytes with
        ⟨_, haccepted⟩ | ⟨_, _, _, _, hrefused⟩
      · rw [stream_of_accepts haccepted] at h
        cases source with
        | image bytes =>
          cases h
          exact ⟨bytes, rfl, rfl, haccepted⟩
        | unreadable why => cases h
      · rw [stream_of_refusedAt hrefused] at h
        cases h
    · rintro ⟨bytes, rfl, rfl, haccepted⟩
      exact stream_of_accepts haccepted
  unreadable := by
    intro why last
    constructor
    · intro h
      rcases accepts_or_refusedAt send s source.sentBytes with
        ⟨_, haccepted⟩ | ⟨_, _, _, _, hrefused⟩
      · rw [stream_of_accepts haccepted] at h
        cases source with
        | image bytes => cases h
        | unreadable why =>
          cases h
          exact ⟨rfl, haccepted⟩
      · rw [stream_of_refusedAt hrefused] at h
        cases h
    · rintro ⟨rfl, haccepted⟩
      exact stream_of_accepts haccepted
  refused := by
    intro reason last
    constructor
    · intro h
      rcases accepts_or_refusedAt send s source.sentBytes with
        ⟨_, haccepted⟩ | ⟨front, b, _, _, hrefused⟩
      · rw [stream_of_accepts haccepted] at h
        cases source with
        | image bytes => cases h
        | unreadable why => cases h
      · rw [stream_of_refusedAt hrefused] at h
        cases h
        exact ⟨front, b, hrefused⟩
    · rintro ⟨front, b, hrefused⟩
      exact stream_of_refusedAt hrefused

end Transfer

/-! ## Transfers over a remote channel -/

/-- The write of a single byte. -/
def HostLink.sendByte {L : Type} [HostLink L] (link : L) (b : UInt8) : Option String × L :=
  HostLink.send link [b]

namespace Engine

open Transfer

variable {L S : Type} [HostLink L]

theorem transferByte_of_accepted {c : Channel L} (hremote : c.remote = true) (screen : Screen)
    {b : UInt8} {link : L} (h : HostLink.sendByte c.link b = (none, link)) :
    transferByte (c, screen) b = (none, ({ c with link := link }, screen)) := by
  rw [transferByte, Channel.sendByte, Channel.sendBytes_of_accepted hremote screen h]
  simp [hremote]

theorem transferByte_of_refused {c : Channel L} (hremote : c.remote = true) (screen : Screen)
    {b : UInt8} {link : L} {reason : String}
    (h : HostLink.sendByte c.link b = (some reason, link)) :
    transferByte (c, screen) b =
      (some "host link lost", ({ c with link := link, remote := false, lost := some reason },
        screen.putText ("\r\n" ++ Channel.lossNotice reason ++ "\r\n"))) := by
  rw [transferByte, Channel.sendByte, Channel.sendBytes_of_refused hremote screen h]
  simp [hremote]

/-- Bytes that a link accepts are accepted by the channel, and the screen stays. -/
theorem accepts_transferByte {c : Channel L} (hremote : c.remote = true) (screen : Screen)
    {bytes : List UInt8} {link : L} (h : Accepts HostLink.sendByte c.link bytes link) :
    Accepts transferByte (c, screen) bytes ({ c with link := link }, screen) := by
  generalize hlink : c.link = first at h
  induction h generalizing c with
  | done first =>
    subst hlink
    exact .done _
  | next hb hrest ih =>
    subst hlink
    exact .next (transferByte_of_accepted hremote screen hb) (ih hremote rfl)

/-- A byte that a link refuses is refused by the channel, which shows a notice. -/
theorem refusedAt_transferByte {c : Channel L} (hremote : c.remote = true) (screen : Screen)
    {bytes front : List UInt8} {b : UInt8} {reason : String} {link : L}
    (h : RefusedAt HostLink.sendByte c.link bytes front b reason link) :
    RefusedAt transferByte (c, screen) bytes front b "host link lost"
      ({ c with link := link, remote := false, lost := some reason },
        screen.putText ("\r\n" ++ Channel.lossNotice reason ++ "\r\n")) := by
  obtain ⟨hstands, before, haccepted, hb⟩ := h
  exact ⟨hstands, _, accepts_transferByte hremote screen haccepted,
    transferByte_of_refused (c := { c with link := before }) hremote screen hb⟩

/-- The bytes of a transfer. -/
def tapeBytes (e : Engine L S) : List UInt8 := (e.tape e.surface).sentBytes

/-- A transfer that the link accepts changes nothing but the link.  It does not look at the
parser. -/
theorem runTransfer_of_accepts {e : Engine L S} (hremote : e.channel.remote = true) {link : L}
    (h : Transfer.Accepts HostLink.sendByte e.channel.link e.tapeBytes link) (p : Parser) :
    { e with parser := p }.runTransfer =
      { e with parser := p, channel := { e.channel with link := link } } := by
  have hstream := stream_of_accepts (accepts_transferByte hremote e.screen h)
  simp only [runTransfer, useChannel, hstream]

/-- A transfer that the link refuses at some byte makes the channel local, and shows the notice
of this loss only. -/
theorem runTransfer_of_refusedAt {e : Engine L S} (hremote : e.channel.remote = true)
    {front : List UInt8} {b : UInt8} {reason : String} {link : L}
    (h : RefusedAt HostLink.sendByte e.channel.link e.tapeBytes front b reason link)
    (p : Parser) :
    { e with parser := p }.runTransfer =
      { e with
        parser := p
        channel := { e.channel with link := link, remote := false, lost := some reason }
        screen := e.screen.putText ("\r\n" ++ Channel.lossNotice reason ++ "\r\n") } := by
  have hstream := stream_of_refusedAt (refusedAt_transferByte hremote e.screen h)
  simp only [runTransfer, useChannel, hstream]

end Engine

end GraphicsTerminal
