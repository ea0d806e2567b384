import GraphicsTerminal.Proofs.Engine.Drawing
import GraphicsTerminal.Proofs.Protocol.Outlook
import GraphicsTerminal.Proofs.Terminal.Enquiry

/-!
# The two memories of an engine

The alphanumeric screen and the picture are two memories, and no byte carries anything
from one of them to the other.  Two engines with the same screen keep it the same over
the same bytes, whatever became of their pictures; and two engines that made the same
calls go on to make the same ones, whatever stands on their screens.  The only way from
one memory to the other would be a channel that writes replies on the screen, so the
channel has to stay connected.

Main definitions:

- {lit}`Channel.Connected`: a remote channel over a link that accepts every write.
- {lit}`Engine.DrawsOnly`: nothing but the picture changed.
- {lit}`Engine.SameText`, {lit}`Engine.SamePicture`: two engines that share one of the
  memories.

Main results:

- Theorem {lit}`Engine.parser_of_receive`: how a byte moves the parser of an engine.
- Theorem {lit}`Engine.SameText.foldlM`: the same bytes keep the same screen.
- Theorem {lit}`Engine.SamePicture.of_foldlM`: the same bytes keep the same picture.
-/

namespace GraphicsTerminal

/-! ## Connected channels -/

namespace Channel

variable {L : Type} [HostLink L] {c : Channel L}

/-- A remote channel over a link that accepts every write. -/
structure Connected (c : Channel L) : Prop where
  remote : c.remote = true
  reliable : HostLink.Reliable c.link
  lost : c.lost = none

namespace Connected

/-- The link takes all bytes, and none is echoed on the screen. -/
theorem sendBytes (h : c.Connected) (screen : Screen) (bytes : List UInt8) :
    (c.sendBytes screen bytes).1.Connected ∧ (c.sendBytes screen bytes).2 = screen := by
  rw [sendBytes_of_reliable h.remote h.reliable]
  exact ⟨{ h with reliable := h.reliable.next bytes }, rfl⟩

/-- A connected channel stays so, and never writes to the screen. -/
theorem carry (h : c.Connected) (screen : Screen) (source : TapeSource) (traffic : Traffic) :
    (c.carry screen source traffic).1.Connected ∧
      (c.carry screen source traffic).2 = screen := by
  cases traffic with
  | quiet => exact ⟨h, rfl⟩
  | arm reply => exact ⟨{ h with }, rfl⟩
  | release =>
    simp only [Channel.carry, release]
    split
    · exact ⟨h, rfl⟩
    · exact sendBytes (c := { c with pending := none }) { h with } screen _
  | send bytes => exact h.sendBytes screen bytes
  | transfer =>
    simp only [Channel.carry, Transfer.stream_snd]
    let R (target target' : Channel L × Screen) : Prop :=
      target = target' ∧ target.1.Connected ∧ target.2 = screen
    have hbyte : ∀ target target' b, R target target' →
        (Engine.transferByte target b).1 = (Engine.transferByte target' b).1 ∧
          R (Engine.transferByte target b).2 (Engine.transferByte target' b).2 := by
      rintro target _ b ⟨rfl, hconnected, hscreen⟩
      obtain ⟨hsent, hkept⟩ := hconnected.sendBytes target.2 [b]
      exact ⟨rfl, rfl, hsent, hkept.trans hscreen⟩
    exact (Transfer.sendAll_related hbyte ⟨rfl, h, rfl⟩ source.sentBytes).2.2

end Connected

end Channel

namespace Engine

variable {L S : Type} [HostLink L] [Surface S]

/-! ## Drawing alone -/

/-- Between two engines nothing but the picture changed. -/
structure DrawsOnly (e e' : Engine L S) : Prop where
  eq : e' = { e with surface := e'.surface, graphics := e'.graphics }

namespace DrawsOnly

variable {e e' e'' : Engine L S}

omit [HostLink L] [Surface S] in
/-- What neither of two steps changed is unchanged after both. -/
theorem trans (h : e.DrawsOnly e') (h' : e'.DrawsOnly e'') : e.DrawsOnly e'' := by
  obtain ⟨h⟩ := h
  obtain ⟨h'⟩ := h'
  rw [h] at h'
  exact ⟨h'⟩

omit [HostLink L] [Surface S] in
/-- If every step only draws, so does a list of them. -/
theorem foldl {α : Type} {step : Engine L S → α → Engine L S}
    (hstep : ∀ (e : Engine L S) a, e.DrawsOnly (step e a)) (e : Engine L S) (as : List α) :
    e.DrawsOnly (as.foldl step e) := by
  induction as generalizing e with
  | nil => exact ⟨rfl⟩
  | cons a as ih => exact (hstep e a).trans (ih (step e a))

end DrawsOnly

omit [HostLink L] in
/-- A drawing sequence changes nothing but the picture. -/
theorem drawsOnly_applyMode (e : Engine L S) (op : ModeOp) : e.DrawsOnly (e.applyMode op) := by
  cases op with
  | _ => exact ⟨rfl⟩

omit [HostLink L] in
/-- A plot body changes nothing but the picture, whatever its bytes are. -/
theorem drawsOnly_drawPlot (e : Engine L S) (body : Payload) : e.DrawsOnly (e.drawPlot body) :=
  DrawsOnly.foldl (fun _ _ => ⟨rfl⟩) e _

/-! ## The parser of an engine -/

omit [HostLink L] in
/-- A reset leaves the parser alone. -/
theorem parser_reset (e : Engine L S) (hard : Bool) : (e.reset hard).parser = e.parser := by
  simp only [reset, bell]
  split <;> rfl

omit [HostLink L] [Surface S] in
theorem parser_modifyScreen (e : Engine L S) (f : Screen → Screen) :
    (e.modifyScreen f).parser = e.parser := rfl

/-- No sequence of one letter changes the parser, a reset included. -/
theorem parser_applySingle (e : Engine L S) (command : SingleCommand) :
    (e.applySingle command).parser = e.parser := by
  cases command with
  | hardReset => exact e.parser_reset true
  | softReset => exact e.parser_reset false
  | insertLine => exact e.parser_modifyScreen _
  | deleteLine => exact e.parser_modifyScreen _
  | _ => rfl

omit [Surface S] in
/-- A control sequence that is not refused leaves the parser alone. -/
theorem parser_of_applyControl {e e' : Engine L S} {command : ControlSequence}
    (h : e.applyControl command = .ok e') : e'.parser = e.parser := by
  cases command with
  | insertChars count =>
    rcases Fault.exists_of_map h with ⟨screen, -, rfl⟩
    rfl
  | _ =>
    cases h
    rfl

omit [HostLink L] in
theorem parser_applyDisplay (e : Engine L S) (ops : List DisplayOp) :
    (ops.foldl applyDisplay e).parser = e.parser := by
  induction ops generalizing e with
  | nil => rfl
  | cons op ops ih =>
    rw [List.foldl_cons, ih]
    cases op with
    | _ => rfl

/-- A status query leaves the parser alone, the one for a click apart. -/
theorem parser_applyStatus (e : Engine L S) {query : Option Int} (h : query ≠ some 4) :
    (e.applyStatus query).parser = e.parser := by
  unfold applyStatus
  split
  case h_4 => exact absurd rfl h
  all_goals rfl

/-- Only the query that asks for a click moves the parser. -/
theorem parser_of_apply {e e' : Engine L S} {action : Action}
    (hquery : action ≠ .status (some 4)) (h : e.apply action = .ok e') :
    e'.parser = e.parser := by
  cases action with
  | control command => exact parser_of_applyControl h
  | data b =>
    cases h
    unfold putData
    split_ifs <;> rfl
  | bell =>
    cases h
    unfold bell
    split_ifs <;> rfl
  | single command =>
    cases h
    exact e.parser_applySingle command
  | display ops =>
    cases h
    exact e.parser_applyDisplay ops
  | drawing ops =>
    cases h
    rw [(DrawsOnly.foldl drawsOnly_applyMode e ops).eq]
  | plot body =>
    cases h
    rw [(e.drawsOnly_drawPlot body).eq]
  | status query =>
    cases h
    exact e.parser_applyStatus fun heq => hquery (congrArg Action.status heq)
  | keyLabels command =>
    cases h
    cases command with
    | _ => rfl
  | _ =>
    cases h
    rfl

/-- How a byte moves the parser. -/
theorem parser_of_receive {e e' : Engine L S} {b : UInt8} (hb : b ≠ Byte.enq)
    (h : e.receive b = .ok e') : e'.parser = e.parser.next b := by
  rw [receive, if_neg hb] at h
  rcases Fault.exists_of_map h with ⟨next, hinterpret, rfl⟩
  rw [parser_reportLoss, Parser.next]
  simp only [interpret] at hinterpret
  cases haction : (e.parser.advance b).1 with
  | none =>
    rw [haction] at hinterpret
    cases hinterpret
    rw [if_neg (Option.some_ne_none _).symm]
  | some action =>
    rw [haction] at hinterpret
    by_cases hquery : action = .status (some 4)
    · subst hquery
      cases hinterpret
      rw [if_pos rfl]
      rfl
    · rw [if_neg fun hsome => hquery (Option.some.inj hsome)]
      exact parser_of_apply hquery hinterpret

/-- Bytes that are taken move the parser as if there were no engine around it. -/
theorem parser_of_foldlM {e e' : Engine L S} {bytes : List UInt8} (hbytes : Byte.enq ∉ bytes)
    (h : bytes.foldlM receive e = .ok e') : e'.parser = bytes.foldl Parser.next e.parser := by
  induction bytes generalizing e with
  | nil =>
    cases h
    rfl
  | cons b rest ih =>
    obtain ⟨hb, hrest⟩ := List.ne_and_not_mem_of_not_mem_cons hbytes
    rw [List.foldlM_cons] at h
    rcases Fault.exists_of_bind h with ⟨next, hreceive, hlater⟩
    rw [ih hrest hlater, parser_of_receive (Ne.symm hb) hreceive, List.foldl_cons]

/-! ## Engines with the same screen -/

/-- Two engines with the same screen, whatever became of their pictures.  Their channels
cannot write on it. -/
structure SameText (e e' : Engine L S) : Prop where
  settings : e.settings = e'.settings
  screen : e.screen = e'.screen
  alphaActive : e.alphaActive = e'.alphaActive
  connected : e.channel.Connected
  connected' : e'.channel.Connected
  outlook : e.parser.outlook = e'.parser.outlook

namespace SameText

variable {e e' : Engine L S}

omit [Surface S] in
theorem modifyScreen (h : SameText e e') (f : Screen → Screen) :
    SameText (e.modifyScreen f) (e'.modifyScreen f) :=
  { h with screen := congrArg f h.screen }

omit [Surface S] in
/-- Whatever the channels are used for, the screen stays as it is. -/
theorem carry (h : SameText e e') (traffic traffic' : Traffic) :
    SameText (e.carry traffic) (e'.carry traffic') := by
  obtain ⟨hconnected, hkept⟩ := h.connected.carry e.screen (e.tape e.surface) traffic
  obtain ⟨hconnected', hkept'⟩ := h.connected'.carry e'.screen (e'.tape e'.surface) traffic'
  exact
    { h with
      screen := hkept.trans (h.screen.trans hkept'.symm)
      connected := hconnected
      connected' := hconnected' }

omit [Surface S] in
/-- A data byte is printed on both screens or on neither. -/
theorem putData (h : SameText e e') (b : UInt8) : SameText (e.putData b) (e'.putData b) := by
  unfold Engine.putData
  rw [← h.alphaActive, ← h.settings]
  split
  · split
    · exact h.modifyScreen _
    · exact h.modifyScreen _
  · exact h

omit [Surface S] in
/-- The bell rings or is kept silent on both sides, and no screen shows it. -/
theorem bell (h : SameText e e') : SameText e.bell e'.bell := by
  unfold Engine.bell
  rw [← h.settings]
  split
  · exact { h with }
  · exact h

/-- Equal screens are equal after a reset, and letters are shown again. -/
theorem reset (h : SameText e e') (hard : Bool) : SameText (e.reset hard) (e'.reset hard) :=
  { h.bell.modifyScreen (·.reset hard) with alphaActive := rfl }

/-- A sequence of one letter reads the screen alone to change it. -/
theorem applySingle (h : SameText e e') (command : SingleCommand) :
    SameText (e.applySingle command) (e'.applySingle command) := by
  unfold Engine.applySingle
  cases command with
  | hardReset => exact h.reset true
  | softReset => exact h.reset false
  | setTab => exact h.modifyScreen fun s => s.modifyTabs (·.set s.cursor.column)
  | clearTab => exact h.modifyScreen fun s => s.modifyTabs (·.clear s.cursor.column)
  | cursorSense => exact h.carry (.arm _) (.arm _)
  | sendLine => exact h.carry (.arm _) (.arm _)
  | fileTransfer => exact h.carry .transfer .transfer
  | primaryStatus => exact h.carry (.arm _) (.arm _)
  | secondaryStatus => exact h.carry (.arm _) (.arm _)
  | inert code => exact h
  | _ => exact h.modifyScreen _

omit [Surface S] in
theorem applyKeyLabels (h : SameText e e') (command : KeyLabelCommand) :
    SameText (e.applyKeyLabels command) (e'.applyKeyLabels command) := by
  unfold Engine.applyKeyLabels
  cases command with
  | inert code => exact h
  | _ => exact h.modifyScreen _

omit [Surface S] in
/-- A control sequence is refused on both sides or on neither. -/
theorem applyControl (h : SameText e e') (command : ControlSequence) :
    Matches SameText (e.applyControl command) (e'.applyControl command) := by
  unfold Engine.applyControl
  cases command with
  | insertChars count =>
    simp only [← h.screen]
    cases e.screen.insertChars count.toNat with
    | error fault => exact .error fault
    | ok screen => exact .ok { h with screen := rfl }
  | cursorReport => exact .ok (h.carry (.send _) (.send _))
  | _ => exact .ok (h.modifyScreen _)

/-- A display operation on letters is the same on both sides, and the others do not touch
the screen. -/
theorem applyDisplay (h : SameText e e') (op : DisplayOp) :
    SameText (e.applyDisplay op) (e'.applyDisplay op) := by
  unfold Engine.applyDisplay
  cases op with
  | alphaVisible on => exact { h with alphaActive := rfl }
  | alphaCursorVisible on => exact h.modifyScreen _
  | _ => exact { h with }

/-- The operations of a display sequence, one after another. -/
theorem foldl_applyDisplay (h : SameText e e') (ops : List DisplayOp) :
    SameText (ops.foldl Engine.applyDisplay e) (ops.foldl Engine.applyDisplay e') := by
  induction ops generalizing e e' with
  | nil => exact h
  | cons op ops ih => exact ih (h.applyDisplay op)

/-- A status query changes no screen; both parsers wait for the click, or neither does. -/
theorem applyStatus (h : SameText e e') (query : Option Int) :
    SameText (e.applyStatus query) (e'.applyStatus query) := by
  unfold Engine.applyStatus
  split
  case h_4 => exact { h with outlook := Parser.outlook_awaitClick h.outlook }
  case h_7 => exact h.carry (.send _) (.send _)
  all_goals exact h.carry (.arm _) (.arm _)

omit [HostLink L] [Surface S] in
/-- Only the picture changed, on both sides. -/
theorem drawsOnly [HostLink L] {n n' : Engine L S} (h : SameText e e') (hn : e.DrawsOnly n)
    (hn' : e'.DrawsOnly n') : SameText n n' := by
  rw [hn.eq, hn'.eq]
  exact { h with }

/-- An action does the same to both screens. -/
theorem apply (h : SameText e e') (action : Action) :
    Matches SameText (e.apply action) (e'.apply action) := by
  unfold Engine.apply
  cases action with
  | data b => exact .ok (h.putData b)
  | bell => exact .ok h.bell
  | handshake => exact .ok (h.carry .release .release)
  | single command => exact .ok (h.applySingle command)
  | control command => exact h.applyControl command
  | display ops => exact .ok (h.foldl_applyDisplay ops)
  | drawing ops =>
    exact .ok (h.drawsOnly (.foldl drawsOnly_applyMode e ops) (.foldl drawsOnly_applyMode e' ops))
  | plot body => exact .ok (h.drawsOnly (e.drawsOnly_drawPlot body) (e'.drawsOnly_drawPlot body))
  | status query => exact .ok (h.applyStatus query)
  | cursorAddress terms => exact .ok (h.modifyScreen _)
  | enhance codes => exact .ok (h.modifyScreen _)
  | keyLabels command => exact .ok (h.applyKeyLabels command)
  | keyboardLock locked => exact .ok (h.modifyScreen _)
  | charset charset => exact .ok (h.modifyScreen fun s => { s with charset := charset })
  | textPen pen => exact .ok { h with }
  | graphicsText text => exact .ok { h with }
  | inert payload => exact .ok h
  | unrecognized payload => exact .ok h

omit [Surface S] in
/-- A connected channel has no loss to tell. -/
theorem reportLoss (h : SameText e e') : SameText e.reportLoss e'.reportLoss := by
  rw [reportLoss_of_none h.connected.lost, reportLoss_of_none h.connected'.lost]
  exact h

/-- A byte does the same to both screens. -/
theorem receive (h : SameText e e') {b : UInt8} (hb : b ≠ Byte.enq) :
    Matches SameText (e.receive b) (e'.receive b) := by
  have hadvanced : SameText { e with parser := (e.parser.advance b).2 }
      { e' with parser := (e'.parser.advance b).2 } :=
    { h with outlook := Parser.outlook_advance b h.outlook }
  have hinterpret : Matches SameText (e.interpret b) (e'.interpret b) := by
    simp only [interpret, ← Parser.advance_fst_eq b h.outlook]
    cases (e.parser.advance b).1 with
    | none => exact .ok hadvanced
    | some action => exact hadvanced.apply action
  rw [Engine.receive, Engine.receive, if_neg hb, if_neg hb]
  exact hinterpret.map fun _ _ hnext => hnext.reportLoss

/-- The same bytes keep the same screen. -/
theorem foldlM (h : SameText e e') {bytes : List UInt8} (hbytes : Byte.enq ∉ bytes) :
    Matches SameText (bytes.foldlM Engine.receive e) (bytes.foldlM Engine.receive e') := by
  induction bytes generalizing e e' with
  | nil => exact .ok h
  | cons b rest ih =>
    obtain ⟨hb, hrest⟩ := List.ne_and_not_mem_of_not_mem_cons hbytes
    rw [List.foldlM_cons, List.foldlM_cons]
    exact (h.receive (Ne.symm hb)).bind fun _ _ hnext => ih hnext hrest

end SameText

/-! ## Engines with the same picture -/

/-- Two engines that made the same calls, whatever stands on their screens. -/
structure SamePicture (e e' : Engine L (LoggedSurface S)) : Prop where
  graphics : e.graphics = e'.graphics
  calls : e.surface.calls = e'.surface.calls
  outlook : e.parser.outlook = e'.parser.outlook

namespace SamePicture

variable {e e' n n' : Engine L (LoggedSurface S)}

/-- A byte that both engines take makes the same calls on both sides. -/
theorem of_receive (h : SamePicture e e') {b : UInt8} (hb : b ≠ Byte.enq)
    (hn : e.receive b = .ok n) (hn' : e'.receive b = .ok n') : SamePicture n n' := by
  have hcalls : e.byteCalls b = e'.byteCalls b := by
    rw [byteCalls, byteCalls, if_neg hb, if_neg hb, Parser.advance_fst_eq b h.outlook, h.graphics]
  have hdraws := draws_of_receive hn
  have hdraws' := draws_of_receive hn'
  exact
    { graphics := by rw [hdraws.graphics_eq, hdraws'.graphics_eq, hcalls, h.graphics]
      calls := by
        rw [hdraws.surface_eq, hdraws'.surface_eq, LoggedSurface.calls_callAll,
          LoggedSurface.calls_callAll, hcalls, h.calls]
      outlook := by
        rw [parser_of_receive hb hn, parser_of_receive hb hn']
        exact Parser.outlook_next b h.outlook }

/-- The same bytes keep the same picture. -/
theorem of_foldlM (h : SamePicture e e') {bytes : List UInt8} (hbytes : Byte.enq ∉ bytes)
    (hn : bytes.foldlM Engine.receive e = .ok n)
    (hn' : bytes.foldlM Engine.receive e' = .ok n') : SamePicture n n' := by
  induction bytes generalizing e e' with
  | nil =>
    cases hn
    cases hn'
    exact h
  | cons b rest ih =>
    obtain ⟨hb, hrest⟩ := List.ne_and_not_mem_of_not_mem_cons hbytes
    rw [List.foldlM_cons] at hn hn'
    rcases Fault.exists_of_bind hn with ⟨next, hreceive, hlater⟩
    rcases Fault.exists_of_bind hn' with ⟨next', hreceive', hlater'⟩
    exact ih (h.of_receive (Ne.symm hb) hreceive hreceive') hrest hlater hlater'

end SamePicture

end Engine

end GraphicsTerminal
