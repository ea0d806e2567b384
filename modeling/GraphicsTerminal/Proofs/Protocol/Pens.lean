import GraphicsTerminal.Proofs.Protocol.Bodies
import GraphicsTerminal.Proofs.Protocol.Interruptions

/-!
# Numbers of pens

Pens are counted from one, but the number that the host sends for a pen is counted from zero, and
nothing stops it from being negative.  So a sequence can choose a pen that there is not.

Main definitions:

- {lit}`Parser.Origin`: what an action was made of.
- {lit}`Action.ChoosesLowPen`: an action that chooses a pen below the first one.
- {lit}`GraphicsGroup.ChoosesLowPen`: a body that asks for such a pen.

Main results:

- Theorem {lit}`Parser.origin_of_advance`: where the actions of a stream come from.
- Theorem {lit}`Parser.feed_choosesLowPen`: the sequences that choose such a pen.
-/

namespace GraphicsTerminal

/-! ## What actions are made of -/

namespace Parser

/-- What an action was made of: a byte outside of sequences, a sequence, or graphics text. -/
inductive Origin : Action → Prop
  | handshake : Origin .handshake
  | bell : Origin .bell
  | data (b : UInt8) : Origin (.data b)
  | single (command : SingleCommand) : Origin (.single command)
  | control (command : ControlSequence) : Origin (.control command)
  | graphics (group : Option GraphicsGroup) (payload : Payload) :
      Origin (graphicsAction group payload)
  | device (group : DeviceGroup) (payload : Payload) (final : UInt8) :
      Origin (deviceAction group payload final)
  | charset (charset : Charset) : Origin (.charset charset)
  | text (text : String) : Origin (.graphicsText text)
  | unrecognized (bytes : List UInt8) : Origin (.unrecognized bytes)

variable {p : Parser} {b : UInt8} {action : Action}

/-- What is handed over was graphics text. -/
theorem origin_of_takeText (h : p.takeText.1 = some action) : Origin action := by
  unfold takeText at h
  split at h
  · cases h
  · cases h
    exact .text _

/-- A complete graphics sequence has its action from the collected bytes. -/
theorem origin_completeGraphics (p : Parser) (group : Option GraphicsGroup) :
    Origin (p.completeGraphics group).1 := by
  rw [(completeGraphics_eq p group).1]
  exact .graphics group p.payload

/-- Outside of sequences an action was made of one byte. -/
theorem origin_of_outside (hphase : p.phase = .idle ∨ p.phase = .awaitClick)
    (h : (p.advance b).1 = some action) : Origin action := by
  rcases advance_outside hphase h with rfl | rfl | rfl
  · exact .handshake
  · exact .bell
  · exact .data b

/-- Behind an escape byte an action was made of one letter, which may have no meaning. -/
theorem origin_of_advanceEscape (h : (p.advanceEscape b).1 = some action) : Origin action := by
  unfold advanceEscape at h
  split at h
  · cases h
  · cases h
  · cases h
  · cases h
  · generalize SingleCommand.decode? b = command at h
    cases command with
    | none =>
      cases h
      exact .unrecognized _
    | some command =>
      cases h
      exact .single command

/-- In brackets an action was made of a control sequence, which may have no meaning. -/
theorem origin_of_advanceBracket (h : (p.advanceBracket b).1 = some action) : Origin action := by
  simp only [advanceBracket] at h
  split at h
  · generalize (ControlSequence.decode? (p.collect b).payload).1 = command at h
    cases command with
    | none =>
      cases h
      exact .unrecognized _
    | some command =>
      cases h
      exact .control command
  · cases h

/-- A graphics sequence that ends or is interrupted has its action from the collected bytes. -/
theorem origin_of_advanceGraphics {group : Option GraphicsGroup}
    (h : (p.advanceGraphics group b).1 = some action) : Origin action := by
  simp only [advanceGraphics] at h
  split at h
  · cases h
    exact origin_completeGraphics _ group
  split at h
  · cases h
  split at h
  · cases h
    exact origin_completeGraphics _ _
  · cases h

/-- A device sequence has its action from the collected bytes. -/
theorem origin_of_advanceDevice {group : Option DeviceGroup}
    (h : (p.advanceDevice group b).1 = some action) : Origin action := by
  simp only [advanceDevice] at h
  split at h
  · cases h
    exact .device _ _ b
  · cases h

/-- An action in graphics text was made of the text. -/
theorem origin_of_advanceText (h : (p.advanceText b).1 = some action) : Origin action := by
  unfold advanceText at h
  split at h
  · exact origin_of_takeText h
  · cases h

/-- An action in a label was made of the text. -/
theorem origin_of_advanceLabel (h : (p.advanceLabel b).1 = some action) : Origin action := by
  unfold advanceLabel at h
  split at h
  · exact origin_of_takeText h
  · cases h

/-- Every action that a byte completes was made of a byte, a sequence or graphics text. -/
theorem origin_of_advance (h : (p.advance b).1 = some action) : Origin action := by
  by_cases houtside : p.phase = .idle ∨ p.phase = .awaitClick
  · exact origin_of_outside houtside h
  simp only [advance] at h
  split at h
  · cases h
  cases hphase : p.phase with
  | idle => exact absurd (.inl hphase) houtside
  | awaitClick => exact absurd (.inr hphase) houtside
  | inEscape =>
    rw [hphase] at h
    exact origin_of_advanceEscape h
  | inBracket =>
    rw [hphase] at h
    exact origin_of_advanceBracket h
  | inGraphics group =>
    rw [hphase] at h
    exact origin_of_advanceGraphics h
  | inDevice group =>
    rw [hphase] at h
    exact origin_of_advanceDevice h
  | inCharset =>
    rw [hphase] at h
    cases h
    exact .charset _
  | graphicsText =>
    rw [hphase] at h
    exact origin_of_advanceText h
  | graphicsLabel =>
    rw [hphase] at h
    exact origin_of_advanceLabel h

end Parser

/-! ## Low pens -/

/-- A term that chooses a pen below the first one, by a negative number. -/
def Term.ChoosesLowPen (t : Term) : Prop :=
  Byte.char t.letter = 'x' ∧ ∃ n < 0, t.number? 0 = some n

/-- An operation that chooses a pen below the first one. -/
def ModeOp.ChoosesLowPen : ModeOp → Prop
  | primaryPen pen => pen < 1
  | _ => False

/-- An action that chooses a pen below the first one, or one for text below that which follows
the other pen. -/
def Action.ChoosesLowPen : Action → Prop
  | drawing ops => ∃ op ∈ ops, op.ChoosesLowPen
  | textPen pen => pen < 0
  | _ => False

/-- A body that says so to its group. -/
def GraphicsGroup.ChoosesLowPen (body : List UInt8) : GraphicsGroup → Prop
  | mode => ∃ term ∈ (Term.split body).1, term.ChoosesLowPen
  | text => body.getLast? = some 0x58 ∧ ∃ n < -1, (Decimal.read? body).map (·.value) = some n
  | _ => False

/-- A number one higher is below a bound that is a word when the number is below its
predecessor. -/
theorem Word.add_one_lt_iff {n bound : Int} (hlow : Word.least < bound)
    (hhigh : bound ≤ Word.greatest) : Word.add n 1 < bound ↔ n < bound - 1 := by
  unfold Word.add Word.saturate Word.clamp
  omega

/-- A term chooses a low pen exactly by its letter and a negative first number. -/
theorem ModeOp.choosesLowPen_ofTerm_iff (t : Term) :
    (ofTerm t).ChoosesLowPen ↔ t.ChoosesLowPen := by
  by_cases hx : Byte.char t.letter = 'x'
  · have hpen : ofTerm t = primaryPen (Word.add ((t.number? 0).getD 0) 1) := by
      unfold ofTerm
      rw [hx]
      rfl
    rw [hpen, ModeOp.ChoosesLowPen, Term.ChoosesLowPen,
      Word.add_one_lt_iff (by decide) (by decide)]
    cases t.number? 0 with
    | none => simp
    | some n => simp [hx]
  · refine iff_of_false ?_ fun h => hx h.1
    unfold ofTerm
    split
    case h_9 hpen => exact absurd hpen hx
    case h_3 => split <;> exact id
    all_goals exact id

namespace Parser

variable {selector : UInt8} {body : List UInt8}

/-- The two bytes that name a sequence of the mode group choose no pen. -/
theorem not_choosesLowPen_of_mode (hgroup : GraphicsGroup.ofByte selector = .mode) {term : Term}
    (hterm : term ∈ (Term.split [0x2A, selector]).1) : ¬ term.ChoosesLowPen := by
  rintro ⟨hx, -⟩
  obtain ⟨b, hb, hletter⟩ := Term.letter_of_mem_split _ term hterm
  rw [hletter] at hx
  rcases List.mem_pair.1 hb with rfl | rfl
  · exact absurd hx (by decide)
  · unfold GraphicsGroup.ofByte at hgroup
    rw [hx] at hgroup
    cases hgroup

/-- A mode sequence chooses a low pen when one of the terms of its body does. -/
theorem choosesLowPen_mode_iff (hgroup : GraphicsGroup.ofByte selector = .mode)
    (body : List UInt8) :
    (graphicsAction (some .mode) (.ofList (0x2A :: selector :: body))).ChoosesLowPen ↔
      ∃ term ∈ (Term.split body).1, term.ChoosesLowPen := by
  have hterms : (graphicsAction (some .mode) (.ofList (0x2A :: selector :: body))).ChoosesLowPen ↔
      ∃ term ∈ (Term.split (Decoded.source selector body)).1, term.ChoosesLowPen := by
    simp only [graphicsAction, Action.ChoosesLowPen, ModeOp.decode, Payload.rest_seek_source,
      List.mem_map, exists_exists_and_eq_and, ModeOp.choosesLowPen_ofTerm_iff]
  rw [hterms]
  by_cases hbody : body = []
  · refine iff_of_false ?_ ?_
    · rw [Decoded.source, if_pos hbody]
      rintro ⟨term, hterm, hlow⟩
      exact not_choosesLowPen_of_mode hgroup hterm hlow
    · rw [hbody, Term.split]
      rintro ⟨term, hterm, -⟩
      cases hterm
  · rw [Decoded.source, if_neg hbody]

/-- A text-pen sequence chooses a low pen when its number is less than minus one. -/
theorem choosesLowPen_text_iff (hgroup : GraphicsGroup.ofByte selector = .text)
    (body : List UInt8) :
    (graphicsAction (some .text) (.ofList (0x2A :: selector :: body))).ChoosesLowPen ↔
      body.getLast? = some 0x58 ∧ ∃ n < -1, (Decimal.read? body).map (·.value) = some n := by
  have hlast : (Payload.ofList (0x2A :: selector :: body)).last? = some 0x58 ↔
      body.getLast? = some 0x58 := by
    rw [Payload.last?, Payload.ofList, List.back?_toArray, List.getLast?_cons_cons]
    cases body with
    | nil =>
      refine iff_of_false ?_ (by simp)
      rintro ⟨⟩
      cases hgroup
    | cons b body => rw [List.getLast?_cons_cons]
  by_cases hends : body.getLast? = some 0x58
  · have hbody : body ≠ [] := by
      rintro rfl
      cases hends
    have hnumber : ((Payload.ofList (0x2A :: selector :: body)).seek 2).readInt.1 =
        (Decimal.read? body).map (·.value) := by
      rw [Payload.readInt, Payload.rest_seek _ _ hbody]
      cases Decimal.read? body with
      | none => rfl
      | some r => rfl
    rw [graphicsAction, if_pos (hlast.2 hends), hnumber, Action.ChoosesLowPen,
      Word.add_one_lt_iff (by decide) (by decide)]
    cases Decimal.read? body with
    | none => simp
    | some r => simp [hends]
  · rw [graphicsAction, if_neg fun h => hends (hlast.1 h)]
    exact iff_of_false id fun h => hends h.1

/-- A graphics sequence chooses a low pen when its body says so. -/
theorem choosesLowPen_graphicsAction_iff (selector : UInt8) (body : List UInt8) :
    (graphicsAction (some (.ofByte selector))
        (.ofList (0x2A :: selector :: body))).ChoosesLowPen ↔
      (GraphicsGroup.ofByte selector).ChoosesLowPen body := by
  cases hgroup : GraphicsGroup.ofByte selector with
  | mode => exact choosesLowPen_mode_iff hgroup body
  | text => exact choosesLowPen_text_iff hgroup body
  | status =>
    refine iff_of_false ?_ id
    unfold graphicsAction
    dsimp only
    split <;> exact id
  | _ => exact Iff.rfl

/-- Behind an escape byte a graphics sequence asks for one action, whether it is closed or
interrupted; and this action chooses a low pen when the body says so. -/
theorem feed_choosesLowPen {p : Parser} (hp : p.Reached) (hphase : p.phase = .inEscape)
    (hlabel : selector ≠ 0x6C) (hesc : Byte.esc ∉ selector :: body) :
    (IsClosed (selector :: body) →
      ∃ action, (p.feed (0x2A :: selector :: body)).1 = [action] ∧
        (action.ChoosesLowPen ↔ (GraphicsGroup.ofByte selector).ChoosesLowPen body)) ∧
      ((∀ b ∈ selector :: body, isTerminator b = false) →
        ∃ action, (p.feed (0x2A :: selector :: (body ++ [Byte.esc]))).1 = [action] ∧
          (action.ChoosesLowPen ↔
            (GraphicsGroup.ofByte selector).ChoosesLowPen (Byte.capitalizeLast body))) := by
  constructor
  · intro hclosed
    exact ⟨_, feed_graphics hp hphase hlabel hclosed hesc,
      choosesLowPen_graphicsAction_iff selector body⟩
  · intro hinside
    refine ⟨_, feed_graphics_esc hp hphase hlabel hinside hesc, ?_⟩
    -- Without a body the last byte, which is made a capital letter, is that of the group.
    by_cases hbody : body = []
    · subst hbody
      have hsame : GraphicsGroup.ofByte (Byte.upper selector) = .ofByte selector := by
        by_cases hletter : Byte.isLower selector = true
        · exact ofByte_upper hletter
        · rw [Byte.upper, if_neg hletter]
      have hlow := choosesLowPen_graphicsAction_iff (Byte.upper selector) []
      rw [hsame] at hlow
      exact hlow
    · rw [Byte.capitalizeLast_cons _ (List.cons_ne_nil selector body),
        Byte.capitalizeLast_cons _ hbody]
      exact choosesLowPen_graphicsAction_iff selector _

end Parser

end GraphicsTerminal
