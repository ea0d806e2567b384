/-!
# Display enhancements and character sets

Every written cell carries the display enhancement that was current when it
was written: three switches and a colour.  Numeric codes change the current
enhancement.

Main definitions:

- {lit}`Enhancement.applyCode`: the effect of one numeric code.
- {lit}`Enhancement.word`: the enhancement packed into one number.
- {lit}`Charset.ofDesignator`: the alternate set that a designator byte selects.
-/

namespace GraphicsTerminal

/-- How a written cell is displayed. -/
structure Enhancement where
  intense : Bool
  inverse : Bool
  underline : Bool
  /-- 0 to 7 choose a foreground colour and 8 to 15 a background colour. -/
  color : Nat
deriving DecidableEq, Repr

namespace Enhancement

/-- All switches off and colour 0. -/
def plain : Enhancement := ⟨false, false, false, 0⟩

/-- The effect of one code: 0 clears everything, 1, 5 and 7 turn a
switch on, 30 to 37 and 40 to 47 replace the colour.  Other codes have no
effect. -/
def applyCode (a : Enhancement) (code : Int) : Enhancement :=
  if code = 0 then plain
  else if code = 1 then { a with intense := true }
  else if code = 5 then { a with underline := true }
  else if code = 7 then { a with inverse := true }
  else if 30 ≤ code ∧ code ≤ 37 then { a with color := (code - 30).toNat }
  else if 40 ≤ code ∧ code ≤ 47 then { a with color := (code - 32).toNat }
  else a

/-- The switches as bits 0, 1 and 2. -/
def flags (a : Enhancement) : Nat :=
  a.intense.toNat + 2 * a.inverse.toNat + 4 * a.underline.toNat

/-- The greatest colour that the packed form can hold. -/
abbrev greatestColor : Nat := 31

/-- The switches with the low five bits of the colour above them. -/
def word (a : Enhancement) : Nat := a.flags + 8 * (a.color % (greatestColor + 1))

end Enhancement

/-- A character set that can be selected as the alternate one. -/
inductive Charset where
  | roman
  | lineDraw
  | math
deriving DecidableEq, Repr

/-- The set that a designator byte selects; unknown designators mean roman. -/
def Charset.ofDesignator (b : UInt8) : Charset :=
  if b = 0x42 ∨ b = 0x43 then .lineDraw
  else if b = 0x44 then .math
  else .roman

end GraphicsTerminal
