/-!
# Bytes and text

The terminal speaks bytes.  This module names the control bytes that carry a
meaning on the host line, the ASCII letter cases and classes used by the
sequence decoders, and the two ways in which bytes and text meet: text sent to
the host and to files travels as UTF-8, and a stored byte is shown as the
character with the same code.

Main definitions:

- {lit}`Byte.lower`, {lit}`Byte.upper`: ASCII letter case of one byte.
- {lit}`Text.utf8`, {lit}`Text.ofUtf8?`: the bytes that carry a text, and the
  text that bytes carry.
- {lit}`Text.ofBytes`: one character per byte, with the byte as its code.

Main results:

- Theorem {lit}`Text.ofUtf8?_utf8`: a text is found again in its bytes.
-/

namespace GraphicsTerminal

namespace Byte

/-! ## Control bytes -/

/-- Enquiry: the host asks whether the terminal is ready. -/
abbrev enq : UInt8 := 0x05

/-- Acknowledgement of an enquiry. -/
abbrev ack : UInt8 := 0x06

/-- Bell. -/
abbrev bel : UInt8 := 0x07

/-- Backspace. -/
abbrev bs : UInt8 := 0x08

/-- Horizontal tab. -/
abbrev ht : UInt8 := 0x09

/-- Line feed. -/
abbrev lf : UInt8 := 0x0A

/-- Vertical tab, obeyed as a line feed. -/
abbrev vt : UInt8 := 0x0B

/-- Form feed, obeyed as a line feed. -/
abbrev ff : UInt8 := 0x0C

/-- Carriage return. -/
abbrev cr : UInt8 := 0x0D

/-- Device control 1: the host is ready to receive the armed reply. -/
abbrev dc1 : UInt8 := 0x11

/-- Escape: the next bytes form a command sequence. -/
abbrev esc : UInt8 := 0x1B

/-- Space. -/
abbrev space : UInt8 := 0x20

/-- Delete. -/
abbrev del : UInt8 := 0x7F

/-! ## ASCII classes and letter case -/

/-- A decimal digit. -/
def isDigit (b : UInt8) : Bool := 0x30 ≤ b && b ≤ 0x39

/-- A capital ASCII letter. -/
def isUpper (b : UInt8) : Bool := 0x41 ≤ b && b ≤ 0x5A

/-- A small ASCII letter. -/
def isLower (b : UInt8) : Bool := 0x61 ≤ b && b ≤ 0x7A

/-- The small letter of a capital one; every other byte is unchanged. -/
def lower (b : UInt8) : UInt8 := if isUpper b then b + 0x20 else b

/-- The capital letter of a small one; every other byte is unchanged. -/
def upper (b : UInt8) : UInt8 := if isLower b then b - 0x20 else b

/-- The character whose code is the byte. -/
def char (b : UInt8) : Char := Char.ofUInt8 b

end Byte

namespace Text

/-- The UTF-8 bytes of a text. -/
def utf8 (text : String) : List UInt8 :=
  text.toList.flatMap String.utf8EncodeChar

/-- The text that UTF-8 bytes carry. -/
def ofUtf8? (bytes : List UInt8) : Option String :=
  String.fromUTF8? ⟨bytes.toArray⟩

/-- One character per byte, with the byte as its code. -/
def ofBytes (bytes : List UInt8) : String :=
  String.ofList (bytes.map Byte.char)

/-- A text with its ASCII capitals made small; other characters are kept. -/
def lower (text : String) : String :=
  String.ofList (text.toList.map Char.toLower)

/-- What remains of {lit}`text` after {lit}`start`, if it begins with it. -/
def after? (start text : String) : Option String :=
  if start.toList.isPrefixOf text.toList then
    some (String.ofList (text.toList.drop start.length))
  else
    none

/-- Texts in a row are sent as one text. -/
theorem flatMap_utf8 (texts : List String) :
    texts.flatMap utf8 = utf8 (String.ofList (texts.flatMap String.toList)) := by
  rw [utf8, String.toList_ofList, List.flatMap_assoc]
  rfl

/-- A text is found again in its bytes. -/
theorem ofUtf8?_utf8 (text : String) : ofUtf8? (utf8 text) = some text := by
  have hbytes : ByteArray.mk (utf8 text).toArray = text.toByteArray := by
    conv => rhs; rw [← String.ofList_toList (s := text)]
    exact ByteArray.ext List.data_toByteArray.symm
  rw [ofUtf8?, hbytes, String.fromUTF8?, dif_pos text.isValidUTF8]
  rfl

end Text

end GraphicsTerminal
