/-!
# Blank characters

Setting values are trimmed of blank characters at both ends.  Blank means the
Unicode property White_Space, whose members are listed here as code ranges.

Main definitions:

- {lit}`Blank.ranges`: the code ranges of the property.
- {lit}`Text.trimBlank`: a text without its leading and trailing blanks.
-/

namespace GraphicsTerminal

namespace Blank

/-- Inclusive code ranges of the characters with the property White_Space. -/
def ranges : List (Nat × Nat) :=
  [(0x0009, 0x000D), (0x0020, 0x0020), (0x0085, 0x0085), (0x00A0, 0x00A0),
   (0x1680, 0x1680), (0x2000, 0x200A), (0x2028, 0x2029), (0x202F, 0x202F),
   (0x205F, 0x205F), (0x3000, 0x3000)]

end Blank

/-- A character is blank when its code lies in one of the ranges. -/
def isBlank (c : Char) : Bool :=
  Blank.ranges.any fun r => r.1 ≤ c.toNat && c.toNat ≤ r.2

/-- A text without its leading and trailing blanks. -/
def Text.trimBlank (text : String) : String :=
  String.ofList
    ((text.toList.dropWhile isBlank).reverse.dropWhile isBlank).reverse

end GraphicsTerminal
