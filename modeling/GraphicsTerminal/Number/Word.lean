/-!
# Saturating words

Coordinates and parameters are signed 32-bit words.  Sums and differences that
leave the range stop at its end.  Words are kept as integers, and every
operation here ends with {lit}`Word.saturate`, so a proof about them is a proof
about integers with one clamp.

Main definitions:

- {lit}`Word.saturate`: the word nearest to an integer.
- {lit}`Word.add`, {lit}`Word.sub`, {lit}`Word.neg`: saturating arithmetic.
-/

namespace GraphicsTerminal

namespace Word

/-- The least word. -/
abbrev least : Int := -2147483648

/-- The greatest word. -/
abbrev greatest : Int := 2147483647

/-- Clamp an integer between two bounds. -/
def clamp (low high v : Int) : Int := max low (min v high)

/-- The word nearest to an integer. -/
def saturate (v : Int) : Int := clamp least greatest v

/-- Saturating sum. -/
def add (a b : Int) : Int := saturate (a + b)

/-- Saturating difference. -/
def sub (a b : Int) : Int := saturate (a - b)

/-- Saturating negation; only the least word is not negated exactly. -/
def neg (a : Int) : Int := saturate (-a)

/-- A clamped value lies between the bounds. -/
theorem clamp_mem {low high : Int} (h : low ≤ high) (v : Int) :
    low ≤ clamp low high v ∧ clamp low high v ≤ high := by
  unfold clamp
  omega

/-- Clamping changes no value between the bounds. -/
theorem clamp_eq_self {low high v : Int} (hlow : low ≤ v) (hhigh : v ≤ high) :
    clamp low high v = v := by
  unfold clamp
  omega

/-- A word is its own nearest word. -/
theorem saturate_eq_self {v : Int} (hlow : least ≤ v) (hhigh : v ≤ greatest) :
    saturate v = v :=
  clamp_eq_self hlow hhigh

end Word

end GraphicsTerminal
