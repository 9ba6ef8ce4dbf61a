/-!
# Ranges of code points

A character class of the Unicode standard is carried as a list of closed ranges of code points.
The tables of this library follow version 14.0 of the standard and start at U+0080: below that a
class is decided by core's ASCII functions.
-/

namespace DecimalScript.Text

/-- Closed ranges of code points, ascending and apart. -/
abbrev Ranges := List (Nat × Nat)

/-- Whether a code point lies in one of the ranges. -/
def Ranges.contains (ranges : Ranges) (n : Nat) : Bool :=
  ranges.any fun range => decide (range.1 ≤ n) && decide (n ≤ range.2)

/-- Whether a character beyond ASCII lies in one of the ranges. -/
def Ranges.containsBeyondAscii (ranges : Ranges) (c : Char) : Bool :=
  decide (128 ≤ c.toNat) && ranges.contains c.toNat

end DecimalScript.Text
