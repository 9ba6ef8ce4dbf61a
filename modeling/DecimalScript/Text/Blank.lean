import DecimalScript.Text.Ranges

/-!
# Blanks

The blanks that may surround the text of a number: the white space of every script and the four
information separators U+001C to U+001F.
-/

namespace DecimalScript.Text

/-- The blanks beyond ASCII. -/
def blankRanges : Ranges :=
  [(0x85, 0x85), (0xa0, 0xa0), (0x1680, 0x1680), (0x2000, 0x200a), (0x2028, 0x2029),
   (0x202f, 0x202f), (0x205f, 0x205f), (0x3000, 0x3000)]

/-- Whether a character is a blank: tab to carriage return, the information separators, the space,
or one of the blanks beyond ASCII. -/
def isBlank (c : Char) : Bool :=
  decide (9 ≤ c.toNat ∧ c.toNat ≤ 13) || decide (28 ≤ c.toNat ∧ c.toNat ≤ 32) ||
    blankRanges.containsBeyondAscii c

/-- A text without the blanks at its two ends. -/
def trim (text : List Char) : List Char :=
  ((text.dropWhile isBlank).reverse.dropWhile isBlank).reverse

end DecimalScript.Text
