import DecimalScript.Decimal.Bounds
import DecimalScript.Text.Blank
import DecimalScript.Text.Digit

/-!
# Reading decimals

The text of a decimal is an optional sign, digits with at most one point among them, and an optional
exponent. Decimal digits of every script count, underscores are ignored wherever they stand, and
blanks may surround the text. The scale is the one written: `1.50` has exponent -2. A number out of
bounds cannot be read.
-/

namespace DecimalScript.Decimal

/-- The values of decimal digits; `none` if a character is no decimal digit. -/
def digitValues? (text : List Char) : Option (List Nat) :=
  text.mapM Text.decimalValue?

/-- Digits with a sign in front of them, or none. -/
def readSign : List Char → Bool × List Char
  | '-' :: rest => (true, rest)
  | '+' :: rest => (false, rest)
  | rest => (false, rest)

/-- The number of an unsigned numeral with at most one point; the exponent counts the digits after
the point. -/
def readUnsigned? (text : List Char) : Option Decimal := do
  let whole := text.takeWhile (· != '.')
  let fraction := (text.dropWhile (· != '.')).drop 1
  let digits ← digitValues? (whole ++ fraction)
  if digits.isEmpty then none
  else some ⟨false, Numeral.value 10 digits, -(fraction.length : Int)⟩

/-- The number of an exponent: an optional sign and at least one digit. -/
def readExponent? (text : List Char) : Option Int := do
  let (negative, rest) := readSign text
  let digits ← digitValues? rest
  if digits.isEmpty then none
  else
    let n : Int := Numeral.value 10 digits
    some (if negative then -n else n)

/-- A mantissa and an exponent, if an exponent is marked. -/
def readScaled? (text : List Char) : Option Decimal := do
  let isMark := fun c => c == 'e' || c == 'E'
  let mantissa ← readUnsigned? (text.takeWhile fun c => !isMark c)
  match text.dropWhile fun c => !isMark c with
  | [] => some mantissa
  | _ :: exponentText =>
    let shift ← readExponent? exponentText
    some { mantissa with exponent := mantissa.exponent + shift }

/-- The number that a text stands for, with its sign and scale as written. -/
def read? (text : List Char) : Option Decimal := do
  let (negative, rest) := readSign ((Text.trim text).filter (· != '_'))
  let magnitude ← readScaled? rest
  if magnitude.inBounds then some { magnitude with negative } else none

end DecimalScript.Decimal
