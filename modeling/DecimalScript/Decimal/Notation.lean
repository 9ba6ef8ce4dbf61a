import DecimalScript.Decimal.Basic

/-!
# Writing decimals

Two written forms. *Plain* notation writes every digit and never an exponent; the digits after the
point are as many as the scale asks for, and a positive exponent becomes zeros. *Scientific*
notation is plain where the exponent is not positive and the number is at least `10 ^ -6`, and has
one digit before the point and an exponent otherwise, so that it shows the scale of every number.
-/

namespace DecimalScript.Decimal

/-- The minus sign of a negative number. -/
def signText (d : Decimal) : List Char :=
  if d.negative then ['-'] else []

/-- Digits with a point before the last `places` of them, which are at least one; zeros are put in
front so that a digit stands before the point. -/
def pointed (digits : List Char) (places : Nat) : List Char :=
  let padded := List.replicate (places + 1 - digits.length) '0' ++ digits
  padded.take (padded.length - places) ++ '.' :: padded.drop (padded.length - places)

/-- Plain notation as characters. -/
def plainChars (d : Decimal) : List Char :=
  let digits := Numeral.numeral d.coefficient
  if d.exponent < 0 then d.signText ++ pointed digits (-d.exponent).toNat
  else if d.isZero then d.signText ++ digits
  else d.signText ++ digits ++ List.replicate d.exponent.toNat '0'

/-- Plain notation: every digit, and no exponent. -/
def plain (d : Decimal) : String :=
  String.ofList d.plainChars

/-- One digit, a point before the others if there are any, and the exponent of the leading digit. -/
def exponentChars (d : Decimal) : List Char :=
  let mantissa := match Numeral.numeral d.coefficient with
    | [] => []
    | [digit] => [digit]
    | digit :: others => digit :: '.' :: others
  let mark := if d.leadingExponent < 0 then ['E'] else ['E', '+']
  d.signText ++ mantissa ++ mark ++ Numeral.signedNumeral d.leadingExponent

/-- Scientific notation: the scale can be read off the text. -/
def scientific (d : Decimal) : String :=
  String.ofList (if d.exponent ≤ 0 ∧ -6 ≤ d.leadingExponent then d.plainChars else d.exponentChars)

end DecimalScript.Decimal
