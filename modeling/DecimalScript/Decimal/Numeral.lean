/-!
# Decimal numerals

The digits of a natural number in base ten, most significant first, and the number that a list of
digits stands for. Zero is written as one digit, and no other numeral starts with a zero.
-/

namespace DecimalScript.Numeral

/-- Ten to the power of `n`. -/
def powerOfTen (n : Nat) : Nat :=
  Nat.pow 10 n

/-- The last `2 ^ level` digits of a number, put in front of the digits that follow them; a shorter
number gets zeros in front. The number is cut in the middle, so that long numbers take few long
divisions. -/
def lastDigits : Nat → Nat → List Nat → List Nat
  | 0, n, later => n % 10 :: later
  | level + 1, n, later =>
    let unit := powerOfTen (Nat.pow 2 level)
    lastDigits level (n / unit) (lastDigits level (n % unit) later)

/-- A level at which `lastDigits` has room for all digits of a number: three bits make less than one
digit, so that the digits after the first are at most a third of the bits after the first. -/
def sufficientLevel (n : Nat) : Nat :=
  (n.log2 / 3).log2 + 1

/-- The digits of a number, most significant first. -/
def digits (n : Nat) : List Nat :=
  match (lastDigits (sufficientLevel n) n []).dropWhile (· == 0) with
  | [] => [0]
  | first :: others => first :: others

/-- How many digits a number has; zero has one. -/
def digitCount (n : Nat) : Nat :=
  (digits n).length

/-- The number that digits stand for in a base, most significant first. -/
def value (base : Nat) (ds : List Nat) : Nat :=
  ds.foldl (fun n d => base * n + d) 0

/-- The character of a digit. -/
def digitChar (d : Nat) : Char :=
  Char.ofNat (48 + d)

/-- The numeral of a number. -/
def numeral (n : Nat) : List Char :=
  (digits n).map digitChar

/-- The numeral of an integer, with a minus sign where it is negative. -/
def signedNumeral (n : Int) : List Char :=
  if n < 0 then '-' :: numeral n.natAbs else numeral n.natAbs

/-- The largest number of digits of an integer that the host reads or writes. -/
def maxIntegerDigits : Nat := 4300

/-- Whether the host writes an integer. -/
def isShowable (n : Int) : Bool :=
  decide (n.natAbs < powerOfTen maxIntegerDigits)

/-- What the host says of an integer that it neither reads nor writes; `detail` may add something.
-/
def tooManyDigits (detail : String) : String :=
  "Exceeds the limit (" ++ toString maxIntegerDigits ++
    " digits) for integer string conversion" ++ detail ++
    "; use sys.set_int_max_str_digits() to increase the limit"

/-- Quotient and remainder of a number by a power of ten. The power is not formed where it has more
digits than the number. -/
def shiftDown (n places : Nat) : Nat × Nat :=
  if digitCount n ≤ places then (0, n) else (n / powerOfTen places, n % powerOfTen places)

end DecimalScript.Numeral
