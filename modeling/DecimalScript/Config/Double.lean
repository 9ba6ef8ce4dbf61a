import DecimalScript.Decimal.Basic

/-!
# Fractions

Fractions in a configuration are numbers in the binary double format: a mantissa below `2 ^ 53`
times a power of two. A decimal is rounded to the nearest such number, from halfway to the even
mantissa, in exact arithmetic. The text of a fraction has the fewest digits that are rounded to it
again, and of those with as many digits the nearest ones.
-/

namespace DecimalScript

/-- A number in the binary double format. -/
inductive Double where
  /-- The number `± mantissa * 2 ^ exponent`. -/
  | finite (negative : Bool) (mantissa : Nat) (exponent : Int)
  | infinite (negative : Bool)
  | notANumber
deriving DecidableEq

namespace Double

/-- The number of bits in a mantissa. -/
def precision : Nat := 53

/-- The smallest exponent. -/
def minExponent : Int := -1074

/-- The largest exponent of a finite number with a mantissa of full length. -/
def maxExponent : Int := 971

/-- Two to the power of `n`. -/
def powerOfTwo (n : Nat) : Nat :=
  Nat.pow 2 n

/-- The integer nearest to a quotient, from halfway the even one. -/
def nearest (numerator denominator : Nat) : Nat :=
  let whole := numerator / denominator
  match compare (2 * (numerator % denominator)) denominator with
  | .lt => whole
  | .gt => whole + 1
  | .eq => whole + whole % 2

/-- The exponent of the leading bit of a positive quotient. -/
def leadingBit (numerator denominator : Nat) : Int :=
  let guess : Int := (numerator.log2 : Int) - denominator.log2
  if denominator * powerOfTwo guess.toNat ≤ numerator * powerOfTwo (-guess).toNat then guess
  else guess - 1

/-- The number nearest to a quotient. -/
def ofQuotient (negative : Bool) (numerator denominator : Nat) : Double :=
  if numerator = 0 then .finite negative 0 minExponent
  else
    let exponent := max minExponent (leadingBit numerator denominator - precision + 1)
    let mantissa :=
      nearest (numerator * powerOfTwo (-exponent).toNat) (denominator * powerOfTwo exponent.toNat)
    let (mantissa, exponent) :=
      if mantissa = powerOfTwo precision then (powerOfTwo (precision - 1), exponent + 1)
      else (mantissa, exponent)
    if maxExponent < exponent then .infinite negative else .finite negative mantissa exponent

/-- The number nearest to a decimal. Decimals far outside the range of the format are told by the
place of their leading digit. -/
def ofDecimal (d : Decimal) : Double :=
  if d.isZero || decide (d.leadingExponent < -400) then .finite d.negative 0 minExponent
  else if 400 < d.leadingExponent then .infinite d.negative
  else
    ofQuotient d.negative (d.coefficient * Numeral.powerOfTen d.exponent.toNat)
      (Numeral.powerOfTen (-d.exponent).toNat)

/-! ### Arithmetic -/

/-- A finite number as a quotient. -/
def quotient : Double → Int × Nat
  | finite negative mantissa exponent =>
    let magnitude := mantissa * powerOfTwo exponent.toNat
    (if negative then -(magnitude : Int) else magnitude, powerOfTwo (-exponent).toNat)
  | _ => (0, 1)

/-- The number nearest to a quotient with a sign. -/
def ofRatio (numerator : Int) (denominator : Nat) : Double :=
  ofQuotient (decide (numerator < 0)) numerator.natAbs denominator

/-- The number nearest to the sum. -/
def add : Double → Double → Double
  | .finite n m e, .finite n' m' e' =>
    let (a, b) := quotient (.finite n m e)
    let (c, d) := quotient (.finite n' m' e')
    ofRatio (a * d + c * b) (b * d)
  | .notANumber, _ | _, .notANumber => .notANumber
  | .infinite n, .infinite n' => if n = n' then .infinite n else .notANumber
  | .infinite n, _ | _, .infinite n => .infinite n

/-- The number nearest to the product with a natural number, which is rounded itself first. -/
def scale (x : Double) (n : Nat) : Double :=
  match x, ofQuotient false n 1 with
  | .finite s m e, .finite s' m' e' =>
    let (a, b) := quotient (.finite s m e)
    let (c, d) := quotient (.finite s' m' e')
    ofRatio (a * c) (b * d)
  | x, _ => x

/-- The number of opposite sign. -/
def negate : Double → Double
  | finite negative mantissa exponent => finite (!negative) mantissa exponent
  | infinite negative => infinite (!negative)
  | notANumber => notANumber

/-- Whether the number is zero, of either sign. -/
def isZero : Double → Bool
  | finite _ mantissa _ => mantissa == 0
  | _ => false

/-! ### Text -/

/-- The two decimals around a positive number with their last digit at `10 ^ place`, the nearer one
first. -/
def neighbours (mantissa : Nat) (exponent place : Int) : List Decimal :=
  let numerator := mantissa * powerOfTwo exponent.toNat * Numeral.powerOfTen (-place).toNat
  let denominator := powerOfTwo (-exponent).toNat * Numeral.powerOfTen place.toNat
  let below := numerator / denominator
  let near := nearest numerator denominator
  let far := if near = below then below + 1 else below
  [⟨false, near, place⟩, ⟨false, far, place⟩]

/-- The power of ten of the leading digit of a positive number. -/
def leadingDigit (mantissa : Nat) (exponent : Int) : Int :=
  let whole := mantissa * powerOfTwo exponent.toNat * Numeral.powerOfTen 400
  (Numeral.digitCount (whole / powerOfTwo (-exponent).toNat) : Int) - 401

/-- The shortest decimal that is rounded to a positive number: the first that is found with one
digit, two digits and so on. Seventeen digits are always enough. -/
def shortest (mantissa : Nat) (exponent : Int) : Decimal :=
  let leading := leadingDigit mantissa exponent
  let candidates := (List.range 17).flatMap fun (n : Nat) =>
    neighbours mantissa exponent (leading - n)
  let exact := fun d => ofDecimal d == .finite false mantissa exponent
  (candidates.find? exact).getD (.ofNat 0)

/-- Digits with a point behind the digit of `10 ^ 0` and at least one digit on either side. -/
def positional (digits : List Char) (leading : Int) : List Char :=
  let padded := List.replicate (-leading).toNat '0' ++ digits
  let whole := (leading.toNat + 1)
  let places := padded.drop whole
  padded.take whole ++ List.replicate (whole - padded.length) '0' ++
    '.' :: if places.isEmpty then ['0'] else places

/-- Digits with a point behind the first, and an exponent of at least two digits. -/
def scientific (digits : List Char) (leading : Int) : List Char :=
  let power := Numeral.numeral leading.natAbs
  let point := if digits.length = 1 then [] else ['.']
  digits.take 1 ++ point ++ digits.drop 1 ++ ['e', if leading < 0 then '-' else '+'] ++
    List.replicate (2 - power.length) '0' ++ power

/-- The text of a positive number: positional from `10 ^ -4` to below `10 ^ 16`. -/
def magnitudeText (mantissa : Nat) (exponent : Int) : List Char :=
  let d := shortest mantissa exponent
  let leading := d.leadingExponent
  let digits := ((Numeral.numeral d.coefficient).reverse.dropWhile (· == '0')).reverse
  if -4 ≤ leading ∧ leading < 16 then positional digits leading else scientific digits leading

/-- The text of a number. -/
def text : Double → String
  | finite negative mantissa exponent =>
    let magnitude := if mantissa = 0 then ['0', '.', '0'] else magnitudeText mantissa exponent
    String.ofList (if negative then '-' :: magnitude else magnitude)
  | infinite negative => if negative then "-inf" else "inf"
  | notANumber => "nan"

end Double

end DecimalScript
