import DecimalScript.Config.Setting
import DecimalScript.Decimal.Reader

/-!
# Unquoted values

An unquoted value in a configuration file is nothing, a truth value, an integer, a fraction, a day
or a time if it is spelled like one, and a text otherwise. Integers may be binary, octal,
hexadecimal or a chain of numbers in base sixty. What is spelled like an integer, a day or a time
and is none is a fault.
-/

namespace DecimalScript

/-- Why an unquoted value is not what it is spelled like. -/
inductive ValueFault where
  /-- A numeral in a base without a digit. -/
  | emptyNumeral (base : Nat)
  | tooManyDigits (count : Nat)
  | calendar (fault : CalendarFault)
deriving DecidableEq

/-- The wording of a fault. -/
def ValueFault.message : ValueFault → String
  | emptyNumeral base => "invalid literal for int() with base " ++ toString base ++ ": ''"
  | tooManyDigits count => Numeral.tooManyDigits (": value has " ++ toString count ++ " digits")
  | calendar fault => fault.message

/-- Why the text of a configuration stands for no setting. -/
inductive DocumentFault where
  /-- A character that no text may have. -/
  | character
  /-- A mark that may not stand where it stands. -/
  | mark
  /-- A value or mark that belongs to no list or mapping. -/
  | layout
  /-- A value that refers to another one, which is not there. -/
  | reference
  /-- A value with a special meaning that it cannot have. -/
  | meaning
  /-- The text uses what is not supported. -/
  | unsupported
  | value (fault : ValueFault)
deriving DecidableEq

/-- The wording of a fault. -/
def DocumentFault.message : DocumentFault → String
  | character => "a character may not stand in a configuration"
  | mark => "a mark may not stand where it stands"
  | layout => "a value belongs to no list or mapping"
  | reference => "a value refers to no other value"
  | meaning => "a value cannot have its special meaning"
  | unsupported => "the notation of the configuration is not supported"
  | value fault => fault.message

namespace Spelling

/-- The spellings of nothing. -/
def nullSpellings : List String := ["", "~", "null", "Null", "NULL"]

/-- The spellings of true. -/
def trueSpellings : List String :=
  ["true", "True", "TRUE", "yes", "Yes", "YES", "on", "On", "ON"]

/-- The spellings of false. -/
def falseSpellings : List String :=
  ["false", "False", "FALSE", "no", "No", "NO", "off", "Off", "OFF"]

/-- The spellings of infinity, behind an optional sign. -/
def infinitySpellings : List String := [".inf", ".Inf", ".INF"]

/-- The spellings of what is not a number. -/
def notANumberSpellings : List String := [".nan", ".NaN", ".NAN"]

/-- Spellings that merge mappings or give a default, where there is nothing to merge or default. -/
def specialSpellings : List String := ["<<", "="]

/-! ### Integers -/

/-- The value of a digit or letter in a base that has it. -/
def digitValue? (base : Nat) (c : Char) : Option Nat :=
  let value :=
    if c.isDigit then some (c.toNat - 48)
    else if c.isLower then some (c.toNat - 87)
    else if c.isUpper then some (c.toNat - 55)
    else none
  value.filter (· < base)

/-- The number of digits in a base. -/
def readDigits? (base : Nat) (digits : List Char) : Option Nat :=
  (digits.mapM (digitValue? base)).map (Numeral.value base)

/-- What a text without underscores may be found to be: not spelled like an integer, or an integer
unless it has a fault. -/
abbrev IntegerReading := Option (Except ValueFault Nat)

/-- The number of a numeral behind the mark of its base; underscores are ignored, but something has
to stand there. -/
def readMarked (base : Nat) (text : List Char) : IntegerReading :=
  let digits := text.filter (· != '_')
  if text.isEmpty then none
  else if digits.isEmpty then some (.error (.emptyNumeral base))
  else (readDigits? base digits).map .ok

/-- The number of decimal digits that start with one; underscores are ignored. -/
def readDecimal (text : List Char) : IntegerReading :=
  let digits := text.filter (· != '_')
  if !(text.head?.map Char.isDigit).getD false then none
  else
    (readDigits? 10 digits).map fun n =>
      if Numeral.maxIntegerDigits < digits.length then .error (.tooManyDigits digits.length)
      else .ok n

/-- The pieces between colons. -/
def colonPieces : List Char → List (List Char)
  | [] => [[]]
  | c :: rest =>
    match colonPieces rest with
    | piece :: others => if c = ':' then [] :: piece :: others else (c :: piece) :: others
    | [] => [[c]]

/-- The number of one digit or two, below sixty. -/
def readSixtieth? (text : List Char) : Option Nat :=
  if !text.isEmpty && text.length ≤ 2 then (readDigits? 10 text).filter (· < 60) else none

/-- The number of a chain in base sixty with at least two links. -/
def readChain (text : List Char) : IntegerReading :=
  match colonPieces text with
  | first :: second :: others => do
    let first ← readDecimal first
    let others ← (second :: others).mapM readSixtieth?
    return first.map fun n => Numeral.value 60 (n :: others)
  | _ => none

/-- The number of an unsigned integer: binary behind `0b`, hexadecimal behind `0x`, octal behind any
other leading zero, and decimal or a chain in base sixty otherwise. -/
def readNatural : List Char → IntegerReading
  | ['0'] => some (.ok 0)
  | '0' :: 'b' :: digits => readMarked 2 digits
  | '0' :: 'x' :: digits => readMarked 16 digits
  | '0' :: digits => (readDigits? 8 (digits.filter (· != '_'))).map .ok
  | text => (readDecimal text).or (readChain text)

/-- The number of an integer with an optional sign. -/
def readInteger (text : List Char) : Option (Except ValueFault Int) :=
  let (negative, rest) := Decimal.readSign text
  (readNatural rest).map (·.map fun n => if negative then -(n : Int) else n)

/-! ### Fractions -/

/-- Whether digits and a point are spelled like a mantissa. -/
def isMantissa (mantissa : List Char) : Bool :=
  let whole := mantissa.takeWhile (· != '.')
  let startsWithDigit := fun (text : List Char) => (text.head?.map Char.isDigit).getD false
  mantissa.count '.' == 1 &&
    startsWithDigit (if whole.isEmpty then mantissa.drop 1 else whole)

/-- Whether a text is spelled like an exponent with its sign, or is empty. -/
def isExponent : List Char → Bool
  | [] => true
  | mark :: sign :: digits =>
    (mark == 'e' || mark == 'E') && (sign == '+' || sign == '-') && !digits.isEmpty &&
      digits.all Char.isDigit
  | _ => false

/-- The number of digits with a point, and a signed exponent if there is one. Only an unsigned one
may start with the point. -/
def readPointed? (text : List Char) : Option Double :=
  let unsigned := (Decimal.readSign text).2
  let isMantissaChar := fun c => c.isDigit || c == '_' || c == '.'
  let startsWithPoint := unsigned.head? = some '.'
  if isMantissa (unsigned.takeWhile isMantissaChar) &&
      isExponent (unsigned.dropWhile isMantissaChar) && !(startsWithPoint && unsigned != text) then
    (Decimal.readScaled? (unsigned.filter (· != '_'))).map fun d =>
      Double.ofDecimal { d with negative := (Decimal.readSign text).1 }
  else none

/-- The sum of links in base sixty, the last link first; every step is rounded. -/
def chainSum (sum : Double) (unit : Nat) : List Double → Double
  | [] => sum
  | link :: links => chainSum (sum.add (link.scale unit)) (60 * unit) links

/-- The number of a chain in base sixty whose last link has a point. -/
def readPointedChain? (text : List Char) : Option Double := do
  let (negative, unsigned) := Decimal.readSign text
  let whole := unsigned.takeWhile (· != '.')
  let places := (unsigned.dropWhile (· != '.')).drop 1
  let _ ← readChain whole
  if whole.length < unsigned.length && places.all fun c => c.isDigit || c == '_' then
    let plain := unsigned.filter (· != '_')
    let links ← (colonPieces plain).mapM fun link => Decimal.readScaled? link
    let sum := chainSum (Double.ofDecimal (.ofNat 0)) 1 (links.reverse.map Double.ofDecimal)
    some (if negative then sum.negate else sum)
  else none

/-- The number of a fraction. -/
def readFraction? (text : List Char) : Option Double :=
  let (negative, unsigned) := Decimal.readSign text
  if infinitySpellings.contains (String.ofList unsigned) then some (.infinite negative)
  else if notANumberSpellings.contains (String.ofList text) then some .notANumber
  else (readPointed? text).or (readPointedChain? text)

/-! ### Days and times -/

/-- The number of as many digits as there are, at least `least` and at most `most`, and what stands
behind them. -/
def takeNumber? (least most : Nat) (text : List Char) : Option (Nat × List Char) :=
  let digits := text.takeWhile Char.isDigit
  if least ≤ digits.length ∧ digits.length ≤ most then
    (readDigits? 10 digits).map fun n => (n, text.dropWhile Char.isDigit)
  else none

/-- What stands behind one of some characters. -/
def takeMark? (marks : List Char) : List Char → Option (List Char)
  | [] => none
  | c :: rest => if marks.contains c then some rest else none

/-- Year, month and day with dashes between them, and what stands behind them; months and days have
at least so many digits. -/
def takeDate? (least : Nat) (text : List Char) : Option (Date × List Char) := do
  let (year, text) ← takeNumber? 4 4 text
  let (month, text) ← takeNumber? least 2 (← takeMark? ['-'] text)
  let (day, text) ← takeNumber? least 2 (← takeMark? ['-'] text)
  return (⟨year, month, day⟩, text)

/-- A day. -/
def readDate? (text : List Char) : Option Date :=
  match takeDate? 2 text with
  | some (date, []) => some date
  | _ => none

/-- What stands behind a day and in front of a time: a letter or blanks. -/
def takeGap? : List Char → Option (List Char)
  | 'T' :: rest | 't' :: rest => some rest
  | ' ' :: rest => some (rest.dropWhile (· == ' '))
  | _ => none

/-- Millionths behind a point, cut after six places, and what stands behind them. -/
def takeMillionths (text : List Char) : Nat × List Char :=
  match text with
  | '.' :: rest =>
    let places := (rest.takeWhile Char.isDigit).take 6
    let digits := places ++ List.replicate (6 - places.length) '0'
    ((readDigits? 10 digits).getD 0, rest.dropWhile Char.isDigit)
  | _ => (0, text)

/-- The minutes ahead of universal time: none, those of universal time itself, or hours and perhaps
minutes behind a sign. -/
def readOffset? (text : List Char) : Option (Option Int) := do
  match text.dropWhile (· == ' ') with
  | [] => if text.isEmpty then some none else none
  | ['Z'] => some (some 0)
  | sign :: rest =>
    let (hours, rest) ← takeNumber? 1 2 rest
    let (minutes, rest) ← if rest.isEmpty then some (0, []) else
      takeNumber? 2 2 (← takeMark? [':'] rest)
    let offset : Int := hours * 60 + minutes
    if !rest.isEmpty then none
    else if sign = '+' then some (some offset)
    else if sign = '-' then some (some (-offset))
    else none

/-- A time on a day. -/
def readMoment? (text : List Char) : Option Moment := do
  let (date, text) ← takeDate? 1 text
  let (hour, text) ← takeNumber? 1 2 (← takeGap? text)
  let (minute, text) ← takeNumber? 2 2 (← takeMark? [':'] text)
  let (second, text) ← takeNumber? 2 2 (← takeMark? [':'] text)
  let (microsecond, text) := takeMillionths text
  return { date, hour, minute, second, microsecond, offset := ← readOffset? text }

/-- The setting of a day or a time. -/
def calendarSetting? (text : List Char) : Option (Except CalendarFault Setting) :=
  match readDate? text, readMoment? text with
  | some date, _ => some (date.checked.map .date)
  | none, some moment => some (moment.checked.map .moment)
  | none, none => none

/-! ### Values -/

/-- The setting of an unquoted value. -/
def setting (text : List Char) : Except DocumentFault Setting :=
  let spelling := String.ofList text
  if nullSpellings.contains spelling then .ok .null
  else if trueSpellings.contains spelling then .ok (.boolean true)
  else if falseSpellings.contains spelling then .ok (.boolean false)
  else if specialSpellings.contains spelling then .error .meaning
  else
    match readInteger text, readFraction? text, calendarSetting? text with
    | some n, _, _ => (n.map Setting.integer).mapError .value
    | none, some d, _ => .ok (.fraction d)
    | none, none, some s => s.mapError fun fault => .value (.calendar fault)
    | none, none, none => .ok (.text spelling)

end Spelling

end DecimalScript
