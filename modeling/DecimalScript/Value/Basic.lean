import DecimalScript.Decimal.Order
import DecimalScript.Source.Failure
import DecimalScript.Value.Kind

/-!
# Values

Numbers, strings and booleans are their own content. Arrays, dictionaries and functions are
references into a heap: two references are the same value exactly if they are equal, however alike
the things they refer to. Two numbers are the same value if they are equal in value, whatever their
scales.
-/

namespace DecimalScript

/-- A reference to an array. -/
structure ArrayRef where
  index : Nat
deriving DecidableEq

/-- A reference to a dictionary. -/
structure DictionaryRef where
  index : Nat
deriving DecidableEq

/-- A reference to a function. -/
structure FunctionRef where
  index : Nat
deriving DecidableEq

/-- A value of a script. -/
inductive Value where
  | number (value : Decimal)
  | string (value : String)
  | boolean (value : Bool)
  | array (ref : ArrayRef)
  | dictionary (ref : DictionaryRef)
  | function (ref : FunctionRef)
deriving DecidableEq

namespace Value

/-- The kind of a value. -/
def kind : Value → Kind
  | number _ => .number
  | string _ => .string
  | boolean _ => .boolean
  | array _ => .array
  | dictionary _ => .dictionary
  | function _ => .function

/-- A number as a value: a zero has no sign. -/
def ofDecimal (d : Decimal) : Value :=
  number d.withoutZeroSign

/-- Whether two values are the same. Values of different kinds never are. -/
def same : Value → Value → Bool
  | number a, number b => a.cmp b == .eq
  | string a, string b => a == b
  | boolean a, boolean b => a == b
  | array a, array b => a == b
  | dictionary a, dictionary b => a == b
  | function a, function b => a == b
  | _, _ => false

/-- The number of a value, which has to be one. -/
def toNumber : Value → Except RuntimeFault Decimal
  | number d => .ok d
  | v => .error (.expectedKind [.number] v.kind)

/-- The truth of a value, which has to be a boolean. -/
def toBoolean : Value → Except RuntimeFault Bool
  | boolean b => .ok b
  | v => .error (.expectedKind [.boolean] v.kind)

/-- Whether two values of one kind are the same; values of different kinds cannot be compared. -/
def equal (a b : Value) : Except RuntimeFault Bool :=
  if a.kind = b.kind then .ok (a.same b) else .error (.kindMismatch a.kind b.kind)

/-- The order of two numbers, or of two strings by code points; no other kind is ordered. -/
def order (a b : Value) : Except RuntimeFault Ordering :=
  match a, b with
  | number x, number y => .ok (x.cmp y)
  | string x, string y => .ok (compare x y)
  | a, b =>
    if a.kind = b.kind then .error (.unorderedKind a.kind)
    else .error (.kindMismatch a.kind b.kind)

/-- The index that a value designates in an array of the given length: an integral number, at least
zero and below the length. -/
def toIndex (length : Nat) (key : Value) : Except RuntimeFault Nat := do
  let index ← key.toNumber
  if !index.isIntegral then .error (.fractionalIndex index)
  else if index.cmp (.ofNat 0) = .lt ∨ index.cmp (.ofNat length) ≠ .lt then
    .error (.indexOutOfRange index length)
  else .ok index.toInt.toNat

end Value

end DecimalScript
