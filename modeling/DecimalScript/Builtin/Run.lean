import DecimalScript.Decimal.Reader
import DecimalScript.Decimal.Rounding
import DecimalScript.Machine.Eval
import DecimalScript.Value.Display

/-!
# Calls of built-in functions

What a built-in function does, in the order in which it does it. It first counts its arguments, then
looks at each of them, and fails at the span of the call if one is not what it has to be. Printing
comes after all texts are found, and a container is changed after it is known what is to be added or
taken away. Only `append` and `remove` change a container, and only the one that they are given.
-/

namespace DecimalScript

namespace Builtin

open Eval

/-! ### What the arguments have to be -/

/-- The kinds that have a length. -/
def sizedKinds : List Kind := [.string, .array, .dictionary]

/-- The number of characters, elements or entries. -/
def length (heap : Heap) : Value → Except RuntimeFault Nat
  | .string s => .ok s.length
  | .array ref => .ok (heap.array ref).size
  | .dictionary ref => .ok (heap.dictionary ref).size
  | v => .error (.expectedKind sizedKinds v.kind)

/-- The array that a value refers to, which has to refer to one. -/
def arrayRef : Value → Except RuntimeFault ArrayRef
  | .array ref => .ok ref
  | v => .error (.expectedKind [.array] v.kind)

/-- The dictionary that a value refers to, which has to refer to one. -/
def dictionaryRef : Value → Except RuntimeFault DictionaryRef
  | .dictionary ref => .ok ref
  | v => .error (.expectedKind [.dictionary] v.kind)

/-- The container that a value refers to, which has to refer to one. -/
def containerRef : Value → Except RuntimeFault ContainerRef
  | .array ref => .ok (.array ref)
  | .dictionary ref => .ok (.dictionary ref)
  | v => .error (.expectedKind [.array, .dictionary] v.kind)

/-- The number that a text stands for; a number stands for itself. -/
def toNumber : Value → Except RuntimeFault Value
  | .number d => .ok (.number d)
  | .string s =>
    match Decimal.read? s.toList with
    | some d => .ok (.ofDecimal d)
    | none => .error (.notANumber s)
  | v => .error (.expectedKind [.number, .string] v.kind)

/-! ### Steps -/

/-- Changes the heap. -/
def changeHeap (f : Heap → Heap) : Eval Unit :=
  update fun m => { m with heap := f m.heap }

/-- Writes a text behind what has been printed. -/
def output (text : String) : Eval Unit :=
  update fun m => { m with output := m.output ++ text }

/-- The text of a value. -/
def textOf (maxDigits : Nat) (span : Span) (v : Value) : Eval String := do
  ofExcept span ((← machine).heap.write maxDigits v)

/-- Writes the texts of values one behind the other, and an ending behind them; gives the texts
without the ending. -/
def printAll (maxDigits : Nat) (span : Span) (ending : String) (args : List Value) :
    Eval (Option Value) := do
  let text := String.join (← all (textOf maxDigits span) args)
  output (text ++ ending)
  return some (.string text)

/-- A number computed from a number. -/
def computed (span : Span) (f : Decimal → Decimal) (v : Value) : Eval (Option Value) := do
  return some (.ofDecimal (f (← ofExcept span v.toNumber)))

/-- A new array of something in a dictionary. -/
def listed (span : Span) (f : Dictionary → List Value) (v : Value) : Eval (Option Value) := do
  let ref ← ofExcept span (dictionaryRef v)
  some <$> newArray (f ((← machine).heap.dictionary ref))

/-- Adds a value at the end of an array and gives the array. -/
def appendTo (span : Span) (container value : Value) : Eval (Option Value) := do
  let ref ← ofExcept span (arrayRef container)
  changeHeap (·.modifyArray ref (·.push value))
  return some container

/-- Takes the element at an index out of an array and gives it; the index has to be one. -/
def removeIndex (span : Span) (ref : ArrayRef) (key : Value) : Eval (Option Value) := do
  let elements := (← machine).heap.array ref
  let index ← ofExcept span (key.toIndex elements.size)
  changeHeap (·.modifyArray ref (·.eraseIdxIfInBounds index))
  return elements[index]?

/-- Takes the entry of a key out of a dictionary and gives its value; the key has to be there. -/
def removeKey (maxDigits : Nat) (span : Span) (ref : DictionaryRef) (key : Value) :
    Eval (Option Value) := do
  match ((← machine).heap.dictionary ref).get? key with
  | some value =>
    changeHeap (·.modifyDictionary ref (·.erase key))
    return some value
  | none => fail (.missingKey (← textOf maxDigits span key)) span

/-- Takes an element or an entry out of a container and gives it. -/
def removeFrom (maxDigits : Nat) (span : Span) (container key : Value) : Eval (Option Value) := do
  match ← ofExcept span (containerRef container) with
  | .array ref => removeIndex span ref key
  | .dictionary ref => removeKey maxDigits span ref key

/-- What a call does; `name` and `arity` are for the message if the function is given a number of
arguments that it cannot take. -/
def run (maxDigits : Nat) (builtin : Builtin) (name : String) (arity : Nat) (args : List Value)
    (span : Span) : Eval (Option Value) := do
  match builtin, args with
  | .print, args => printAll maxDigits span "" args
  | .println, args => printAll maxDigits span "\n" args
  | .len, [v] => return some (.ofDecimal (.ofNat (← ofExcept span (length (← machine).heap v))))
  | .keys, [v] => listed span Dictionary.keys v
  | .values, [v] => listed span Dictionary.values v
  | .append, [container, value] => appendTo span container value
  | .remove, [container, key] => removeFrom maxDigits span container key
  | .str, [v] => return some (.string (← textOf maxDigits span v))
  | .num, [v] => return some (← ofExcept span (toNumber v))
  | .typeof, [v] => return some (.string v.kind.name)
  | .abs, [v] => computed span Decimal.abs v
  | .floor, [v] => computed span (·.round .floor) v
  | .ceil, [v] => computed span (·.round .ceiling) v
  | .round, [v] => computed span (·.round .halfAway) v
  | .host function, args => ofExcept span (function.run (← machine).heap.snapshot args)
  | _, _ => fail (.argumentCount name arity args.length) span

end Builtin

/-- What a call of a built-in function does. The number of arguments has to be the arity of the
function if it has one. -/
def NativeFunction.run (maxDigits : Nat) (f : NativeFunction) (args : List Value) (span : Span) :
    Eval (Option Value) :=
  match f.arity with
  | some arity =>
    if args.length = arity then f.builtin.run maxDigits f.name arity args span
    else Eval.fail (.argumentCount f.name arity args.length) span
  | none => f.builtin.run maxDigits f.name 0 args span

end DecimalScript
