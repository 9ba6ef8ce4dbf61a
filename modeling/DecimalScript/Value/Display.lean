import DecimalScript.Token.Escape
import DecimalScript.Value.Heap

/-!
# Values as text

The text of a value is what printing and concatenation show: numbers in plain notation, strings as
they are, and containers as they would be written in a script, with the strings inside them quoted.
A container may hold itself; where it would be shown inside its own text, a mark stands in its
place.
-/

namespace DecimalScript

/-- A reference to a container. -/
inductive ContainerRef where
  | array (ref : ArrayRef)
  | dictionary (ref : DictionaryRef)
deriving DecidableEq

namespace Display

/-- Stands for an array inside its own text. -/
def arrayMark : String := "[...]"

/-- Stands for a dictionary inside its own text. -/
def dictionaryMark : String := "\x7b...\x7d"

/-- The text of elements between brackets. -/
def bracketed (items : List String) : String :=
  "[" ++ ", ".intercalate items ++ "]"

/-- The text of entries between braces. -/
def braced (items : List (String × String)) : String :=
  "\x7b" ++ ", ".intercalate (items.map fun item => item.1 ++ ": " ++ item.2) ++ "\x7d"

/-- The text of a function. -/
def ofFunction (function : Option Function) : String :=
  match function.bind Function.name? with
  | none => "<function>"
  | some name => if name.isEmpty then "<function>" else "<function " ++ name ++ ">"

/-- A value inside a container: strings are quoted, others are shown as `inner` says. -/
def nested (inner : Value → String) : Value → String
  | .string s => Escape.quote s
  | v => inner v

/-- The text of a value inside the containers of `path`, at most `depth` containers deep. -/
def within (heap : Heap) : (depth : Nat) → (path : List ContainerRef) → Value → String
  | _, _, .number d => d.plain
  | _, _, .string s => s
  | _, _, .boolean b => if b then "true" else "false"
  | _, _, .function ref => ofFunction (heap.function? ref)
  | 0, _, .array _ => arrayMark
  | 0, _, .dictionary _ => dictionaryMark
  | depth + 1, path, .array ref =>
    if path.contains (.array ref) then arrayMark
    else
      let inner := nested (within heap depth (.array ref :: path))
      bracketed ((heap.array ref).toList.map inner)
  | depth + 1, path, .dictionary ref =>
    if path.contains (.dictionary ref) then dictionaryMark
    else
      let inner := nested (within heap depth (.dictionary ref :: path))
      braced ((heap.dictionary ref).entries.map fun entry => (inner entry.1, inner entry.2))

/-- Whether the text of a value inside the containers of `path` has only numbers that can be written
with as many digits as the host can hold. -/
def writableWithin (maxDigits : Nat) (heap : Heap) :
    (depth : Nat) → (path : List ContainerRef) → Value → Bool
  | _, _, .number d => d.isWritable maxDigits
  | depth + 1, path, .array ref =>
    path.contains (.array ref) ||
      (heap.array ref).toList.all (writableWithin maxDigits heap depth (.array ref :: path))
  | depth + 1, path, .dictionary ref =>
    path.contains (.dictionary ref) ||
      (heap.dictionary ref).entries.all fun entry =>
        writableWithin maxDigits heap depth (.dictionary ref :: path) entry.1 &&
          writableWithin maxDigits heap depth (.dictionary ref :: path) entry.2
  | _, _, _ => true

end Display

/-- The text of a value. No path through the heap is longer than the heap has containers, so the
bound on the depth is never reached. -/
def Heap.display (heap : Heap) (v : Value) : String :=
  Display.within heap (heap.containerCount + 1) [] v

/-- The text of a value, unless a number in it has too many digits to be written. -/
def Heap.write (heap : Heap) (maxDigits : Nat) (v : Value) : Except RuntimeFault String :=
  if Display.writableWithin maxDigits heap (heap.containerCount + 1) [] v then .ok (heap.display v)
  else .error (.excess .tooLong)

end DecimalScript
