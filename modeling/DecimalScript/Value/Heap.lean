import DecimalScript.Env.Basic
import DecimalScript.Program.Basic
import DecimalScript.Value.Dictionary

/-!
# The heap

Arrays, dictionaries and functions live in a heap. Arrays and dictionaries change in place, so every
reference sees the change; functions never change. A function is written in the script, with the
table of the cells that it captured, or built in.
-/

namespace DecimalScript

/-- The contents of all arrays and dictionaries. -/
structure Containers where
  arrays : Array (Array Value)
  dictionaries : Array Dictionary

/-- A function that the host has given to the registry. Nothing is known of it but that it looks at
its arguments and at containers alone, that it fails or gives a value and changes neither a
container nor what has been printed, and that it does not fail as a call of the script does. -/
structure HostFunction where
  run : Containers → List Value → Except RuntimeFault (Option Value)
  isCallDepth_of_run_eq_error : ∀ {containers args fault},
    run containers args = .error fault → fault.isCallDepth = false

/-- What a built-in function does. -/
inductive Builtin where
  | print
  | println
  | len
  | keys
  | values
  | append
  | remove
  | str
  | num
  | typeof
  | abs
  | floor
  | ceil
  | round
  | host (function : HostFunction)

/-- A function of the host that always gives the same value, or none. -/
def Builtin.constant (value : Option Value) : Builtin :=
  .host ⟨fun _ _ => .ok value, nofun⟩

/-- A built-in function under its name; without an arity it takes any number of arguments. -/
structure NativeFunction where
  name : String
  builtin : Builtin
  arity : Option Nat
  doc : String := ""

/-- A function written in a script. -/
structure UserFunction where
  name : Option String
  parameters : List Parameter
  body : Block
  closure : TableRef
  globalNames : Names

/-- A function. -/
inductive Function where
  | user (function : UserFunction)
  | native (function : NativeFunction)

/-- The name of a function, unless it is anonymous. -/
def Function.name? : Function → Option String
  | user f => f.name
  | native f => some f.name

/-- All arrays, dictionaries and functions. -/
structure Heap where
  arrays : Array (Array Value) := #[]
  dictionaries : Array Dictionary := #[]
  functions : Array Function := #[]

namespace Heap

/-- The elements of an array; a reference to no array has none. -/
def array (heap : Heap) (ref : ArrayRef) : Array Value :=
  heap.arrays.getD ref.index #[]

/-- The dictionary of a reference; a reference to no dictionary gives an empty one. -/
def dictionary (heap : Heap) (ref : DictionaryRef) : Dictionary :=
  heap.dictionaries.getD ref.index {}

/-- The function of a reference. -/
def function? (heap : Heap) (ref : FunctionRef) : Option Function :=
  heap.functions[ref.index]?

/-- A new array. -/
def addArray (heap : Heap) (elements : Array Value) : Value × Heap :=
  (.array ⟨heap.arrays.size⟩, { heap with arrays := heap.arrays.push elements })

/-- A new dictionary. -/
def addDictionary (heap : Heap) (dictionary : Dictionary) : Value × Heap :=
  (.dictionary ⟨heap.dictionaries.size⟩,
    { heap with dictionaries := heap.dictionaries.push dictionary })

/-- A new function. -/
def addFunction (heap : Heap) (function : Function) : Value × Heap :=
  (.function ⟨heap.functions.size⟩, { heap with functions := heap.functions.push function })

/-- Changes the elements of an array in place. -/
def modifyArray (heap : Heap) (ref : ArrayRef) (f : Array Value → Array Value) : Heap :=
  { heap with arrays := heap.arrays.modify ref.index f }

/-- Changes a dictionary in place. -/
def modifyDictionary (heap : Heap) (ref : DictionaryRef) (f : Dictionary → Dictionary) : Heap :=
  { heap with dictionaries := heap.dictionaries.modify ref.index f }

/-- The contents of the arrays and dictionaries. -/
def snapshot (heap : Heap) : Containers :=
  ⟨heap.arrays, heap.dictionaries⟩

/-- The number of arrays and dictionaries. -/
def containerCount (heap : Heap) : Nat :=
  heap.arrays.size + heap.dictionaries.size

end Heap

end DecimalScript
