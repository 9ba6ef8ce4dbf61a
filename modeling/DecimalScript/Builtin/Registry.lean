import DecimalScript.Value.Heap

/-!
# The registry of built-in functions

The built-in functions that a script finds under their names, in the order of the names. A function
registered under a name that is taken replaces the one that was there.
-/

namespace DecimalScript

/-- Built-in functions in ascending order of their names. -/
structure Registry where
  functions : List NativeFunction := []

namespace Registry

/-- The functions with one more, in its place. -/
def insertFunction (f : NativeFunction) : List NativeFunction → List NativeFunction
  | [] => [f]
  | first :: others =>
    if f.name = first.name then f :: others
    else if f.name < first.name then f :: first :: others
    else first :: insertFunction f others

/-- Registers a function under its name. -/
def register (registry : Registry) (f : NativeFunction) : Registry :=
  ⟨insertFunction f registry.functions⟩

/-- The function of a name. -/
def find? (registry : Registry) (name : String) : Option NativeFunction :=
  registry.functions.find? fun f => f.name == name

/-- The names, in order. -/
def names (registry : Registry) : List String :=
  registry.functions.map (·.name)

/-- The functions that every script finds. -/
def standardFunctions : List NativeFunction :=
  [⟨"print", .print, none, "Write values without a newline."⟩,
   ⟨"println", .println, none, "Write values and a newline."⟩,
   ⟨"len", .len, some 1, "Length of a string, array or dictionary."⟩,
   ⟨"keys", .keys, some 1, "Array of a dictionary's keys."⟩,
   ⟨"values", .values, some 1, "Array of a dictionary's values."⟩,
   ⟨"append", .append, some 2, "Append to an array in place."⟩,
   ⟨"remove", .remove, some 2, "Remove an array index or dictionary key."⟩,
   ⟨"str", .str, some 1, "Display string of any value."⟩,
   ⟨"num", .num, some 1, "Parse a string as a number."⟩,
   ⟨"typeof", .typeof, some 1, "Kind name of a value."⟩,
   ⟨"abs", .abs, some 1, "Absolute value."⟩,
   ⟨"floor", .floor, some 1, "Round towards negative infinity."⟩,
   ⟨"ceil", .ceil, some 1, "Round towards positive infinity."⟩,
   ⟨"round", .round, some 1, "Round half away from zero."⟩]

/-- The registry that every script starts with. -/
def standard : Registry :=
  standardFunctions.foldl register {}

end Registry

end DecimalScript
