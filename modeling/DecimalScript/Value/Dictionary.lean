import DecimalScript.Value.Basic

/-!
# Dictionaries

A dictionary holds its entries in the order in which their keys were first stored. Keys are told
apart by sameness of values. Storing under a key that is present keeps the key and its place and
replaces the value; a removed key that is stored again goes to the end.
-/

namespace DecimalScript

/-- A finite map from values to values, in order of insertion. -/
structure Dictionary where
  entries : List (Value × Value) := []

namespace Dictionary

/-- The value stored under a key. -/
def get? (d : Dictionary) (key : Value) : Option Value :=
  (d.entries.find? fun entry => entry.1.same key).map (·.2)

/-- The entries with a value stored under a key. -/
def insertEntry (key value : Value) : List (Value × Value) → List (Value × Value)
  | [] => [(key, value)]
  | entry :: entries =>
    if entry.1.same key then (entry.1, value) :: entries
    else entry :: insertEntry key value entries

/-- Stores a value under a key. -/
def insert (d : Dictionary) (key value : Value) : Dictionary :=
  ⟨insertEntry key value d.entries⟩

/-- Removes a key. -/
def erase (d : Dictionary) (key : Value) : Dictionary :=
  ⟨d.entries.eraseP fun entry => entry.1.same key⟩

/-- The dictionary of entries stored one after the other. -/
def ofList (entries : List (Value × Value)) : Dictionary :=
  entries.foldl (fun d entry => d.insert entry.1 entry.2) {}

/-- The keys, in order. -/
def keys (d : Dictionary) : List Value :=
  d.entries.map (·.1)

/-- The values, in the order of their keys. -/
def values (d : Dictionary) : List Value :=
  d.entries.map (·.2)

/-- The number of entries. -/
def size (d : Dictionary) : Nat :=
  d.entries.length

end Dictionary

end DecimalScript
