import DecimalScript.Builtin.Registry
import DecimalScript.Scope.Tracker

/-!
# The machine

All state of a running script: variables, heap, the frames of the calls in progress, what has been
printed and what has been logged. The bottom frame runs the statements at top level and is always
there; a call puts a frame on top of the others and takes it away when it ends, however it ends.
-/

namespace DecimalScript

/-- How much of its environment a function literal captures. -/
inductive CaptureMode where
  /-- The cells of the names that it uses. -/
  | used
  /-- Every cell. -/
  | everything
deriving DecidableEq

/-- The limits of a run. -/
structure Limits where
  maxExponent : Nat := 99999
  maxCallDepth : Nat := 200
  capture : CaptureMode := .used
  /-- How many digits of a number or its text the host can hold. -/
  maxDigits : Nat := 1000000000

/-- What the host of an interpreter allows. Calls of the script nest on the calls of the host, so
the host has to allow enough of them. -/
structure Host where
  /-- How many of its own calls the host nests before it gives up. -/
  recursionLimit : Nat := 1000
  /-- How many digits of a number or its text the host can hold. -/
  maxDigits : Nat := ({} : Limits).maxDigits

/-- A call in progress, or the statements at top level: the table it runs against, the names
declared global for it, what messages call it, and the value that it returns once it is about to. -/
structure Frame where
  table : TableRef
  globalNames : Names := []
  label : Option String := none
  pending : Option Value := none

/-- What a run logs. -/
inductive LogEvent where
  | captureAnalysis (place : Span) (scope : Tracker)
  | closureMade (name : Option String) (upvalues globals : Names)
  | nativeCall (label : String) (arguments : Nat)
  | call (label : String) (arguments depth : Nat)
  | globalImported (label : Option String) (name : String)

/-- The state of a running script. -/
structure Machine where
  env : Env
  heap : Heap
  /-- The bottom frame. -/
  root : Frame
  /-- The frames of the calls in progress, the active one first. -/
  calls : List Frame := []
  output : String := ""
  log : Array LogEvent := #[]

namespace Machine

/-- The global table. -/
def globalTable : TableRef := ⟨0⟩

/-- The active frame. -/
def frame (m : Machine) : Frame :=
  m.calls.headD m.root

/-- Changes the active frame. -/
def modifyFrame (m : Machine) (f : Frame → Frame) : Machine :=
  match m.calls with
  | [] => { m with root := f m.root }
  | frame :: frames => { m with calls := f frame :: frames }

/-- The number of calls in progress. -/
def depth (m : Machine) : Nat :=
  m.calls.length

/-- Drops the calls in progress, and what the bottom frame was about to return. -/
def resetFrames (m : Machine) : Machine :=
  { m with calls := [], root := { m.root with pending := none } }

/-- The value of a name, as the active frame sees it. -/
def lookup? (m : Machine) (name : String) : Option Value :=
  m.env.get? m.frame.table name

/-- Assigns to a name in a table; no value leaves the variable unset. -/
def assign (m : Machine) (table : TableRef) (name : String) (value : Option Value) : Machine :=
  { m with env := (m.env.set table name value).2 }

/-- Binds a name to a new cell in a table. -/
def define (m : Machine) (table : TableRef) (name : String) (value : Option Value) : Machine :=
  { m with env := (m.env.define table name value).2 }

/-- Shares the global cell of a name with a table. -/
def importGlobal (m : Machine) (table : TableRef) (name : String) : Machine :=
  { m with env := (m.env.importGlobal table name).2 }

/-- Logs an event. -/
def record (m : Machine) (event : LogEvent) : Machine :=
  { m with log := m.log.push event }

/-- Binds a built-in function in the global table. -/
def bindNative (m : Machine) (f : NativeFunction) : Machine :=
  let (value, heap) := m.heap.addFunction (.native f)
  { m with heap }.assign globalTable f.name (some value)

/-- A machine with a heap and an empty global table. -/
def empty (heap : Heap) : Machine :=
  { env := (({} : Env).addGlobal).2, heap, root := { table := globalTable } }

/-- A machine whose global table binds the functions of a registry. -/
def start (registry : Registry) (heap : Heap) : Machine :=
  registry.functions.foldl bindNative (empty heap)

end Machine

end DecimalScript
