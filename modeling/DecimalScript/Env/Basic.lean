import DecimalScript.Scope.Names
import DecimalScript.Value.Basic

/-!
# Variables and tables

A variable is a cell that holds a value, or none while it is unset. Tables bind names to cells, and
what they share are cells: where two tables bind a name to one cell, an assignment through either is
seen through both. The global table has no table behind it; every other table falls back on the
global table for the names that it does not bind itself.
-/

namespace DecimalScript

/-- A reference to a cell. -/
structure CellRef where
  index : Nat
deriving DecidableEq

/-- A reference to a table. -/
structure TableRef where
  index : Nat
deriving DecidableEq

/-- A variable: its name, and its value unless it is unset. -/
structure Cell where
  name : String
  value : Option Value

/-- Names with the cells that they are bound to, each name once. -/
abbrev Bindings := List (String × CellRef)

namespace Bindings

/-- The cell that bindings give a name. -/
def cell? (bindings : Bindings) (name : String) : Option CellRef :=
  bindings.lookup name

/-- The bindings with a name bound to a cell, in the place of its old binding if it had one. -/
def bind (name : String) (cell : CellRef) : Bindings → Bindings
  | [] => [(name, cell)]
  | binding :: bindings =>
    if binding.1 == name then (name, cell) :: bindings else binding :: bind name cell bindings

end Bindings

/-- The bindings of a table, and the global table that it falls back on; the global table has
none. -/
structure Table where
  root : Option TableRef
  bindings : Bindings := []

/-- All cells and all tables. -/
structure Env where
  cells : Array Cell := #[]
  tables : Array Table := #[]

namespace Env

/-- The table of a reference; a reference to no table gives an empty global one. -/
def table (env : Env) (t : TableRef) : Table :=
  env.tables.getD t.index { root := none }

/-- Whether a table is global. -/
def isGlobal (env : Env) (t : TableRef) : Bool :=
  (env.table t).root.isNone

/-- The cell that a table itself binds a name to. -/
def ownCell? (env : Env) (t : TableRef) (name : String) : Option CellRef :=
  Bindings.cell? (env.table t).bindings name

/-- The cell of a name: the table's own, or else the one of the global table behind it. -/
def cell? (env : Env) (t : TableRef) (name : String) : Option CellRef :=
  match env.ownCell? t name with
  | some cell => some cell
  | none => (env.table t).root.bind fun root => env.ownCell? root name

/-- The value in a cell, unless it is unset. -/
def valueAt? (env : Env) (cell : CellRef) : Option Value :=
  env.cells[cell.index]?.bind (·.value)

/-- The value of a name, unless it has no cell or the cell is unset. -/
def get? (env : Env) (t : TableRef) (name : String) : Option Value :=
  (env.cell? t name).bind env.valueAt?

/-- The names that a table itself binds. -/
def names (env : Env) (t : TableRef) : Names :=
  Names.ofList ((env.table t).bindings.map (·.1))

/-! ### New cells and tables -/

/-- A new cell. -/
def addCell (env : Env) (name : String) (value : Option Value) : CellRef × Env :=
  (⟨env.cells.size⟩, { env with cells := env.cells.push ⟨name, value⟩ })

/-- A new table. -/
def addTable (env : Env) (table : Table) : TableRef × Env :=
  (⟨env.tables.size⟩, { env with tables := env.tables.push table })

/-- A new global table. -/
def addGlobal (env : Env) : TableRef × Env :=
  env.addTable { root := none }

/-- The bindings that a table passes on: all of them, and none if it is global. -/
def inherited (env : Env) (parent : TableRef) : Bindings :=
  if env.isGlobal parent then [] else (env.table parent).bindings

/-- A new table that shares every cell of its parent. Nothing is taken from a global parent. -/
def addChild (env : Env) (root parent : TableRef) : TableRef × Env :=
  env.addTable { root := some root, bindings := env.inherited parent }

/-- A new table that shares those cells of its parent that are bound to the given names. -/
def addClosure (env : Env) (root parent : TableRef) (names : List String) : TableRef × Env :=
  env.addTable
    { root := some root
      bindings := (env.inherited parent).filter fun binding => names.contains binding.1 }

/-! ### Bindings and assignments -/

/-- Binds a name to a cell in a table. -/
def bind (env : Env) (t : TableRef) (name : String) (cell : CellRef) : Env :=
  { env with
    tables := env.tables.modify t.index fun table =>
      { table with bindings := Bindings.bind name cell table.bindings } }

/-- Puts a value into a cell, or leaves it unset. -/
def assign (env : Env) (cell : CellRef) (value : Option Value) : Env :=
  { env with cells := env.cells.modify cell.index fun c => { c with value } }

/-- Binds a name to a new cell, in place of any it had. -/
def define (env : Env) (t : TableRef) (name : String) (value : Option Value) : CellRef × Env :=
  let (cell, env) := env.addCell name value
  (cell, env.bind t name cell)

/-- Assigns to a name: through the table's own cell, or else a new one. -/
def set (env : Env) (t : TableRef) (name : String) (value : Option Value) : CellRef × Env :=
  match env.ownCell? t name with
  | some cell => (cell, env.assign cell value)
  | none => env.define t name value

/-- Shares the global cell of a name with a table. A name without a global cell gets one, unset. -/
def importGlobal (env : Env) (t : TableRef) (name : String) : CellRef × Env :=
  let root := ((env.table t).root).getD t
  match env.ownCell? root name with
  | some cell => (cell, env.bind t name cell)
  | none =>
    let (cell, env) := env.define root name none
    (cell, env.bind t name cell)

end Env

end DecimalScript
