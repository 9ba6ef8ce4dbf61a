import DecimalScript.Env.Basic
import DecimalScript.Value.Display

/-!
# Values and tables as listings show them

Where the text of a value shows what a script would print, an inspected value shows its kind and its
exact content: the scale of a number, the quotes of a string. Cells and tables are listed with their
names.
-/

namespace DecimalScript

namespace Inspect

/-- An inspected value: its content and its kind. -/
def tagged (content : String) (kind : Kind) : String :=
  "Value(" ++ content ++ ", " ++ kind.name ++ ")"

/-- A value inspected at most `depth` containers deep. -/
def within (heap : Heap) : (depth : Nat) → Value → String
  | _, .number d => tagged ("Decimal('" ++ d.scientific ++ "')") .number
  | _, .string s => tagged (Text.shown s) .string
  | _, .boolean b => tagged (if b then "True" else "False") .boolean
  | _, .function ref => tagged (Display.ofFunction (heap.function? ref)) .function
  | 0, .array _ => tagged Display.arrayMark .array
  | 0, .dictionary _ => tagged Display.dictionaryMark .dictionary
  | depth + 1, .array ref =>
    tagged (Display.bracketed ((heap.array ref).toList.map (within heap depth))) .array
  | depth + 1, .dictionary ref =>
    tagged
      (Display.braced ((heap.dictionary ref).entries.map fun entry =>
        (within heap depth entry.1, within heap depth entry.2)))
      .dictionary

end Inspect

/-- An inspected value. -/
def Heap.inspect (heap : Heap) (v : Value) : String :=
  Inspect.within heap (heap.containerCount + 1) v

namespace Env

/-- An inspected cell. -/
def inspectCell (env : Env) (heap : Heap) (cell : CellRef) : String :=
  match env.cells[cell.index]? with
  | none => "None"
  | some c =>
    "Variable(" ++ Text.shown c.name ++ ", " ++ ((c.value.map heap.inspect).getD "None") ++ ")"

/-- An inspected table: which it is, and its names. -/
def inspectTable (env : Env) (t : TableRef) : String :=
  let flavour := if env.isGlobal t then "global" else "local"
  "SymbolTable(" ++ flavour ++ ", " ++ Text.shownList (env.names t) ++ ")"

end Env

end DecimalScript
