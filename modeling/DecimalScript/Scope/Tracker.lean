import DecimalScript.Scope.Names
import DecimalScript.Text.Shown

/-!
# Names of a function body

While the body of a function is read, a tracker sorts the names that occur in it. A use of a name is
settled by the first that applies: a name declared global needs no capture, nor does a local one; a
name visible from outside is captured, for writing as for reading; any other name becomes local when
it is written, and stays open when it is only read.
-/

namespace DecimalScript

/-- The names of one function body: those declared global here or outside, those visible from
enclosing functions, those introduced here, and those captured from outside. -/
structure Tracker where
  globals : Names := []
  outer : Names := []
  locals : Names := []
  upvalues : Names := []
deriving DecidableEq

namespace Tracker

/-- Stands for the environment of a function literal: the names bound in it, and those declared
global. -/
def enclosing (visible globals : List String) : Tracker where
  globals := Names.ofList globals
  locals := Names.ofList visible

/-- A new body inside this one: it sees what is visible here and inherits what is global here. -/
def child (parent : Tracker) : Tracker where
  globals := parent.globals
  outer := parent.outer.union parent.locals

/-- Introduces a name. -/
def addLocal (t : Tracker) (name : String) : Tracker :=
  { t with locals := t.locals.add name }

/-- Declares a name global. -/
def addGlobal (t : Tracker) (name : String) : Tracker :=
  { t with globals := t.globals.add name }

/-- Captures a name from outside. -/
def capture (t : Tracker) (name : String) : Tracker :=
  { t with upvalues := t.upvalues.add name }

/-- A name is read. -/
def read (t : Tracker) (name : String) : Tracker :=
  if t.globals.contains name || t.locals.contains name then t
  else if t.outer.contains name then t.capture name
  else t

/-- A name is written. -/
def write (t : Tracker) (name : String) : Tracker :=
  if t.globals.contains name || t.locals.contains name then t
  else if t.outer.contains name then t.capture name
  else t.addLocal name

/-- A body inside this one has been read: what it captures is captured here too, unless it is local
here. -/
def endScope (t inner : Tracker) : Tracker :=
  inner.upvalues.foldl (fun t name => if t.locals.contains name then t else t.capture name) t

/-- A tracker as log messages show it. -/
def text (t : Tracker) : String :=
  "ScopeTracker(global=" ++ Text.shownList t.globals ++ ", outer=" ++ Text.shownList t.outer ++
    ", local=" ++ Text.shownList t.locals ++ ", upvalues=" ++ Text.shownList t.upvalues ++ ")"

end Tracker

end DecimalScript
