import DecimalScript.Proofs.Breakpoints
import DecimalScript.Proofs.Declarations
import DecimalScript.Proofs.Stability
import Mathlib.Logic.Relation

/-!
# The machine as a transition system

Evaluation recurses over code, which hides the order in which it changes the machine. Here the same
changes are single transitions between situations. A situation is a machine together with what its
frames cannot tell: for every call in progress, which function runs and which of its parameters are
still to be bound. Both decide what may happen next.

- While parameters are bound, only expressions are evaluated; assignments, declarations and returns
  belong to the body.
- Only literals in the code of the active frame are made into functions, and only names that this
  code declares become global in it.

`Course limits script depth c c'` says that transitions lead from `c` to `c'` without leaving the
calls that are counted by `depth`. Invariants are proved for one transition at a time; that every
evaluation is made of transitions is shown once, for all of them.
-/

namespace DecimalScript

/-- A call in progress: the function that runs, and the parameters that are still to be bound. -/
structure Activation where
  function : UserFunction
  unbound : List Parameter

/-- A machine, and its calls in progress, the active one first. -/
structure Situation where
  machine : Machine
  calls : List Activation

/-- What code may do in the frame that runs it: the function literals that it evaluates there, and
the names that it declares global there. -/
structure Code where
  literal : Literal → Prop
  declares : String → Prop

/-- All that any code may do. -/
def Code.any : Code where
  literal := fun _ => True
  declares := fun _ => True

/-- What a program may do at top level. -/
def Program.code (program : Program) : Code where
  literal := fun l => l ∈ Literals.inStmts program.statements
  declares := fun n => Declares.inStmts n program.statements = true

/-- What the defaults and the body of a function may do. -/
def UserFunction.code (f : UserFunction) : Code where
  literal := fun l => l ∈ Literals.inParameters f.parameters ++ Literals.inBlock f.body
  declares := fun n => Declares.inBlock n f.body = true

/-- What the active frame may do: a call runs the code of its function, and the bottom frame runs a
script. -/
def Code.active (script : Code) : List Activation → Code
  | [] => script
  | a :: _ => a.function.code

/-- The active frame runs statements: no parameter is still to be bound. -/
def Settled : List Activation → Prop
  | [] => True
  | a :: _ => a.unbound = []

namespace Machine

/-- The machine before a call that is still to be granted: with a new table that shares the cells of
the closure. -/
def prepared (m : Machine) (f : UserFunction) (label : String) (arguments : Nat) : Machine :=
  (m.withCallTable f.closure).record (.call label arguments (m.depth + 1))

/-- The machine at the start of a call: with a frame for the new table. -/
def called (m : Machine) (f : UserFunction) (label : String) (arguments : Nat) : Machine :=
  (m.prepared f label arguments).enter
    { table := ⟨m.env.tables.size⟩, globalNames := f.globalNames, label := some label }

end Machine

/-- The changes that evaluation makes. A script says what the bottom frame may do. -/
inductive Transition (limits : Limits) (script : Code) : Situation → Situation → Prop
  /-- Something is logged. -/
  | record (m : Machine) (calls : List Activation) (event : LogEvent) :
    Transition limits script ⟨m, calls⟩ ⟨m.record event, calls⟩
  /-- Containers are made or changed, or something is printed. -/
  | data (m : Machine) (calls : List Activation) (arrays : Array (Array Value))
    (dictionaries : Array Dictionary) (output : String) :
    Transition limits script ⟨m, calls⟩
      ⟨{ m with heap := { m.heap with arrays, dictionaries }, output }, calls⟩
  /-- A function literal in the code of the active frame is evaluated. -/
  | makeFunction (m : Machine) (calls : List Activation) (name : Option String) (span : Span)
    (l : Literal) (hl : (script.active calls).literal l) :
    Transition limits script ⟨m, calls⟩
      ⟨(Step.makeFunction limits name span l.parameters l.body m).machine, calls⟩
  /-- A call is refused, because too many are in progress. -/
  | refuse (m : Machine) (calls : List Activation) (f : UserFunction) (label : String)
    (arguments : Nat) (hf : Function.user f ∈ m.heap.functions) :
    Transition limits script ⟨m, calls⟩
      ⟨m.prepared f label arguments, calls⟩
  /-- A function is called. -/
  | enter (m : Machine) (calls : List Activation) (f : UserFunction) (label : String)
    (arguments : Nat) (hf : Function.user f ∈ m.heap.functions)
    (hdepth : m.depth < limits.maxCallDepth) :
    Transition limits script ⟨m, calls⟩ ⟨m.called f label arguments, ⟨f, f.parameters⟩ :: calls⟩
  /-- The next parameter is bound. -/
  | bindParameter (m : Machine) (calls : List Activation) (f : UserFunction) (p : Parameter)
    (ps : List Parameter) (value : Option Value) :
    Transition limits script ⟨m, ⟨f, p :: ps⟩ :: calls⟩
      ⟨m.define m.frame.table p.name value, ⟨f, ps⟩ :: calls⟩
  /-- A call ends. -/
  | leave (m : Machine) (a : Activation) (calls : List Activation) :
    Transition limits script ⟨m, a :: calls⟩ ⟨m.leave, calls⟩
  /-- A variable of the active frame is assigned. -/
  | assign (m : Machine) (calls : List Activation) (name : String) (value : Value)
    (hsettled : Settled calls) :
    Transition limits script ⟨m, calls⟩ ⟨m.assign m.frame.table name (some value), calls⟩
  /-- A name is declared global. -/
  | declareGlobal (m : Machine) (calls : List Activation) (name : String)
    (hsettled : Settled calls) (hname : (script.active calls).declares name) :
    Transition limits script ⟨m, calls⟩ ⟨Step.declareGlobal m name, calls⟩
  /-- The active frame is about to return, or no longer is. -/
  | signal (m : Machine) (calls : List Activation) (value : Option Value)
    (hsettled : Settled calls) :
    Transition limits script ⟨m, calls⟩
      ⟨m.modifyFrame ({ · with pending := value }), calls⟩
  /-- A host sets a global variable between evaluations. -/
  | hostAssign (m : Machine) (name : String) (value : Option Value) :
    Transition limits script ⟨m, []⟩ ⟨m.assign Machine.globalTable name value, []⟩

/-- Transitions lead from one situation to another, and until then at least `depth` calls are in
progress. -/
def Course (limits : Limits) (script : Code) (depth : Nat) : Situation → Situation → Prop :=
  Relation.ReflTransGen fun c c' => depth ≤ c.calls.length ∧ Transition limits script c c'

namespace Course

variable {limits : Limits} {script : Code} {depth : Nat} {c c' c'' : Situation}

theorem refl (c : Situation) : Course limits script depth c c :=
  Relation.ReflTransGen.refl

theorem trans (h : Course limits script depth c c') (h' : Course limits script depth c' c'') :
    Course limits script depth c c'' :=
  Relation.ReflTransGen.trans h h'

/-- A transition is a course of as many calls as are active. -/
theorem single (hdepth : depth ≤ c.calls.length) (h : Transition limits script c c') :
    Course limits script depth c c' :=
  Relation.ReflTransGen.single ⟨hdepth, h⟩

/-- What is not left at some depth is not left at a smaller one. -/
theorem mono {depth' : Nat} (hdepth : depth' ≤ depth) (h : Course limits script depth c c') :
    Course limits script depth' c c' :=
  Relation.ReflTransGen.mono (fun _ _ hstep => ⟨Nat.le_trans hdepth hstep.1, hstep.2⟩) _ _ h

/-- What every transition keeps holds along a course. -/
theorem invariant {P : Situation → Prop}
    (hstep : ∀ {c c'}, depth ≤ c.calls.length → Transition limits script c c' → P c → P c')
    (h : Course limits script depth c c') (hc : P c) : P c' := by
  induction h with
  | refl => exact hc
  | tail _ hlast ih => exact hstep hlast.1 hlast.2 ih

end Course

/-- What transitions make of a machine at which nothing is called. -/
def Situation.Reachable (limits : Limits) (script : Code) (start : Machine) (c : Situation) : Prop :=
  Course limits script 0 ⟨start, []⟩ c

theorem Situation.Reachable.start (limits : Limits) (script : Code) (start : Machine) :
    Reachable limits script start ⟨start, []⟩ :=
  .refl _

/-- What is reached along a course from what is reached is reached. -/
theorem Situation.Reachable.course {limits : Limits} {script : Code} {start : Machine} {depth : Nat}
    {c c' : Situation} (hc : c.Reachable limits script start) (h : Course limits script depth c c') :
    c'.Reachable limits script start :=
  Course.trans hc (h.mono (Nat.zero_le depth))

end DecimalScript
