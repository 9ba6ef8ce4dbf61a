import DecimalScript.Config.Basic
import DecimalScript.Machine.Step
import DecimalScript.Program.Parser

/-!
# Sessions

What a host can do with a machine: run source texts one after the other against the same global
variables, evaluate parts of programs, read and write global variables, and call functions. Running
a program starts and ends with the bottom frame alone; the other operations leave the frames as they
find them. Only a run knows the source text, so only its failures quote a line.
-/

namespace DecimalScript

/-! ### What a host allows -/

/-- Why a host does not take a configuration. -/
inductive HostFault where
  /-- The host cannot set a recursion limit as large as is needed. -/
  | recursionLimit (needed : Nat)
deriving DecidableEq

namespace Host

/-- The largest recursion limit that a host can set. -/
def maxRecursionLimit : Nat := 2147483647

/-- How many calls of the host one call of the script takes at most. -/
def callsPerCall : Nat := 30

/-- The recursion limit that a number of nested calls needs. -/
def neededRecursion (maxCallDepth : Nat) : Nat :=
  maxCallDepth * callsPerCall + 1000

/-- The host with its recursion limit raised far enough for a number of nested calls. It is only
ever raised, and what is raised stays so. -/
def raised (host : Host) (maxCallDepth : Nat) : Except HostFault Host :=
  let needed := neededRecursion maxCallDepth
  if needed ≤ host.recursionLimit then .ok host
  else if needed ≤ maxRecursionLimit then .ok { host with recursionLimit := needed }
  else .error (.recursionLimit needed)

end Host

namespace Session

/-- The span of what a host does. -/
def hostSpan : Span := ⟨some "<host>", .start, .start⟩

/-- A machine at the start of a session; the heap holds what the functions of the registry refer to.
Whether the host takes the configuration, and what becomes of the host, is said by `create`. -/
def start (config : Config) (registry : Registry) (heap : Heap := {}) : Machine :=
  if config.loadBuiltins then Machine.start registry heap else Machine.empty heap

/-- Starts a session: the machine, and the host with a recursion limit that is large enough, unless
the host refuses. What the host nests while it runs a script is bounded by the step budget of the
run, not by the recursion limit; that the limit has been raised is not logged. -/
def create (host : Host) (config : Config) (registry : Registry) (heap : Heap := {}) :
    Except HostFault (Host × Machine) := do
  let machine := start config registry heap
  return (← host.raised config.maxCallDepth, machine)

/-- Evaluates an expression in the active frame. -/
def evaluateExpr (limits : Limits) (budget : Nat) (e : Expr) : Eval Value :=
  evalExpr limits budget e

/-- Executes a statement in the active frame. -/
def evaluateStmt (limits : Limits) (budget : Nat) (s : Stmt) : Eval (Option Value) :=
  execStmt limits budget s

/-- Executes the statements of a program in the active frame. -/
def evaluateProgram (limits : Limits) (budget : Nat) (program : Program) : Eval (Option Value) :=
  Eval.sequence (execStmt limits budget) none program.statements

/-- Runs a program whose source text is given: with the bottom frame alone, and with the line of a
failure. -/
def run (limits : Limits) (budget : Nat) (program : Program) (source : String) :
    Eval (Option Value) :=
  fun m =>
    let outcome := evaluateProgram limits budget program m.resetFrames
    (outcome.mapFailure (·.quoting (Text.rows source))).mapMachine Machine.resetFrames

/-- Parses and runs a source text. -/
def runSource (limits : Limits) (budget : Nat) (source : String) (file : Option String) :
    Eval (Option Value) :=
  fun m =>
    match Program.parse source file with
    | .ok program => run limits budget program source m
    | .error failure => .failed failure m

/-- The value of a global variable. -/
def getVariable (name : String) : Eval Value :=
  fun m =>
    match m.env.get? Machine.globalTable name with
    | some value => .done value m
    | none => Eval.fail (.unsetVariable name) hostSpan m

/-- Assigns a global variable, or leaves it unset if there is no value. -/
def setVariable (name : String) (value : Option Value) : Eval Unit :=
  Eval.update (·.assign Machine.globalTable name value)

/-- Calls a value with arguments. -/
def callValue (limits : Limits) (budget : Nat) (callee : Value) (args : List Value)
    (name : Option String) : Eval (Option Value) :=
  Step.callValue limits (evalExpr limits budget) (Eval.sequence (execStmt limits budget) none) callee
    args hostSpan name

/-- Calls a global function by its name. -/
def call (limits : Limits) (budget : Nat) (name : String) (args : List Value) :
    Eval (Option Value) :=
  fun m =>
    match m.env.get? Machine.globalTable name with
    | some value => callValue limits budget value args (some name) m
    | none => Eval.fail (.undeclaredFunction name) hostSpan m

/-- Calls a function of a registry by its name, outside any script. -/
def callBuiltin (maxDigits : Nat) (registry : Registry) (name : String) (args : List Value) :
    Eval (Option Value) :=
  match registry.find? name with
  | none => Eval.fail (.undeclaredFunction name) hostSpan
  | some f => f.run maxDigits args hostSpan

end Session

end DecimalScript
