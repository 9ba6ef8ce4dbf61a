import DecimalScript.Builtin.Run
import DecimalScript.Scope.Capture

/-!
# The steps of evaluation

What each expression and each statement does, given what its parts do. A step takes the evaluation
of expressions (`eval`), of the bodies of functions (`run`) and of statements (`exec`) as
parameters; tying the knot, with a budget that bounds the nesting of steps, gives `evalExpr` and
`execStmt`. Every statement yields a value or none, and a return is a note in the active frame that
stops the statements of that frame. -/

namespace DecimalScript

namespace Step

open Eval

/-! ### Functions -/

/-- What messages call a function: the name it is called by, its own name, or neither. An empty name
is none. -/
def labelOf (name own : Option String) : String :=
  let given := fun (n : Option String) => n.filter fun s => !s.isEmpty
  ((given name).or (given own)).getD "<anonymous>"

/-- What capture analysis says of a function literal in the active frame. -/
def literalScope (m : Machine) (parameters : List Parameter) (body : Block) : Tracker :=
  let table := m.frame.table
  let outer := if m.env.isGlobal table then [] else m.env.names table
  Capture.ofFunction parameters body outer m.frame.globalNames

/-- A new table for a closure: it shares cells of a table. -/
def capture (env : Env) (table : TableRef) (upvalues : Names) : CaptureMode → TableRef × Env
  | .used => env.addClosure Machine.globalTable table upvalues
  | .everything => env.addChild Machine.globalTable table

/-- Makes a function with a closure, which takes in the names declared global in the active frame.
-/
def closeFunction (name : Option String) (parameters : List Parameter) (body : Block)
    (scope : Tracker) (closure : TableRef) : Eval Value :=
  fun m =>
    let m := m.frame.globalNames.foldl (fun m n => m.importGlobal closure n) m
    let m := m.record (.closureMade name scope.upvalues scope.globals)
    let (value, heap) := m.heap.addFunction
      (.user { name, parameters, body, closure, globalNames := scope.globals })
    .done value { m with heap }

/-- Evaluates a function literal: captures the cells it uses from the active frame's table, and
shares the names declared global there. -/
def makeFunction (limits : Limits) (name : Option String) (span : Span)
    (parameters : List Parameter) (body : Block) : Eval Value :=
  fun m =>
    let scope := literalScope m parameters body
    let m := m.record (.captureAnalysis span scope)
    let (closure, env) := capture m.env m.frame.table scope.upvalues limits.capture
    closeFunction name parameters body scope closure { m with env }

/-- The value of a parameter without an argument: that of its default, or none. -/
def defaultValue (eval : Expr → Eval Value) (p : Parameter) : Eval (Option Value) :=
  match p.default with
  | some e => some <$> eval e
  | none => pure none

/-- Binds parameters to new cells: to arguments while there are any, then to defaults, which are
evaluated in the new frame, and else unset. -/
def bindParameters (eval : Expr → Eval Value) (table : TableRef) :
    List Parameter → List Value → Eval Unit
  | [], _ => pure ()
  | p :: ps, a :: as => do
    update (·.define table p.name (some a))
    bindParameters eval table ps as
  | p :: ps, [] => do
    let value ← defaultValue eval p
    update (·.define table p.name value)
    bindParameters eval table ps []

/-- Calls a built-in function. -/
def callNative (maxDigits : Nat) (f : NativeFunction) (label : String) (args : List Value)
    (span : Span) : Eval (Option Value) := do
  update (·.record (.nativeCall label args.length))
  f.run maxDigits args span

/-- Runs a function of the script in a frame of its own for a table: first the parameters, then the
body. -/
def runCall (eval : Expr → Eval Value) (run : List Stmt → Eval (Option Value)) (f : UserFunction)
    (table : TableRef) (label : String) (args : List Value) : Eval (Option Value) :=
  inFrame { table, globalNames := f.globalNames, label := some label } do
    bindParameters eval table f.parameters args
    run f.body.statements

/-- Calls a function of the script: a new table that shares the cells of the closure, and a run of
the function with it unless too many calls are in progress. -/
def callUser (limits : Limits) (eval : Expr → Eval Value)
    (run : List Stmt → Eval (Option Value)) (f : UserFunction) (label : String) (args : List Value)
    (span : Span) : Eval (Option Value) := do
  if f.parameters.length < args.length then
    fail (.argumentCount label f.parameters.length args.length) span
  else
    let table ← fun m =>
      let (table, env) := m.env.addChild Machine.globalTable f.closure
      Outcome.done table { m with env }
    let depth := (← machine).depth
    update (·.record (.call label args.length (depth + 1)))
    if limits.maxCallDepth ≤ depth then fail (.callDepth limits.maxCallDepth) span
    else runCall eval run f table label args

/-- Calls a value with arguments; `name` is the name it is called by. -/
def callValue (limits : Limits) (eval : Expr → Eval Value)
    (run : List Stmt → Eval (Option Value)) (callee : Value) (args : List Value) (span : Span)
    (name : Option String) : Eval (Option Value) := do
  match callee with
  | .function ref =>
    match (← machine).heap.function? ref with
    | some (.native f) => callNative limits.maxDigits f (labelOf name (some f.name)) args span
    | some (.user f) => callUser limits eval run f (labelOf name f.name) args span
    | none => fail (.notCallable .function) span
  | v => fail (.notCallable v.kind) span

/-! ### Expressions -/

/-- The value of a variable. -/
def readVariable (name : String) (span : Span) : Eval Value :=
  fun m =>
    match m.lookup? name with
    | some value => .done value m
    | none => fail (.unsetVariable name) span m

/-- Why the operands of an arithmetic operator are out of its reach. An operation that has no result
anyway is in reach, and a dividend that is smaller than the divisor is no effort. -/
def operandExcess? (limits : Limits) (op : ArithmeticOp) (a b : Decimal) : Option Excess :=
  match op with
  | .add | .subtract => Decimal.alignmentExcess? limits.maxDigits a b
  | .multiply => none
  | .divide => if b.isZero then none else Decimal.quotientExcess? limits.maxDigits a b
  | .remainder =>
    if b.isZero || a.isZero || a.isSmaller b then none
    else Decimal.remainderExcess? limits.maxDigits a b
  | .power =>
    match Decimal.powerIndex b limits.maxExponent with
    | .ok n => Decimal.powerExcess? limits.maxDigits a n
    | .error _ => none

/-- The exact result of an arithmetic operator. -/
def exact (limits : Limits) (op : ArithmeticOp) (a b : Decimal) : Except ArithmeticFault Decimal :=
  match op with
  | .add => .ok (a.add b)
  | .subtract => .ok (a.subtract b)
  | .multiply => .ok (a.multiply b)
  | .divide => a.divide b
  | .remainder => a.remainder b
  | .power => a.power b limits.maxExponent

/-- The result of an arithmetic operator: the exact one, brought within bounds. -/
def arithmetic (limits : Limits) (op : ArithmeticOp) (a b : Decimal) :
    Except RuntimeFault Decimal := do
  match operandExcess? limits op a b with
  | some excess => .error (.excess excess)
  | none =>
    let result ← (exact limits op a b).mapError RuntimeFault.arithmetic
    result.confined.mapError RuntimeFault.excess

/-- Whether a relation holds of two values. -/
def relation (r : Relation) (a b : Value) : Except RuntimeFault Bool :=
  match r with
  | .eq => a.equal b
  | .ne => (a.equal b).map (!·)
  | .lt => (a.order b).map (· == .lt)
  | .le => (a.order b).map (· != .gt)
  | .gt => (a.order b).map (· == .gt)
  | .ge => (a.order b).map (· != .lt)

/-- The truth of an expression. -/
def condition (eval : Expr → Eval Value) (e : Expr) : Eval Bool := do
  ofExcept e.span (← eval e).toBoolean

/-- An operation on two expressions. The logical operators evaluate the right one only if the left
one does not settle the result. -/
def binary (limits : Limits) (eval : Expr → Eval Value) (span : Span) (op : BinaryOp)
    (left right : Expr) : Eval Value := do
  match op with
  | .and => if ← condition eval left then return .boolean (← condition eval right)
            else return .boolean false
  | .or => if ← condition eval left then return .boolean true
           else return .boolean (← condition eval right)
  | .concat =>
    let a ← eval left
    let b ← eval right
    let heap := (← machine).heap
    let text ← ofExcept left.span (heap.write limits.maxDigits a)
    return .string (text ++ (← ofExcept right.span (heap.write limits.maxDigits b)))
  | .relation r =>
    let a ← eval left
    let b ← eval right
    return .boolean (← ofExcept span (relation r a b))
  | .arithmetic op =>
    let a ← eval left
    let b ← eval right
    let x ← ofExcept left.span a.toNumber
    let y ← ofExcept right.span b.toNumber
    return .ofDecimal (← ofExcept span (arithmetic limits op x y))

/-- An operation on one expression. -/
def unary (eval : Expr → Eval Value) (op : UnaryOp) (operand : Expr) : Eval Value := do
  let value ← eval operand
  match op with
  | .negate => return .ofDecimal (← ofExcept operand.span value.toNumber).negate
  | .not => return .boolean (!(← ofExcept operand.span value.toBoolean))

/-- The element of a container under a key. -/
def element (maxDigits : Nat) (heap : Heap) (container key : Value)
    (targetSpan keySpan : Span) : Eval Value :=
  match container with
  | .array ref => do
    let index ← ofExcept keySpan (key.toIndex (heap.array ref).size)
    match (heap.array ref)[index]? with
    | some value => return value
    | none => fail (.notIndexable .array) targetSpan
  | .dictionary ref =>
    match (heap.dictionary ref).get? key with
    | some value => pure value
    | none => do fail (.missingKey (← ofExcept keySpan (heap.write maxDigits key))) keySpan
  | v => fail (.notIndexable v.kind) targetSpan

/-- The entries of a dictionary literal, from left to right, each key before its value. -/
def entries (eval : Expr → Eval Value) : List Entry → Eval (List (Value × Value)) :=
  all fun entry => do
    let key ← eval entry.key
    let value ← eval entry.value
    return (key, value)

/-- What a name calls: its value, which has to be set. Gives the name too. -/
def namedCallee (name : String) (span : Span) : Eval (Value × Option String) :=
  fun m =>
    match m.lookup? name with
    | some value => .done (value, some name) m
    | none => fail (.undeclaredFunction name) span m

/-- What is called: what a name calls, or the value of any other expression. -/
def callee (eval : Expr → Eval Value) : Expr → Eval (Value × Option String)
  | .name span name => namedCallee name span
  | e => do return (← eval e, none)

/-- A call. What is called has to be a function before arguments are evaluated. -/
def call (limits : Limits) (eval : Expr → Eval Value)
    (run : List Stmt → Eval (Option Value)) (span : Span) (target : Expr)
    (arguments : List Expr) : Eval (Option Value) := do
  let (function, name) ← callee eval target
  if function.kind ≠ .function then fail (.notCallable function.kind) target.span
  else
    let args ← all eval arguments
    callValue limits eval run function args span name

/-- What an expression does, given what its parts do. -/
def expr (limits : Limits) (eval : Expr → Eval Value) (run : List Stmt → Eval (Option Value)) :
    Expr → Eval Value
  | .number _ value _ => pure (.ofDecimal value)
  | .string _ value => pure (.string value)
  | .boolean _ value => pure (.boolean value)
  | .name span name => readVariable name span
  | .lookup _ target key => do
    let container ← eval target
    let index ← eval key
    element limits.maxDigits (← machine).heap container index target.span key.span
  | .binary span op left right => binary limits eval span op left right
  | .unary _ op operand => unary eval op operand
  | .array _ elements => do newArray (← all eval elements)
  | .dictionary _ es => do newDictionary (.ofList (← entries eval es))
  | .function span parameters body => makeFunction limits none span parameters body
  | .call span target arguments => do
    match ← call limits eval run span target arguments with
    | some value => return value
    | none => fail .noValue span

/-! ### Statements -/

/-- The statements of a block; blocks share the table of their frame. -/
def block (exec : Stmt → Eval (Option Value)) (b : Block) : Eval (Option Value) :=
  sequence exec none b.statements

/-- Assigns in the table of the active frame. -/
def assignVariable (name : String) (value : Value) : Eval Unit :=
  update fun m => m.assign m.frame.table name (some value)

/-- The value of an assignment: a function literal takes the name of the variable. -/
def assignedValue (limits : Limits) (eval : Expr → Eval Value) (name : String) :
    Expr → Eval Value
  | .function span parameters body => makeFunction limits (some name) span parameters body
  | e => eval e

/-- Stores into an element of a container. -/
def storeElement (container key value : Value) (targetSpan keySpan : Span) : Eval Unit := do
  match container with
  | .array ref =>
    let heap := (← machine).heap
    let index ← ofExcept keySpan (key.toIndex (heap.array ref).size)
    update fun m => { m with heap := m.heap.modifyArray ref (·.setIfInBounds index value) }
  | .dictionary ref =>
    update fun m => { m with heap := m.heap.modifyDictionary ref (·.insert key value) }
  | v => fail (.notElementAssignable v.kind) targetSpan

/-- Declares a name global for the rest of the frame; inside a call the global cell is shared into
its table. -/
def declareGlobal (m : Machine) (name : String) : Machine :=
  let m := m.modifyFrame fun frame => { frame with globalNames := frame.globalNames.add name }
  let frame := m.frame
  if m.env.isGlobal frame.table then m
  else (m.importGlobal frame.table name).record (.globalImported frame.label name)

/-- What follows the block of a conditional whose condition is false. -/
def otherwise (eval : Expr → Eval Value) (exec : Stmt → Eval (Option Value)) :
    Otherwise → Eval (Option Value)
  | .nothing => pure (some (.boolean false))
  | .block b => block exec b
  | .branch _ test body later => do
    if ← condition eval test then block exec body else otherwise eval exec later

/-- A loop over a container. What it runs over is fixed at the start; its variables are variables of
the frame. -/
def each (exec : Stmt → Eval (Option Value)) (source : Value) (span : Span)
    (key : Option String) (value : String) (body : Block) : Eval (Option Value) := do
  let heap := (← machine).heap
  match source, key with
  | .array ref, none =>
    forEach (fun v => do assignVariable value v; block exec body) none (heap.array ref).toList
  | .array _, some _ => fail .pairsOfArray span
  | .dictionary _, none => fail .elementsOfDictionary span
  | .dictionary ref, some key =>
    forEach
      (fun entry => do
        assignVariable key entry.1
        assignVariable value entry.2
        block exec body)
      none (heap.dictionary ref).entries
  | v, _ => fail (.notIterable v.kind) span

/-- What a statement does, given what its parts do; `budget` bounds the rounds of a loop. -/
def stmt (limits : Limits) (budget : Nat) (eval : Expr → Eval Value)
    (exec : Stmt → Eval (Option Value)) : Stmt → Eval (Option Value)
  | .assignVariable _ _ name value => do
    let v ← assignedValue limits eval name value
    assignVariable name v
    return some v
  | .assignElement _ _ target key value => do
    let v ← eval value
    let container ← eval target
    let index ← eval key
    storeElement container index v target.span key.span
    return some v
  | .call _ span target arguments => call limits eval (sequence exec none) span target arguments
  | .ret _ value => do
    let v ← eval value
    update (·.modifyFrame fun frame => { frame with pending := some v })
    return some v
  | .declareGlobal _ names => do
    update fun m => names.foldl declareGlobal m
    return none
  | .branch _ test body later => do
    if ← condition eval test then block exec body else otherwise eval exec later
  | .loop _ test body => whileTrue (condition eval test) (block exec body) budget none
  | .each _ source key value body => do
    each exec (← eval source) source.span key value body

end Step

mutual

/-- The value of an expression, within a step budget. -/
def evalExpr (limits : Limits) : (budget : Nat) → Expr → Eval Value
  | 0, _ => Eval.exhaust
  | budget + 1, e => fun m =>
    Step.expr limits (evalExpr limits budget) (Eval.sequence (execStmt limits budget) none) e m

/-- The effect of a statement, within a step budget. -/
def execStmt (limits : Limits) : (budget : Nat) → Stmt → Eval (Option Value)
  | 0, _ => Eval.exhaust
  | budget + 1, s => fun m =>
    Step.stmt limits budget (evalExpr limits budget) (execStmt limits budget) s m

end

end DecimalScript
