import DecimalScript.Program.Basic
import DecimalScript.Scope.Tracker

/-!
# What function literals capture

Reading a function literal in the order in which it runs, without running it, gives the names that
it takes from the environment in which it is evaluated. Defaults of parameters are read in the
body's own scope, each before its parameter is bound.
-/

namespace DecimalScript

namespace Capture

mutual

/-- The names of an expression. -/
def ofExpr (t : Tracker) : Expr → Tracker
  | .number _ _ _ | .string _ _ | .boolean _ _ => t
  | .name _ name => t.read name
  | .lookup _ target key => ofExpr (ofExpr t target) key
  | .binary _ _ left right => ofExpr (ofExpr t left) right
  | .unary _ _ operand => ofExpr t operand
  | .array _ elements => ofExprs t elements
  | .dictionary _ entries => ofEntries t entries
  | .function _ parameters body => t.endScope (ofBlock (ofParameters t.child parameters) body)
  | .call _ callee arguments => ofExprs (ofExpr t callee) arguments

/-- The names of expressions, in order. -/
def ofExprs (t : Tracker) : List Expr → Tracker
  | [] => t
  | e :: es => ofExprs (ofExpr t e) es

/-- The names of entries, in order, each key before its value. -/
def ofEntries (t : Tracker) : List Entry → Tracker
  | [] => t
  | .mk key value :: es => ofEntries (ofExpr (ofExpr t key) value) es

/-- The names of parameters, in order, each default before its parameter. -/
def ofParameters (t : Tracker) : List Parameter → Tracker
  | [] => t
  | .mk _ name none :: ps => ofParameters (t.addLocal name) ps
  | .mk _ name (some default) :: ps => ofParameters ((ofExpr t default).addLocal name) ps

/-- The names of a block. -/
def ofBlock (t : Tracker) : Block → Tracker
  | .mk _ statements => ofStmts t statements

/-- The names of a statement; a value is read before the variable that takes it is written. -/
def ofStmt (t : Tracker) : Stmt → Tracker
  | .assignVariable _ _ name value => (ofExpr t value).write name
  | .assignElement _ _ target key value => ofExpr (ofExpr (ofExpr t value) target) key
  | .call _ _ callee arguments => ofExprs (ofExpr t callee) arguments
  | .ret _ value => ofExpr t value
  | .declareGlobal _ names => names.foldl Tracker.addGlobal t
  | .branch _ condition body otherwise =>
    ofOtherwise (ofBlock (ofExpr t condition) body) otherwise
  | .loop _ condition body => ofBlock (ofExpr t condition) body
  | .each _ source none value body => ofBlock ((ofExpr t source).write value) body
  | .each _ source (some key) value body =>
    ofBlock (((ofExpr t source).write key).write value) body

/-- The names of statements, in order. -/
def ofStmts (t : Tracker) : List Stmt → Tracker
  | [] => t
  | s :: ss => ofStmts (ofStmt t s) ss

/-- The names of what follows the block of a conditional. -/
def ofOtherwise (t : Tracker) : Otherwise → Tracker
  | .nothing => t
  | .block block => ofBlock t block
  | .branch _ condition body otherwise =>
    ofOtherwise (ofBlock (ofExpr t condition) body) otherwise

end

/-- The names of a function literal evaluated where the `outer` names are bound and the `globals`
are declared global. -/
def ofFunction (parameters : List Parameter) (body : Block) (outer globals : List String) :
    Tracker :=
  ofBlock (ofParameters (Tracker.enclosing outer globals).child parameters) body

end Capture

end DecimalScript
