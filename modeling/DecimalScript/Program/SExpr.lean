import DecimalScript.Program.Basic
import DecimalScript.Token.Escape

/-!
# Programs as S-expressions

A compact form that shows how a program is grouped: every operation, container, function and
statement is a list between parentheses with its operator in front.
-/

namespace DecimalScript

namespace SExpr

/-- A list between parentheses. -/
def list (items : List String) : String :=
  "(" ++ " ".intercalate items ++ ")"

/-- The head of an operation on two expressions; the logical operators are spelled out. -/
def binaryHead : BinaryOp → String
  | .and => "and"
  | .or => "or"
  | op => op.mark.text

/-- The head of an operation on one expression. -/
def unaryHead : UnaryOp → String
  | .not => "not"
  | op => op.mark.text

mutual

/-- An expression as an S-expression. -/
def ofExpr : Expr → String
  | .number _ _ text => text
  | .string _ value => Escape.quote value
  | .boolean _ value => if value then "true" else "false"
  | .name _ name => name
  | .lookup _ target key => list ["lookup", ofExpr target, ofExpr key]
  | .binary _ op left right => list [binaryHead op, ofExpr left, ofExpr right]
  | .unary _ op operand => list [unaryHead op, ofExpr operand]
  | .array _ elements => list ("array" :: ofExprs elements)
  | .dictionary _ entries => list ("dict" :: ofEntries entries)
  | .function _ parameters body => list ["function", list (ofParameters parameters), ofBlock body]
  | .call _ callee arguments => list (ofExpr callee :: ofExprs arguments)

/-- Expressions, one by one. -/
def ofExprs : List Expr → List String
  | [] => []
  | e :: es => ofExpr e :: ofExprs es

/-- An entry: its key and its value. -/
def ofEntry : Entry → String
  | .mk key value => list [ofExpr key, ofExpr value]

/-- Entries, one by one. -/
def ofEntries : List Entry → List String
  | [] => []
  | e :: es => ofEntry e :: ofEntries es

/-- A parameter: its name, or an assignment of its default. -/
def ofParameter : Parameter → String
  | .mk _ name none => name
  | .mk _ name (some value) => list ["set!", name, ofExpr value]

/-- Parameters, one by one. -/
def ofParameters : List Parameter → List String
  | [] => []
  | p :: ps => ofParameter p :: ofParameters ps

/-- A block: the list of its statements. -/
def ofBlock : Block → String
  | .mk _ statements => list (ofStmts statements)

/-- A statement as an S-expression. -/
def ofStmt : Stmt → String
  | .assignVariable _ _ name value => list ["set!", name, ofExpr value]
  | .assignElement _ _ target key value =>
    list ["set!", list ["lookup", ofExpr target, ofExpr key], ofExpr value]
  | .call _ _ callee arguments => list (ofExpr callee :: ofExprs arguments)
  | .ret _ value => list ["return", ofExpr value]
  | .declareGlobal _ names => list ("global" :: names)
  | .branch _ condition body otherwise =>
    list ("if" :: ofExpr condition :: ofBlock body :: ofOtherwise otherwise)
  | .loop _ condition body => list ["while", ofExpr condition, ofBlock body]
  | .each _ source key value body =>
    let binding := match key with
      | none => value
      | some key => list [key, value]
    list ["foreach", ofExpr source, binding, ofBlock body]

/-- Statements, one by one. -/
def ofStmts : List Stmt → List String
  | [] => []
  | s :: ss => ofStmt s :: ofStmts ss

/-- What follows the block of a conditional, if anything. -/
def ofOtherwise : Otherwise → List String
  | .nothing => []
  | .block block => [ofBlock block]
  | .branch _ condition body otherwise =>
    [list ("if" :: ofExpr condition :: ofBlock body :: ofOtherwise otherwise)]

end

end SExpr

/-- A program as S-expressions, one for each statement. -/
def Program.sexprs (program : Program) : List String :=
  SExpr.ofStmts program.statements

/-- A program as S-expressions on one line. -/
def Program.sexpr (program : Program) : String :=
  " ".intercalate program.sexprs

end DecimalScript
