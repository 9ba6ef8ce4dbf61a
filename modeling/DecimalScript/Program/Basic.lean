import DecimalScript.Decimal.Basic
import DecimalScript.Token.Basic

/-!
# Programs

The abstract form of a script: expressions, statements and blocks. Every node knows the span of
source text it was read from. Grouping parentheses and a plus sign leave no trace, so a program says
how its source is grouped by its shape alone.
-/

namespace DecimalScript

/-- The arithmetic operators. -/
inductive ArithmeticOp where
  | add
  | subtract
  | multiply
  | divide
  | remainder
  | power
deriving DecidableEq

/-- The relational operators. -/
inductive Relation where
  | eq
  | ne
  | lt
  | le
  | gt
  | ge
deriving DecidableEq

/-- The operators between two expressions. -/
inductive BinaryOp where
  | concat
  | or
  | and
  | relation (relation : Relation)
  | arithmetic (op : ArithmeticOp)
deriving DecidableEq

/-- The operators in front of an expression. -/
inductive UnaryOp where
  | negate
  | not
deriving DecidableEq

/-- The mark of an arithmetic operator. -/
def ArithmeticOp.mark : ArithmeticOp → Mark
  | .add => .plus
  | .subtract => .minus
  | .multiply => .star
  | .divide => .slash
  | .remainder => .percent
  | .power => .caret

/-- The mark of a relational operator. -/
def Relation.mark : Relation → Mark
  | .eq => .eq
  | .ne => .ne
  | .lt => .lt
  | .le => .le
  | .gt => .gt
  | .ge => .ge

/-- The mark of an operator between two expressions. -/
def BinaryOp.mark : BinaryOp → Mark
  | .concat => .tilde
  | .or => .or
  | .and => .and
  | .relation r => r.mark
  | .arithmetic op => op.mark

/-- The mark of an operator in front of an expression. -/
def UnaryOp.mark : UnaryOp → Mark
  | .negate => .minus
  | .not => .not

mutual

/-- An expression: what has a value. -/
inductive Expr where
  /-- A number and its spelling. -/
  | number (span : Span) (value : Decimal) (text : String)
  | string (span : Span) (value : String)
  | boolean (span : Span) (value : Bool)
  | name (span : Span) (name : String)
  /-- An element of an array or a dictionary. -/
  | lookup (span : Span) (target key : Expr)
  | binary (span : Span) (op : BinaryOp) (left right : Expr)
  | unary (span : Span) (op : UnaryOp) (operand : Expr)
  | array (span : Span) (elements : List Expr)
  | dictionary (span : Span) (entries : List Entry)
  | function (span : Span) (parameters : List Parameter) (body : Block)
  | call (span : Span) (callee : Expr) (arguments : List Expr)

/-- A key and a value in a dictionary. -/
inductive Entry where
  | mk (key value : Expr)

/-- A parameter of a function, with its default if it has one. -/
inductive Parameter where
  | mk (span : Span) (name : String) (default : Option Expr)

/-- Statements between braces. -/
inductive Block where
  | mk (span : Span) (statements : List Stmt)

/-- A statement. -/
inductive Stmt where
  | assignVariable (span nameSpan : Span) (name : String) (value : Expr)
  /-- Assignment to an element of an array or a dictionary. -/
  | assignElement (span lookupSpan : Span) (target key value : Expr)
  | call (span callSpan : Span) (callee : Expr) (arguments : List Expr)
  | ret (span : Span) (value : Expr)
  | declareGlobal (span : Span) (names : List String)
  | branch (span : Span) (condition : Expr) (body : Block) (otherwise : Otherwise)
  | loop (span : Span) (condition : Expr) (body : Block)
  /-- A loop over the elements of an array or, with a variable for the key, the entries of a
  dictionary. -/
  | each (span : Span) (source : Expr) (key : Option String) (value : String) (body : Block)

/-- What follows the block of a conditional. -/
inductive Otherwise where
  | nothing
  | block (block : Block)
  | branch (span : Span) (condition : Expr) (body : Block) (otherwise : Otherwise)

end

/-- A whole script. -/
structure Program where
  span : Span
  statements : List Stmt

/-- The span of an expression. -/
def Expr.span : Expr → Span
  | number span _ _ | string span _ | boolean span _ | name span _ | lookup span _ _
  | binary span _ _ _ | unary span _ _ | array span _ | dictionary span _ | function span _ _
  | call span _ _ => span

namespace Entry

/-- The key of an entry. -/
def key : Entry → Expr
  | mk key _ => key

/-- The value of an entry. -/
def value : Entry → Expr
  | mk _ value => value

/-- The span of an entry, from its key to its value. -/
def span (entry : Entry) : Span :=
  entry.key.span.upTo entry.value.span

end Entry

namespace Parameter

/-- The span of a parameter. -/
def span : Parameter → Span
  | mk span _ _ => span

/-- The name of a parameter. -/
def name : Parameter → String
  | mk _ name _ => name

/-- The default of a parameter, if it has one. -/
def default : Parameter → Option Expr
  | mk _ _ default => default

end Parameter

namespace Block

/-- The span of a block, braces included. -/
def span : Block → Span
  | mk span _ => span

/-- The statements of a block. -/
def statements : Block → List Stmt
  | mk _ statements => statements

end Block

/-- The span of a statement. -/
def Stmt.span : Stmt → Span
  | assignVariable span _ _ _ | assignElement span _ _ _ _ | call span _ _ _ | ret span _
  | declareGlobal span _ | branch span _ _ _ | loop span _ _ | each span _ _ _ _ => span

end DecimalScript
