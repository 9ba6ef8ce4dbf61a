import DecimalScript.Program.Basic
import DecimalScript.Token.Lexer

/-!
# From tokens to programs

The grammar, from what binds loosest to what binds tightest: concatenation, disjunction and
conjunction group to the right; a relation has at most one relational operator and at most one
negation in front; sums, products and powers group to the left; a postfix expression has at most one
sign in front. One token decides how to go on everywhere, so the first token that cannot continue is
the one that is refused.

Repetition is one combinator, `many`: a list of operands with operators between them, of arguments,
of suffixes or of statements is a repetition whose items start with a token of some class. Nesting
is bounded by the number of tokens, since each level down takes at least one.
-/

namespace DecimalScript

/-! ### Parsers -/

/-- Why tokens are refused: the fault, the span it is about (none for the end of the text), and the
tokens from the offending one on. -/
structure Refusal where
  fault : GrammarFault
  span : Option Span
  rest : List Token

/-- Where a parser stands: the tokens to come, and where the last token taken ends. -/
structure Cursor where
  last : Position
  rest : List Token

/-- Takes tokens and gives a result, or refuses them. -/
def Parser (α : Type) : Type :=
  Cursor → Except Refusal (α × Cursor)

namespace Parser

/-- Gives a result and takes nothing. -/
@[inline] protected def pure {α : Type} (a : α) : Parser α :=
  fun cursor => .ok (a, cursor)

/-- Runs one parser, then the one that its result determines. -/
@[inline] protected def bind {α β : Type} (p : Parser α) (f : α → Parser β) : Parser β :=
  fun cursor =>
    match p cursor with
    | .ok (a, later) => f a later
    | .error refusal => .error refusal

instance : Monad Parser where
  pure := Parser.pure
  bind := Parser.bind

/-- The next token, which is not taken; none at the end. -/
def peek : Parser (Option Token) :=
  fun cursor => .ok (cursor.rest.head?, cursor)

/-- The end of the last token taken. -/
def lastEnd : Parser Position :=
  fun cursor => .ok (cursor.last, cursor)

/-- Refuses the next token, or the end, where something else is expected. -/
def refuse {α : Type} (expected : String) : Parser α :=
  fun cursor =>
    match cursor.rest with
    | [] => .error ⟨.unexpectedEnd expected, none, []⟩
    | token :: _ => .error ⟨.unexpectedToken expected token.lexeme, some token.span, cursor.rest⟩

/-- Refuses an expression at the next token. -/
def refuseExpr {α : Type} (fault : GrammarFault) (expr : Expr) : Parser α :=
  fun cursor => .error ⟨fault, some expr.span, cursor.rest⟩

/-- Takes the next token if the function accepts it. -/
def accept? {α : Type} (f : Token → Option α) : Parser (Option α) :=
  fun cursor =>
    match cursor.rest with
    | [] => .ok (none, cursor)
    | token :: rest =>
      match f token with
      | some a => .ok (some a, ⟨token.span.stop, rest⟩)
      | none => .ok (none, cursor)

/-- Takes the next token if the function accepts it, and refuses it otherwise. -/
def expect {α : Type} (expected : String) (f : Token → Option α) : Parser α :=
  fun cursor =>
    match cursor.rest with
    | [] => refuse expected cursor
    | token :: rest =>
      match f token with
      | some a => .ok (a, ⟨token.span.stop, rest⟩)
      | none => refuse expected cursor

/-- At most `bound` items, each started by a token that the function accepts; an item starts with
that token. -/
def manyUpTo {α σ : Type} (starts : Token → Option σ) (item : σ → Parser α) :
    (bound : Nat) → Parser (List α)
  | 0 => Parser.pure []
  | bound + 1 => fun cursor =>
    match cursor.rest.head?.bind starts with
    | none => .ok ([], cursor)
    | some s =>
      match item s cursor with
      | .error refusal => .error refusal
      | .ok (a, later) =>
        match manyUpTo starts item bound later with
        | .error refusal => .error refusal
        | .ok (as, final) => .ok (a :: as, final)

/-- As many items as there are; no more than there are tokens. The tokens are counted only if there
is an item. -/
def many {α σ : Type} (starts : Token → Option σ) (item : σ → Parser α) : Parser (List α) :=
  fun cursor =>
    match cursor.rest.head?.bind starts with
    | none => .ok ([], cursor)
    | some _ => manyUpTo starts item cursor.rest.length cursor

end Parser

namespace Grammar

open DecimalScript.Parser

/-! ### Tokens of a class -/

/-- A mark: gives its span. -/
def isMark (mark : Mark) (token : Token) : Option Span :=
  if token.content = .mark mark then some token.span else none

/-- A reserved word: gives its span. -/
def isWord (word : Word) (token : Token) : Option Span :=
  if token.content = .word word then some token.span else none

/-- A name: gives its spelling and span. -/
def isName (token : Token) : Option (String × Span) :=
  match token.content with
  | .name name => some (name, token.span)
  | _ => none

/-- Takes a mark. -/
def mark (m : Mark) : Parser Span :=
  expect (TokenKind.description (.mark m)) (isMark m)

/-- Takes a name, described by its role. -/
def name (role : String) : Parser (String × Span) :=
  expect role isName

/-! ### Operators -/

/-- A chain of operands: the first, and the others each behind an operator. -/
structure Chain (σ α : Type) where
  first : α
  others : List (σ × α)

/-- An operator and the operand behind it. -/
def link {σ α : Type} (operator : Token → Option σ) (expected : String) (operand : Parser α) :
    Parser (σ × α) := do
  let op ← expect expected operator
  let next ← operand
  return (op, next)

/-- Operands with operators between them. -/
def chain {σ α : Type} (operator : Token → Option σ) (expected : String) (operand : Parser α) :
    Parser (Chain σ α) := do
  let first ← operand
  let others ← many operator fun _ => link operator expected operand
  return ⟨first, others⟩

/-- An operation on two expressions, spanning both. -/
def binary (op : BinaryOp) (left right : Expr) : Expr :=
  .binary (left.span.upTo right.span) op left right

/-- A chain grouped to the left. -/
def leftGrouped (chain : Chain BinaryOp Expr) : Expr :=
  chain.others.foldl (fun left (op, right) => binary op left right) chain.first

/-- Operands grouped to the right. -/
def rightGroupedFrom (first : Expr) : List (BinaryOp × Expr) → Expr
  | [] => first
  | (op, next) :: others => binary op first (rightGroupedFrom next others)

/-- A chain grouped to the right. -/
def rightGrouped (chain : Chain BinaryOp Expr) : Expr :=
  rightGroupedFrom chain.first chain.others

/-- The operator of a mark, among those of one level. -/
def operatorIn (ops : List BinaryOp) (token : Token) : Option BinaryOp :=
  ops.find? fun op => token.content = .mark op.mark

/-- The operators of sums. -/
def sumOps : List BinaryOp := [.arithmetic .add, .arithmetic .subtract]

/-- The operators of products. -/
def productOps : List BinaryOp :=
  [.arithmetic .multiply, .arithmetic .divide, .arithmetic .remainder]

/-- The operators of powers. -/
def powerOps : List BinaryOp := [.arithmetic .power]

/-- The relational operators. -/
def relationOps : List BinaryOp :=
  [.relation .eq, .relation .ne, .relation .lt, .relation .le, .relation .gt, .relation .ge]

/-! ### Expressions -/

/-- Items between commas, up to a closing mark; there may be none. Gives the items and the span of
the closing mark. -/
def commaList {α : Type} (item : Parser α) (closing : Mark) : Parser (List α × Span) := do
  match ← accept? (isMark closing) with
  | some stop => return ([], stop)
  | none =>
    let items ← chain (isMark .comma) (TokenKind.description (.mark .comma)) item
    let stop ← mark closing
    return (items.first :: items.others.map (·.2), stop)

/-- An entry of a dictionary. -/
def entry (expr : Parser Expr) : Parser Entry := do
  let key ← expr
  let _ ← mark .colon
  let value ← expr
  return .mk key value

/-- A parameter of a function. -/
def parameter (expr : Parser Expr) : Parser Parameter := do
  let (name, span) ← name "parameter name"
  match ← accept? (isMark .assign) with
  | none => return .mk span name none
  | some _ =>
    let default ← expr
    let stop ← lastEnd
    return .mk { span with stop } name (some default)

/-- What a single token tells about the primary expression that it starts. -/
inductive Opening where
  | literal (expr : Expr)
  | group
  | array (span : Span)
  | dictionary (span : Span)
  | function (span : Span)

/-- How a primary expression can start. -/
def opening (token : Token) : Option Opening :=
  match token.content with
  | .number value => some (.literal (.number token.span value token.lexeme))
  | .string value => some (.literal (.string token.span value))
  | .name name => some (.literal (.name token.span name))
  | .word .trueWord => some (.literal (.boolean token.span true))
  | .word .falseWord => some (.literal (.boolean token.span false))
  | .word .functionWord => some (.function token.span)
  | .mark .lparen => some .group
  | .mark .lbracket => some (.array token.span)
  | .mark .lbrace => some (.dictionary token.span)
  | _ => none

/-- A literal, a name, a group, an array, a dictionary or a function. -/
def primary (expr : Parser Expr) (block : Parser Block) : Parser Expr := do
  match ← expect "expression" opening with
  | .literal literal => return literal
  | .group =>
    let inner ← expr
    let _ ← mark .rparen
    return inner
  | .array start =>
    let (elements, stop) ← commaList expr .rbracket
    return .array (start.upTo stop) elements
  | .dictionary start =>
    let (entries, stop) ← commaList (entry expr) .rbrace
    return .dictionary (start.upTo stop) entries
  | .function start =>
    let _ ← mark .lparen
    let (parameters, _) ← commaList (parameter expr) .rparen
    let body ← block
    return .function (start.upTo body.span) parameters body

/-- What may follow an expression: arguments or a key, up to the closing mark. -/
inductive Suffix where
  | call (arguments : List Expr) (stop : Span)
  | lookup (key : Expr) (stop : Span)

/-- How a suffix can start. -/
def suffixMark (token : Token) : Option Mark :=
  if token.content = .mark .lparen then some .lparen
  else if token.content = .mark .lbracket then some .lbracket
  else none

/-- Arguments or a key. -/
def suffix (expr : Parser Expr) (opener : Mark) : Parser Suffix := do
  let _ ← mark opener
  match opener with
  | .lparen =>
    let (arguments, stop) ← commaList expr .rparen
    return .call arguments stop
  | _ =>
    let key ← expr
    let stop ← mark .rbracket
    return .lookup key stop

/-- An expression with a suffix. -/
def applySuffix (expr : Expr) : Suffix → Expr
  | .call arguments stop => .call (expr.span.upTo stop) expr arguments
  | .lookup key stop => .lookup (expr.span.upTo stop) expr key

/-- A primary expression with its suffixes. -/
def postfixed (expr : Parser Expr) (block : Parser Block) : Parser Expr := do
  let first ← primary expr block
  let suffixes ← many suffixMark (suffix expr)
  return suffixes.foldl applySuffix first

/-- The sign of an expression. -/
def signMark (token : Token) : Option (Option Span) :=
  if token.content = .mark .minus then some (some token.span)
  else if token.content = .mark .plus then some none
  else none

/-- A postfix expression with at most one sign; a plus sign leaves no trace. -/
def signed (operand : Parser Expr) : Parser Expr := do
  match ← accept? signMark with
  | some (some sign) =>
    let inner ← operand
    return .unary (sign.upTo inner.span) .negate inner
  | _ => operand

/-- Operands with operators of one level between them, grouped to the left. -/
def leftLevel (ops : List BinaryOp) (operand : Parser Expr) : Parser Expr := do
  return leftGrouped (← chain (operatorIn ops) "operator" operand)

/-- Operands with one operator between them, grouped to the right. -/
def rightLevel (op : BinaryOp) (operand : Parser Expr) : Parser Expr := do
  return rightGrouped (← chain (operatorIn [op]) "operator" operand)

/-- A relation: one operand, or two with a relational operator between them. -/
def relation (operand : Parser Expr) : Parser Expr := do
  let left ← operand
  match ← accept? (operatorIn relationOps) with
  | none => return left
  | some op =>
    let right ← operand
    return binary op left right

/-- A relation with at most one negation in front. -/
def negation (operand : Parser Expr) : Parser Expr := do
  match ← accept? (isMark .not) with
  | none => operand
  | some start =>
    let inner ← operand
    return .unary (start.upTo inner.span) .not inner

/-- All levels of operators over postfix expressions. -/
def operators (operand : Parser Expr) : Parser Expr :=
  rightLevel .concat <| rightLevel .or <| rightLevel .and <| negation <| relation <|
    leftLevel sumOps <| leftLevel productOps <| leftLevel powerOps <| signed operand

/-! ### Statements -/

/-- A condition between parentheses. -/
def condition (expr : Parser Expr) : Parser Expr := do
  let _ ← mark .lparen
  let inner ← expr
  let _ ← mark .rparen
  return inner

/-- What follows the block of a conditional, with at most `bound` further conditions. -/
def otherwise (expr : Parser Expr) (block : Parser Block) :
    (bound : Nat) → Parser (Otherwise × Option Span)
  | 0 => return (.nothing, none)
  | bound + 1 => do
    match ← accept? (isWord .elseWord) with
    | none => return (.nothing, none)
    | some _ =>
      match ← accept? (isWord .ifWord) with
      | none =>
        let body ← block
        return (.block body, some body.span)
      | some start =>
        let test ← condition expr
        let body ← block
        let (later, stop) ← otherwise expr block bound
        let span := start.upTo (stop.getD body.span)
        return (.branch span test body later, some span)

/-- A conditional, behind its reserved word. -/
def branch (expr : Parser Expr) (block : Parser Block) (start : Span) : Parser Stmt := do
  let test ← condition expr
  let body ← block
  let (later, stop) ← fun cursor => otherwise expr block cursor.rest.length cursor
  return .branch (start.upTo (stop.getD body.span)) test body later

/-- A loop with a condition, behind its reserved word. -/
def loop (expr : Parser Expr) (block : Parser Block) (start : Span) : Parser Stmt := do
  let test ← condition expr
  let body ← block
  return .loop (start.upTo body.span) test body

/-- A loop over a container, behind its reserved word. -/
def each (expr : Parser Expr) (block : Parser Block) (start : Span) : Parser Stmt := do
  let _ ← mark .lparen
  let source ← expr
  let _ ← expect (TokenKind.description (.word .asWord)) (isWord .asWord)
  let (first, _) ← name "loop variable"
  match ← accept? (isMark .colon) with
  | none =>
    let _ ← mark .rparen
    let body ← block
    return .each (start.upTo body.span) source none first body
  | some _ =>
    let (second, _) ← name "loop variable"
    let _ ← mark .rparen
    let body ← block
    return .each (start.upTo body.span) source (some first) second body

/-- A declaration of global names, behind its reserved word. -/
def declareGlobal (start : Span) : Parser Stmt := do
  let names ← chain (isMark .comma) (TokenKind.description (.mark .comma)) (name "variable name")
  let stop ← mark .semicolon
  return .declareGlobal (start.upTo stop) (names.first.1 :: names.others.map (·.2.1))

/-- A return, behind its reserved word. -/
def ret (expr : Parser Expr) (start : Span) : Parser Stmt := do
  let value ← expr
  let stop ← mark .semicolon
  return .ret (start.upTo stop) value

/-- The value of an assignment and the end of its statement. -/
def assigned (expr : Parser Expr) : Parser (Expr × Span) := do
  let value ← expr
  let stop ← mark .semicolon
  return (value, stop)

/-- Refuses an expression that is neither assigned to nor a call, given the token behind it. -/
def refuseStatement (target : Expr) (next : Option Token) : Parser Stmt :=
  match next.bind (isMark .semicolon) with
  | some _ => refuseExpr .notAStatement target
  | none => refuse "'=' or '('"

/-- An assignment or a call; `start` is the span of its first token. -/
def assignmentOrCall (expr : Parser Expr) (block : Parser Block) (start : Span) :
    Parser Stmt := do
  let target ← postfixed expr block
  let next ← peek
  match ← accept? (isMark .assign) with
  | some _ =>
    match target with
    | .name span name =>
      let (value, stop) ← assigned expr
      return .assignVariable (start.upTo stop) span name value
    | .lookup span container key =>
      let (value, stop) ← assigned expr
      return .assignElement (start.upTo stop) span container key value
    | _ => fun cursor => .error ⟨.notAssignable, some target.span, next.toList ++ cursor.rest⟩
  | none =>
    match target with
    | .call span callee arguments =>
      let stop ← mark .semicolon
      return .call (start.upTo stop) span callee arguments
    | _ => refuseStatement target next

/-- The reserved words that start statements. -/
def statementWords : List Word := [.returnWord, .ifWord, .whileWord, .foreachWord, .globalWord]

/-- A reserved word that starts a statement: gives it and its span. -/
def statementWord (token : Token) : Option (Word × Span) :=
  match token.content with
  | .word word => if statementWords.contains word then some (word, token.span) else none
  | _ => none

/-- A statement. -/
def statement (expr : Parser Expr) (block : Parser Block) : Parser Stmt := do
  match ← accept? statementWord with
  | some (.returnWord, start) => ret expr start
  | some (.ifWord, start) => branch expr block start
  | some (.whileWord, start) => loop expr block start
  | some (.foreachWord, start) => each expr block start
  | some (_, start) => declareGlobal start
  | none =>
    match ← peek with
    | some token => assignmentOrCall expr block token.span
    | none => refuse "expression"

/-- Statements between braces. -/
def braced (statement : Parser Stmt) : Parser Block := do
  let start ← mark .lbrace
  let statements ← many (fun token => if token.content = .mark .rbrace then none else some ())
    fun _ => statement
  let stop ← mark .rbrace
  return .mk (start.upTo stop) statements

mutual

/-- An expression, nested at most `depth` levels deep. -/
def expression : (depth : Nat) → Parser Expr
  | 0 => refuse "expression"
  | depth + 1 => fun cursor => operators (postfixed (expression depth) (block depth)) cursor

/-- A block, nested at most `depth` levels deep. -/
def block : (depth : Nat) → Parser Block
  | 0 => refuse (TokenKind.description (.mark .lbrace))
  | depth + 1 => fun cursor => braced (statement (expression depth) (block depth)) cursor

end

/-- The statements up to the end of the text. -/
def statements : Parser (List Stmt) := fun cursor =>
  let depth := cursor.rest.length
  many (fun _ => some ()) (fun _ => statement (expression depth) (block depth)) cursor

end Grammar

namespace Program

/-- The span of a list of statements: from the first token to the last; the end of the text where
there are none. -/
def spanOf (stop : Span) : List Stmt → Span
  | [] => stop
  | first :: others => first.span.upTo ((others.getLast?.map Stmt.span).getD first.span)

/-- The program that tokens form; `stop` is the span of the end of the text. -/
def ofTokens (tokens : List Token) (stop : Span) : Except Refusal Program :=
  match Grammar.statements ⟨stop.start, tokens⟩ with
  | .ok (statements, _) => .ok ⟨spanOf stop statements, statements⟩
  | .error refusal => .error refusal

end Program

/-- The failure for refused tokens. The line is quoted unless the text ended too early. -/
def Refusal.toFailure (refusal : Refusal) (stop : Span) (lines : List String) : Failure :=
  let failure : Failure :=
    { fault := .grammatical refusal.fault, span := refusal.span.getD stop }
  match refusal.fault with
  | .unexpectedEnd _ => failure
  | _ => failure.quoting lines

namespace Program

/-- The program of a source text. Faults in the grammar quote their line if `quoteLines` is set. -/
def parse (source : String) (file : Option String) (quoteLines : Bool := true) :
    Except Failure Program :=
  let scan := Lexer.scan source file
  match scan.ending with
  | .error failure => .error failure
  | .ok position =>
    let stop : Span := ⟨file, position, position⟩
    match ofTokens scan.tokens stop with
    | .ok program => .ok program
    | .error refusal =>
      .error (refusal.toFailure stop (if quoteLines then Text.lines source else []))

end Program

end DecimalScript
