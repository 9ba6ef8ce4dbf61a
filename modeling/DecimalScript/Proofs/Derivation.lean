import DecimalScript.Program.Basic

/-!
# Derivations

The grammar of scripts as a set of productions, and derivations as trees over it. An optional or
repeated part of a production is a symbol of its own, with an empty production where there is
nothing more. A leaf holds a token of the kind that the production asks for, so the tokens of a tree
are a text that the grammar derives, and the tree is the derivation.

- `Production`, `ParseTree`: the grammar and its derivations.
- `ParseTree.yield`, `ParseTree.meaning`: the tokens of a derivation, and what it says.
- `Passes`, `ParseTree.holds_meaning`: what every production hands on holds of what derivations say.
- `ParseTree.Admissible`: the restriction on statements that are a call or an assignment.
- `ParseTree.induction`: what passes from the parts of a derivation to the whole holds of all.

The operators that group to the left are the one place where derivations and programs are shaped
differently. Their rests nest to the right, as a parser with one token of lookahead finds them; what
they say is a list of operators with operands, which `leftOperations` folds onto the first operand.
Suffixes of an expression are folded onto it in the same way.

What is said of a derivation as a whole, about its tokens and its meaning, is mostly of one kind: it
passes through every production, and holds of leaves. `HoldOf` says that it holds of all values of
the parts, `Passes` that a production hands it on, and `ParseTree.holds_meaning` is the induction
over derivations, done once for spans, places and spellings.
-/

namespace DecimalScript

namespace Derivations

/-! ### The grammar -/

/-- The levels of operators that group to the right, from the loosest. -/
inductive RightLevel where
  | concat
  | or
  | and

/-- The operator of a level. -/
def RightLevel.op : RightLevel → BinaryOp
  | concat => .concat
  | or => .or
  | and => .and

/-- The levels of operators that group to the left, from the loosest. -/
inductive LeftLevel where
  | sum
  | product
  | power

/-- The operators of a level. -/
def LeftLevel.ops : LeftLevel → List BinaryOp
  | sum => [.arithmetic .add, .arithmetic .subtract]
  | product => [.arithmetic .multiply, .arithmetic .divide, .arithmetic .remainder]
  | power => [.arithmetic .power]

/-- The operators of relations. -/
def relationOps : List BinaryOp :=
  [.relation .eq, .relation .ne, .relation .lt, .relation .le, .relation .gt, .relation .ge]

/-- How the grammar spells an operator. -/
def spelling : BinaryOp → Mark
  | .concat => .tilde
  | .or => .or
  | .and => .and
  | .relation .eq => .eq
  | .relation .ne => .ne
  | .relation .lt => .lt
  | .relation .le => .le
  | .relation .gt => .gt
  | .relation .ge => .ge
  | .arithmetic .add => .plus
  | .arithmetic .subtract => .minus
  | .arithmetic .multiply => .star
  | .arithmetic .divide => .slash
  | .arithmetic .remainder => .percent
  | .arithmetic .power => .caret

/-- What stands between commas. -/
inductive ItemKind where
  | expression
  | entry
  | parameter
  | name

/-- The symbols of the grammar. -/
inductive Symbol where
  | statements
  | block
  | statement
  | conditional
  /-- Nothing, or a reserved word with an alternative. -/
  | otherwise
  | alternative
  /-- Nothing, or an assigned value. -/
  | assigned
  /-- Nothing, or the second variable of a loop. -/
  | secondName
  | right (level : RightLevel)
  | rightRest (level : RightLevel)
  | negation
  | relation
  | relationRest
  | left (level : LeftLevel)
  | leftRest (level : LeftLevel)
  | signed
  | postfixed
  | suffixes
  | primary
  | item (kind : ItemKind)
  | items (kind : ItemKind)
  | itemsRest (kind : ItemKind)
  /-- Nothing, or the default of a parameter. -/
  | default

/-- An expression is whatever binds loosest. -/
abbrev Symbol.expression : Symbol := .right .concat

/-- The operands of a level. -/
def RightLevel.operand : RightLevel → Symbol
  | concat => .right .or
  | or => .right .and
  | and => .negation

/-- The operands of a level. -/
def LeftLevel.operand : LeftLevel → Symbol
  | sum => .left .product
  | product => .left .power
  | power => .signed

/-- A part of a production: a token of some kind, or a symbol. -/
inductive Part where
  | token (kind : TokenKind)
  | symbol (symbol : Symbol)

/-- A mark in a production. -/
abbrev Part.mark (m : Mark) : Part := .token (.mark m)

/-- A reserved word in a production. -/
abbrev Part.word (w : Word) : Part := .token (.word w)

/-- An expression in a production. -/
abbrev Part.expression : Part := .symbol .expression

/-- The kinds of tokens that are expressions by themselves. -/
def literalKinds : List TokenKind :=
  [.number, .string, .name, .word .trueWord, .word .falseWord]

/-- A symbol that consists of these parts. -/
inductive Only (required : List Part) : List Part → Type where
  | only : Only required required

/-- A symbol that is empty or consists of these parts. -/
inductive Optional (allowed : List Part) : List Part → Type where
  | absent : Optional allowed []
  | present : Optional allowed allowed

/-- A symbol that is empty or consists of an operator and what is behind it. -/
inductive Operation (ops : List BinaryOp) (behind : List Part) : List Part → Type where
  | absent : Operation ops behind []
  | present (op : BinaryOp) (h : op ∈ ops) : Operation ops behind (.mark (spelling op) :: behind)

/-- The statements. -/
inductive StatementForm : List Part → Type where
  | ret : StatementForm [.word .returnWord, .expression, .mark .semicolon]
  | branch : StatementForm [.symbol .conditional]
  | loop : StatementForm
      [.word .whileWord, .mark .lparen, .expression, .mark .rparen, .symbol .block]
  | each : StatementForm
      [.word .foreachWord, .mark .lparen, .expression, .word .asWord, .token .name,
        .symbol .secondName, .mark .rparen, .symbol .block]
  | declareGlobal : StatementForm
      [.word .globalWord, .symbol (.item .name), .symbol (.itemsRest .name), .mark .semicolon]
  | simple : StatementForm [.symbol .postfixed, .symbol .assigned, .mark .semicolon]

/-- What follows the reserved word of an alternative. -/
inductive AlternativeForm : List Part → Type where
  | branch : AlternativeForm [.symbol .conditional]
  | block : AlternativeForm [.symbol .block]

/-- A relation with a negation in front, or without. -/
inductive NegationForm : List Part → Type where
  | negated : NegationForm [.mark .not, .symbol .relation]
  | plain : NegationForm [.symbol .relation]

/-- A postfix expression with a sign in front, or without. -/
inductive SignedForm : List Part → Type where
  | negative : SignedForm [.mark .minus, .symbol .postfixed]
  | positive : SignedForm [.mark .plus, .symbol .postfixed]
  | plain : SignedForm [.symbol .postfixed]

/-- Arguments or a key, and the suffixes behind them. -/
inductive SuffixForm : List Part → Type where
  | absent : SuffixForm []
  | call : SuffixForm
      [.mark .lparen, .symbol (.items .expression), .mark .rparen, .symbol .suffixes]
  | lookup : SuffixForm [.mark .lbracket, .expression, .mark .rbracket, .symbol .suffixes]

/-- The expressions that no operator or suffix makes. -/
inductive PrimaryForm : List Part → Type where
  | literal (kind : TokenKind) (h : kind ∈ literalKinds) : PrimaryForm [.token kind]
  | group : PrimaryForm [.mark .lparen, .expression, .mark .rparen]
  | array : PrimaryForm [.mark .lbracket, .symbol (.items .expression), .mark .rbracket]
  | dictionary : PrimaryForm [.mark .lbrace, .symbol (.items .entry), .mark .rbrace]
  | function : PrimaryForm
      [.word .functionWord, .mark .lparen, .symbol (.items .parameter), .mark .rparen,
        .symbol .block]

/-- The parts of an item. -/
def ItemKind.parts : ItemKind → List Part
  | expression => [.expression]
  | entry => [.expression, .mark .colon, .expression]
  | parameter => [.token .name, .symbol .default]
  | name => [.token .name]

/-- The productions of the grammar: what each symbol may consist of. -/
def Production : Symbol → List Part → Type
  | .statements => Optional [.symbol .statement, .symbol .statements]
  | .block => Only [.mark .lbrace, .symbol .statements, .mark .rbrace]
  | .statement => StatementForm
  | .conditional => Only
      [.word .ifWord, .mark .lparen, .expression, .mark .rparen, .symbol .block, .symbol .otherwise]
  | .otherwise => Optional [.word .elseWord, .symbol .alternative]
  | .alternative => AlternativeForm
  | .assigned => Optional [.mark .assign, .expression]
  | .secondName => Optional [.mark .colon, .token .name]
  | .right l => Only [.symbol l.operand, .symbol (.rightRest l)]
  | .rightRest l => Optional [.mark (spelling l.op), .symbol (.right l)]
  | .negation => NegationForm
  | .relation => Only [.symbol (.left .sum), .symbol .relationRest]
  | .relationRest => Operation relationOps [.symbol (.left .sum)]
  | .left l => Only [.symbol l.operand, .symbol (.leftRest l)]
  | .leftRest l => Operation l.ops [.symbol l.operand, .symbol (.leftRest l)]
  | .signed => SignedForm
  | .postfixed => Only [.symbol .primary, .symbol .suffixes]
  | .suffixes => SuffixForm
  | .primary => PrimaryForm
  | .item k => Only k.parts
  | .items k => Optional [.symbol (.item k), .symbol (.itemsRest k)]
  | .itemsRest k => Optional [.mark .comma, .symbol (.item k), .symbol (.itemsRest k)]
  | .default => Optional [.mark .assign, .expression]

/-! ### Derivations and their tokens -/

mutual

/-- A derivation of a symbol. -/
inductive ParseTree : Symbol → Type where
  | node {s : Symbol} {parts : List Part} (p : Production s parts) (f : Forest parts) : ParseTree s

/-- Derivations of the parts of a production, in order. -/
inductive Forest : List Part → Type where
  | nil : Forest []
  | leaf {kind : TokenKind} {parts : List Part} (token : Token) (h : token.kind = kind)
      (f : Forest parts) : Forest (.token kind :: parts)
  | sub {s : Symbol} {parts : List Part} (t : ParseTree s) (f : Forest parts) :
      Forest (.symbol s :: parts)

end

mutual

/-- The tokens of a derivation. -/
def ParseTree.yield : {s : Symbol} → ParseTree s → List Token
  | _, .node _ f => f.yield

/-- The tokens of several derivations. -/
def Forest.yield : {parts : List Part} → Forest parts → List Token
  | _, .nil => []
  | _, .leaf token _ f => token :: f.yield
  | _, .sub t f => t.yield ++ f.yield

end

/-! ### What a derivation says

The meaning is put together from the nodes of programs alone. No function of the parser takes part:
which operand stands on which side, what a call is given and how operators group is said here in the
grammar's own terms, and the parser has to agree. -/

/-- What may follow an expression: arguments or a key, up to the closing mark. -/
inductive Suffix where
  | call (arguments : List Expr) (stop : Span)
  | lookup (key : Expr) (stop : Span)

/-- A conditional, as a statement or as the alternative of another one. -/
structure Conditional where
  span : Span
  test : Expr
  body : Block
  later : Otherwise

/-- The meaning of an item. -/
def ItemMeaning : ItemKind → Type
  | .expression => Expr
  | .entry => Entry
  | .parameter => Parameter
  | .name => String × Span

/-- What a derivation of a symbol gives. Lists of operands, suffixes and items are given as lists;
the symbol they belong to groups them. -/
def Meaning : Symbol → Type
  | .statements => List Stmt
  | .block => Block
  | .statement => Stmt
  | .conditional => Conditional
  | .otherwise => Otherwise × Option Span
  | .alternative => Otherwise × Span
  | .assigned | .default | .rightRest _ => Option Expr
  | .secondName => Option String
  | .right _ | .negation | .relation | .left _ | .signed | .postfixed | .primary => Expr
  | .relationRest => Option (BinaryOp × Expr)
  | .leftRest _ => List (BinaryOp × Expr)
  | .suffixes => List Suffix
  | .item k => ItemMeaning k
  | .items k | .itemsRest k => List (ItemMeaning k)

/-- The operands of a level are expressions. -/
def RightLevel.operandExpr : (l : RightLevel) → Meaning l.operand → Expr
  | concat, e | or, e | and, e => e

/-- The operands of a level are expressions. -/
def LeftLevel.operandExpr : (l : LeftLevel) → Meaning l.operand → Expr
  | sum, e | product, e | power, e => e

/-- What the parts of a production give: tokens, and for each symbol its tokens and its meaning. -/
def Values : List Part → Type
  | [] => Unit
  | .token _ :: parts => Token × Values parts
  | .symbol s :: parts => (List Token × Meaning s) × Values parts

/-- The spelling of a name. -/
def nameOf (token : Token) : String :=
  match token.content with
  | .name name => name
  | _ => token.lexeme

/-- The expression of a single token. -/
def literalOf (token : Token) : Expr :=
  match token.content with
  | .number value => .number token.span value token.lexeme
  | .string value => .string token.span value
  | .name name => .name token.span name
  | .word .trueWord => .boolean token.span true
  | _ => .boolean token.span false

/-- The span of the first token. -/
def firstSpan : List Token → Span
  | [] => ⟨none, .start, .start⟩
  | token :: _ => token.span

/-- Where the last token ends, or else a position before the tokens. -/
def endOf (before : Position) (tokens : List Token) : Position :=
  tokens.foldl (fun _ token => token.span.stop) before

/-- The statement of an expression and, if there is one, an assigned value. Only what may be
assigned to or is a call makes a statement; the others are given as returns, for want of anything
better, and `Admissible` leaves them out. -/
def simpleStmt (span : Span) : Expr → Option Expr → Stmt
  | .name nameSpan name, some value => .assignVariable span nameSpan name value
  | .lookup lookupSpan target key, some value => .assignElement span lookupSpan target key value
  | .call callSpan callee arguments, none => .call span callSpan callee arguments
  | e, _ => .ret span e

/-- A loop over a container, with one variable or two. -/
def eachStmt (span : Span) (source : Expr) (first : String) (body : Block) :
    Option String → Stmt
  | none => .each span source none first body
  | some second => .each span source (some first) second body

/-- A parameter; with a default it reaches to the end of the default's last token. -/
def parameterOf (name : Token) (tokens : List Token) : Option Expr → Parameter
  | none => .mk name.span (nameOf name) none
  | some e => .mk { name.span with stop := endOf name.span.stop tokens } (nameOf name) (some e)

/-- An operator between two expressions. -/
def operation (op : BinaryOp) (left right : Expr) : Expr :=
  .binary (left.span.upTo right.span) op left right

/-- An operation to the right, if there is one. -/
def rightOperation (op : BinaryOp) (first : Expr) : Option Expr → Expr
  | none => first
  | some rest => operation op first rest

/-- A relation, if there is an operator. -/
def relationOperation (first : Expr) : Option (BinaryOp × Expr) → Expr
  | none => first
  | some (op, second) => operation op first second

/-- Operators between operands, each with everything in front of it on its left. -/
def leftOperations (first : Expr) : List (BinaryOp × Expr) → Expr
  | [] => first
  | (op, next) :: others => leftOperations (operation op first next) others

/-- An expression with one suffix: it is called with the arguments, or looked into at the key. -/
def withSuffix (e : Expr) : Suffix → Expr
  | .call arguments stop => .call (e.span.upTo stop) e arguments
  | .lookup key stop => .lookup (e.span.upTo stop) e key

/-- An expression with suffixes, each behind everything in front of it. -/
def suffixed (e : Expr) : List Suffix → Expr
  | [] => e
  | suffix :: others => suffixed (withSuffix e suffix) others

/-- What a production makes of its parts. -/
def combine : (s : Symbol) → {parts : List Part} → Production s parts → Values parts → Meaning s
  | .statements, _, .absent, _ => []
  | .statements, _, .present, (first, others, _) => first.2 :: others.2
  | .block, _, .only, (start, ss, stop, _) => Block.mk (start.span.upTo stop.span) ss.2
  | .statement, _, .ret, (start, e, stop, _) => Stmt.ret (start.span.upTo stop.span) e.2
  | .statement, _, .branch, (c, _) => Stmt.branch c.2.span c.2.test c.2.body c.2.later
  | .statement, _, .loop, (start, _, e, _, body, _) =>
    Stmt.loop (start.span.upTo body.2.span) e.2 body.2
  | .statement, _, .each, (start, _, e, _, first, second, _, body, _) =>
    eachStmt (start.span.upTo body.2.span) e.2 (nameOf first) body.2 second.2
  | .statement, _, .declareGlobal, (start, first, others, stop, _) =>
    Stmt.declareGlobal (start.span.upTo stop.span) (first.2.1 :: others.2.map Prod.fst)
  | .statement, _, .simple, (target, value, stop, _) =>
    simpleStmt ((firstSpan target.1).upTo stop.span) target.2 value.2
  | .conditional, _, .only, (start, _, test, _, body, later, _) =>
    ⟨start.span.upTo (later.2.2.getD body.2.span), test.2, body.2, later.2.1⟩
  | .otherwise, _, .absent, _ => (.nothing, none)
  | .otherwise, _, .present, (_, alternative, _) => (alternative.2.1, some alternative.2.2)
  | .alternative, _, .branch, (c, _) => (.branch c.2.span c.2.test c.2.body c.2.later, c.2.span)
  | .alternative, _, .block, (b, _) => (.block b.2, Block.span b.2)
  | .assigned, _, .absent, _ => none
  | .assigned, _, .present, (_, e, _) => some e.2
  | .secondName, _, .absent, _ => none
  | .secondName, _, .present, (_, name, _) => some (nameOf name)
  | .right l, _, .only, (first, rest, _) => rightOperation l.op (l.operandExpr first.2) rest.2
  | .rightRest _, _, .absent, _ => none
  | .rightRest _, _, .present, (_, rest, _) => some rest.2
  | .negation, _, .negated, (start, e, _) =>
    Expr.unary (start.span.upTo (Expr.span e.2)) .not e.2
  | .negation, _, .plain, (e, _) => e.2
  | .relation, _, .only, (first, rest, _) => relationOperation first.2 rest.2
  | .relationRest, _, .absent, _ => none
  | .relationRest, _, .present op _, (_, second, _) => some (op, second.2)
  | .left l, _, .only, (first, others, _) => leftOperations (l.operandExpr first.2) others.2
  | .leftRest _, _, .absent, _ => []
  | .leftRest l, _, .present op _, (_, next, others, _) =>
    (op, l.operandExpr next.2) :: others.2
  | .signed, _, .negative, (start, e, _) =>
    Expr.unary (start.span.upTo (Expr.span e.2)) .negate e.2
  | .signed, _, .positive, (_, e, _) => e.2
  | .signed, _, .plain, (e, _) => e.2
  | .postfixed, _, .only, (e, suffixes, _) => suffixed e.2 suffixes.2
  | .suffixes, _, .absent, _ => []
  | .suffixes, _, .call, (_, arguments, stop, others, _) =>
    Suffix.call arguments.2 stop.span :: others.2
  | .suffixes, _, .lookup, (_, key, stop, others, _) => Suffix.lookup key.2 stop.span :: others.2
  | .primary, _, .literal _ _, (token, _) => literalOf token
  | .primary, _, .group, (_, e, _) => e.2
  | .primary, _, .array, (start, elements, stop, _) =>
    Expr.array (start.span.upTo stop.span) elements.2
  | .primary, _, .dictionary, (start, entries, stop, _) =>
    Expr.dictionary (start.span.upTo stop.span) entries.2
  | .primary, _, .function, (start, _, parameters, _, body, _) =>
    Expr.function (start.span.upTo (Block.span body.2)) parameters.2 body.2
  | .item .expression, _, .only, (e, _) => e.2
  | .item .entry, _, .only, (key, _, value, _) => Entry.mk key.2 value.2
  | .item .parameter, _, .only, (name, default, _) => parameterOf name default.1 default.2
  | .item .name, _, .only, (name, _) => (nameOf name, name.span)
  | .items _, _, .absent, _ => []
  | .items _, _, .present, (first, others, _) => first.2 :: others.2
  | .itemsRest _, _, .absent, _ => []
  | .itemsRest _, _, .present, (_, next, others, _) => next.2 :: others.2
  | .default, _, .absent, _ => none
  | .default, _, .present, (_, e, _) => some e.2

mutual

/-- What a derivation says. -/
def ParseTree.meaning : {s : Symbol} → ParseTree s → Meaning s
  | s, .node p f => combine s p f.values

/-- What several derivations give. -/
def Forest.values : {parts : List Part} → Forest parts → Values parts
  | _, .nil => ()
  | _, .leaf token _ f => (token, f.values)
  | _, .sub t f => ((t.yield, t.meaning), f.values)

end

/-- The program of some statements: it spans from the first one to the last. Without statements it
is at the end of the text. -/
def programOf (stop : Span) : List Stmt → Program
  | [] => ⟨stop, []⟩
  | first :: others => ⟨first.span.upTo (others.getLastD first).span, first :: others⟩

@[simp] theorem programOf_statements (stop : Span) (ss : List Stmt) :
    (programOf stop ss).statements = ss := by
  cases ss <;> rfl

/-! ### What holds of what derivations say

Some things are said of the meanings of all symbols at once: that the names in them are spelled like
names, that their places are places of tokens, that their spans lie in order. Each of them is shown
of one production at a time, given that it holds of the parts; `ParseTree.holds_meaning` is the
induction over derivations, made once. -/

/-- The tokens of the parts of a production. -/
def tokensOf : (parts : List Part) → Values parts → List Token
  | [], _ => []
  | .token _ :: parts, vs => vs.1 :: tokensOf parts vs.2
  | .symbol _ :: parts, vs => vs.1.1 ++ tokensOf parts vs.2

/-- `T` holds of each token among the parts of a production, with the kind that is asked for, and
`M` holds of what each symbol among them gives, with its tokens. -/
def HoldOf (T : TokenKind → Token → Prop) (M : (s : Symbol) → List Token → Meaning s → Prop) :
    (parts : List Part) → Values parts → Prop
  | [], _ => True
  | .token kind :: parts, vs => T kind vs.1 ∧ HoldOf T M parts vs.2
  | .symbol s :: parts, vs => M s vs.1.1 vs.1.2 ∧ HoldOf T M parts vs.2

/-- What holds of the parts of a symbol's productions holds of what these make of them. -/
def Passes (T : TokenKind → Token → Prop) (M : (s : Symbol) → List Token → Meaning s → Prop)
    (s : Symbol) : Prop :=
  ∀ {parts : List Part} (p : Production s parts) (vs : Values parts),
    HoldOf T M parts vs → M s (tokensOf parts vs) (combine s p vs)

/-- The tokens of the parts are the tokens of the derivations that they come from. -/
theorem Forest.tokensOf_values {parts : List Part} (f : Forest parts) :
    tokensOf parts f.values = f.yield := by
  cases f with
  | nil => rfl
  | leaf token _ f => exact congrArg (token :: ·) f.tokensOf_values
  | sub t f => exact congrArg (t.yield ++ ·) f.tokensOf_values

section

variable {T : TokenKind → Token → Prop} {M : (s : Symbol) → List Token → Meaning s → Prop}

mutual

/-- What every production passes on holds of what a whole derivation says, if it holds of the
tokens. -/
theorem ParseTree.holds_meaning (hpasses : ∀ s, Passes T M s) : ∀ {s : Symbol} (t : ParseTree s),
    (∀ token ∈ t.yield, T token.kind token) → M s t.yield t.meaning
  | s, .node p f, h => by
    have hwhole := hpasses s p f.values (f.holdOf_values hpasses h)
    rwa [f.tokensOf_values] at hwhole

/-- What every production passes on holds of the parts of each one. -/
theorem Forest.holdOf_values (hpasses : ∀ s, Passes T M s) : ∀ {parts : List Part}
    (f : Forest parts), (∀ token ∈ f.yield, T token.kind token) → HoldOf T M parts f.values
  | _, .nil, _ => trivial
  | _, .leaf token hkind f, h => by
    obtain ⟨htoken, hlater⟩ := List.forall_mem_cons.mp h
    exact ⟨hkind ▸ htoken, f.holdOf_values hpasses hlater⟩
  | _, .sub t f, h => by
    obtain ⟨hfirst, hlater⟩ := List.forall_mem_append.mp h
    exact ⟨t.holds_meaning hpasses hfirst, f.holdOf_values hpasses hlater⟩

end

end

/-! ### Statements that are a call or an assignment -/

/-- The forms of expressions that can be called for as statements or assigned to. -/
inductive Form where
  | name
  | lookup
  | call
deriving DecidableEq

/-- The form of an expression, if it is one of them. -/
def formOf : Expr → Option Form
  | .name _ _ => some .name
  | .lookup _ _ _ => some .lookup
  | .call _ _ _ => some .call
  | _ => none

/-- The form of a derivation, behind any grouping parentheses and, if `plus` is set, behind plus
signs as well. -/
def ParseTree.form (plus : Bool) : {s : Symbol} → ParseTree s → Option Form
  | .right _, .node .only (.sub t (.sub (.node .absent _) _)) => t.form plus
  | .negation, .node .plain (.sub t _) => t.form plus
  | .relation, .node .only (.sub t (.sub (.node .absent _) _)) => t.form plus
  | .left _, .node .only (.sub t (.sub (.node .absent _) _)) => t.form plus
  | .signed, .node .plain (.sub t _) => t.form plus
  | .signed, .node .positive (.leaf _ _ (.sub t _)) => if plus then t.form plus else none
  | .postfixed, .node .only (.sub t (.sub suffixes _)) => (suffixes.form plus).or (t.form plus)
  | .suffixes, .node .call (.leaf _ _ (.sub _ (.leaf _ _ (.sub others _)))) =>
    (others.form plus).or (some .call)
  | .suffixes, .node .lookup (.leaf _ _ (.sub _ (.leaf _ _ (.sub others _)))) =>
    (others.form plus).or (some .lookup)
  | .primary, .node (.literal .name _) _ => some .name
  | .primary, .node .group (.leaf _ _ (.sub t _)) => t.form plus
  | _, _ => none

/-- The restriction on one production: what is assigned to is a name or a lookup, and a statement
without an assignment is a call. -/
def Allowed (plus : Bool) : (s : Symbol) → {parts : List Part} → Production s parts →
    Forest parts → Prop
  | .statement, _, .simple, .sub target (.sub (.node .absent _) _) =>
    target.form plus = some .call
  | .statement, _, .simple, .sub target (.sub (.node .present _) _) =>
    target.form plus = some .name ∨ target.form plus = some .lookup
  | _, _, _, _ => True

mutual

/-- The restriction, everywhere in a derivation. -/
def ParseTree.Admissible (plus : Bool) : {s : Symbol} → ParseTree s → Prop
  | s, .node p f => Allowed plus s p f ∧ f.Admissible plus

/-- The restriction, everywhere in several derivations. -/
def Forest.Admissible (plus : Bool) : {parts : List Part} → Forest parts → Prop
  | _, .nil => True
  | _, .leaf _ _ f => f.Admissible plus
  | _, .sub t f => t.Admissible plus ∧ f.Admissible plus

end

/-! ### Taking derivations apart -/

section

variable {s x : Symbol} {kind : TokenKind} {parts : List Part}

/-- A derivation starts with a production of its symbol. -/
theorem ParseTree.exists_node (t : ParseTree s) :
    ∃ parts, ∃ p : Production s parts, ∃ f : Forest parts, t = .node p f := by
  cases t with
  | node p f => exact ⟨_, p, f, rfl⟩

/-- Where a token is asked for stands a token of that kind. -/
theorem Forest.exists_leaf (f : Forest (.token kind :: parts)) :
    ∃ token, ∃ hkind : token.kind = kind, ∃ f' : Forest parts, f = .leaf token hkind f' := by
  cases f with
  | leaf token hkind f => exact ⟨token, hkind, f, rfl⟩

/-- Where a symbol is asked for stands a derivation of it. -/
theorem Forest.exists_sub (f : Forest (.symbol x :: parts)) :
    ∃ (t : ParseTree x) (f' : Forest parts), f = .sub t f' := by
  cases f with
  | sub t f => exact ⟨t, f, rfl⟩

/-- Something holds of every derivation that is directly among these. -/
def Forest.All (P : {s : Symbol} → ParseTree s → Prop) : {parts : List Part} → Forest parts → Prop
  | _, .nil => True
  | _, .leaf _ _ f => f.All P
  | _, .sub t f => P t ∧ f.All P

mutual

/-- What passes from the parts of a derivation to the whole holds of all derivations. -/
theorem ParseTree.induction {P : {s : Symbol} → ParseTree s → Prop}
    (node : ∀ {s : Symbol} {parts : List Part} (p : Production s parts) (f : Forest parts),
      f.All P → P (.node p f)) : ∀ {s : Symbol} (t : ParseTree s), P t
  | _, .node p f => node p f (f.induction node)

theorem Forest.induction {P : {s : Symbol} → ParseTree s → Prop}
    (node : ∀ {s : Symbol} {parts : List Part} (p : Production s parts) (f : Forest parts),
      f.All P → P (.node p f)) : ∀ {parts : List Part} (f : Forest parts), f.All P
  | _, .nil => trivial
  | _, .leaf _ _ f => f.induction node
  | _, .sub t f => ⟨t.induction node, f.induction node⟩

end

end

/-! ### Derivations without operators -/

namespace ParseTree

/-- An operand alone at a level that groups to the left. -/
def leftAlone (l : LeftLevel) (t : ParseTree l.operand) : ParseTree (.left l) :=
  .node .only (.sub t (.sub (.node .absent .nil) .nil))

/-- An operand alone at a level that groups to the right. -/
def rightAlone (l : RightLevel) (t : ParseTree l.operand) : ParseTree (.right l) :=
  .node .only (.sub t (.sub (.node .absent .nil) .nil))

/-- A primary expression without suffixes. -/
def postfixedAlone (t : ParseTree .primary) : ParseTree .postfixed :=
  .node .only (.sub t (.sub (.node .absent .nil) .nil))

/-- A signed expression as a sum without operators. -/
def sumAlone (t : ParseTree .signed) : ParseTree (.left .sum) :=
  leftAlone .sum (leftAlone .product (leftAlone .power t))

/-- A sum as a relation without an operator. -/
def relationAlone (t : ParseTree (.left .sum)) : ParseTree .relation :=
  .node .only (.sub t (.sub (.node .absent .nil) .nil))

/-- A relation as an expression without operators. -/
def expressionAlone (t : ParseTree .negation) : ParseTree .expression :=
  rightAlone .concat (rightAlone .or (rightAlone .and t))

end ParseTree

end Derivations

end DecimalScript
