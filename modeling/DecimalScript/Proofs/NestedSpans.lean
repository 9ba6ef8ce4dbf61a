import DecimalScript.Proofs.ParsedPlaces
import DecimalScript.Proofs.SpanTrees

/-!
# Spans nest

The spans of a program that was read lie over the tokens of its text. A token is a tree of its own,
so the tokens and the parts of a production are trees in a row, and what the production makes of
them is a span around some of these, or leaves some of them out. That holds for a span that reaches
from token to token, from part to part, or from one to the other. Only two spans are given by tokens
alone: the one of an assignment or a call, and the one of a parameter with a default.

- `Laid.binary`, `Laid.withSuffix`, `Laid.conditional` and so on: what productions make of trees in
  a row.
- `laysOver`, `ParseTree.meaningLaid`: what a production makes of its parts lies over their tokens, and
  so does what a whole derivation says.
- `spans_nest`: the spans of a program that was read.
-/

namespace DecimalScript

open Derivations

/-! ### The spans of a derivation -/

/-- The spans of items. -/
def itemTrees : (k : ItemKind) → List (ItemMeaning k) → List SpanTree
  | .expression, es => exprTrees es
  | .entry, es => entryTrees es
  | .parameter, ps => parameterTrees ps
  | .name, _ => []

/-- The spans of a suffix, with the closing mark. -/
def suffixTrees : Suffix → List SpanTree
  | .call arguments stop => exprTrees arguments ++ [.node stop []]
  | .lookup key stop => [key.tree, .node stop []]

/-- The spans of a conditional. -/
def Derivations.Conditional.tree (c : Conditional) : SpanTree :=
  .node c.span (c.test.tree :: c.body.tree :: c.later.trees)

/-- The spans of what a derivation says. -/
def meaningTrees : (s : Symbol) → Meaning s → List SpanTree
  | .statements, ss => stmtTrees ss
  | .block, b => [Block.tree b]
  | .statement, s => [Stmt.tree s]
  | .conditional, c => [Conditional.tree c]
  | .otherwise, o => o.1.trees
  | .alternative, o => o.1.trees
  | .assigned, o | .default, o | .rightRest _, o => Option.elim o [] fun e => [Expr.tree e]
  | .secondName, _ => []
  | .right _, e | .negation, e | .relation, e | .left _, e | .signed, e | .postfixed, e
  | .primary, e => [Expr.tree e]
  | .relationRest, o => Option.elim o [] fun operand => [operand.2.tree]
  | .leftRest _, operands => List.map (fun operand => operand.2.tree) operands
  | .suffixes, suffixes => List.flatMap suffixTrees suffixes
  | .item k, item => itemTrees k [item]
  | .items k, items | .itemsRest k, items => itemTrees k items

theorem Derivations.RightLevel.operand_trees (l : RightLevel) (m : Meaning l.operand) :
    meaningTrees l.operand m = [(l.operandExpr m).tree] := by
  cases l <;> rfl

theorem Derivations.LeftLevel.operand_trees (l : LeftLevel) (m : Meaning l.operand) :
    meaningTrees l.operand m = [(l.operandExpr m).tree] := by
  cases l <;> rfl

/-- The span that is handed on with what follows a block is the last one of it. -/
def HandedOn : (s : Symbol) → Meaning s → Prop
  | .otherwise, o => o.2 = o.1.trees.getLast?.map SpanTree.span
  | .alternative, o => some o.2 = o.1.trees.getLast?.map SpanTree.span
  | _, _ => True

/-- What a derivation says lies over its tokens. -/
structure MeaningLaid (s : Symbol) (tokens : List Token) (m : Meaning s) : Prop where
  laid : Laid tokens (meaningTrees s m)
  handedOn : HandedOn s m

/-- The spans of the parts of a production, those of its tokens included. -/
def partTrees : (parts : List Part) → Values parts → List SpanTree
  | [], _ => []
  | .token _ :: parts, vs => vs.1.leaf :: partTrees parts vs.2
  | .symbol s :: parts, vs => meaningTrees s vs.1.2 ++ partTrees parts vs.2

/-- The parts of a production lie over their tokens. -/
abbrev PartsLaid : (parts : List Part) → Values parts → Prop :=
  HoldOf (fun _ _ => True) MeaningLaid

/-- What the productions of a symbol make of parts that lie over their tokens lies over them all. -/
def LaysOver (s : Symbol) : Prop :=
  ∀ {parts : List Part} (p : Production s parts) (vs : Values parts), PartsLaid parts vs →
    Laid (tokensOf parts vs) (meaningTrees s (combine s p vs))

/-- The parts of a production and its tokens lie in a row. -/
theorem laid_parts : ∀ {parts : List Part} (vs : Values parts), PartsLaid parts vs →
    Laid (tokensOf parts vs) (partTrees parts vs)
  | [], _, _ => .nil
  | .token _ :: _, vs, h => (Laid.leaf vs.1).append (laid_parts vs.2 h.2)
  | .symbol _ :: _, vs, h => h.1.laid.append (laid_parts vs.2 h.2)

namespace Laid

variable {tokens : List Token} {trees : List SpanTree}

/-- An operation around its operands. -/
theorem binary (op : BinaryOp) {left right : Expr}
    (h : Laid tokens ([left.tree, right.tree] ++ trees)) :
    Laid tokens ((operation op left right).tree :: trees) := by
  have hnode := h.enclose left.tree right.tree rfl rfl (.refl _)
  rwa [left.span_tree, right.span_tree] at hnode

/-- A chain grouped to the left. -/
theorem leftOperations (others : List (BinaryOp × Expr)) : ∀ {e : Expr},
    Laid tokens (e.tree :: others.map fun operand => operand.2.tree) →
      Laid tokens [(Derivations.leftOperations e others).tree] := by
  induction others with
  | nil => exact fun h => h
  | cons operand others ih => exact fun h => ih (binary operand.1 h)

/-- An expression around another one and a suffix. -/
theorem withSuffix {e : Expr} (suffix : Suffix)
    (h : Laid tokens ((e.tree :: suffixTrees suffix) ++ trees)) :
    Laid tokens ((Derivations.withSuffix e suffix).tree :: trees) := by
  cases suffix with
  | call arguments stop =>
    have hlast : (e.tree :: suffixTrees (.call arguments stop)).getLast? = some (.node stop []) :=
      List.getLast?_concat (l := e.tree :: exprTrees arguments)
    have hnode := h.enclose e.tree (.node stop []) rfl hlast
      (.cons_cons e.tree (List.sublist_append_left (exprTrees arguments) _))
    rwa [e.span_tree] at hnode
  | lookup key stop =>
    have hnode := h.enclose e.tree (.node stop []) rfl rfl
      (.cons_cons e.tree (List.sublist_append_left [key.tree] _))
    rwa [e.span_tree] at hnode

/-- An expression with its suffixes. -/
theorem suffixed (suffixes : List Suffix) : ∀ {e : Expr},
    Laid tokens (e.tree :: suffixes.flatMap suffixTrees) →
      Laid tokens [(Derivations.suffixed e suffixes).tree] := by
  induction suffixes with
  | nil => exact fun h => h
  | cons suffix suffixes ih =>
    intro e h
    rw [List.flatMap_cons] at h
    exact ih (withSuffix suffix h)

/-- An operation with one operand, from its sign on. -/
theorem unary (op : UnaryOp) (sign : Token) {e : Expr} (h : Laid tokens [sign.leaf, e.tree]) :
    Laid tokens [(Expr.unary (sign.span.upTo e.span) op e).tree] := by
  have hnode := h.encloseAll sign.leaf e.tree rfl rfl (List.sublist_cons_self ..)
  rwa [e.span_tree] at hnode

/-- A construct from one token to another. -/
theorem between (start stop : Token) {row children : List SpanTree}
    (h : Laid tokens (start.leaf :: row ++ [stop.leaf])) (hchildren : children.Sublist row) :
    Laid tokens [.node (start.span.upTo stop.span) children] :=
  h.encloseAll start.leaf stop.leaf rfl List.getLast?_concat
    ((hchildren.trans (List.sublist_append_left ..)).cons start.leaf)

/-- A construct from a reserved word to a block. -/
theorem toBlock (word : Token) {row children : List SpanTree} {body : Block}
    (h : Laid tokens (word.leaf :: row ++ [body.tree])) (hchildren : children.Sublist row) :
    Laid tokens [.node (word.span.upTo body.span) (children ++ [body.tree])] := by
  have hnode := h.encloseAll word.leaf body.tree rfl List.getLast?_concat
    ((hchildren.append (.refl [body.tree])).cons word.leaf)
  rwa [body.span_tree] at hnode

end Laid

/-- The literal of a token has its span. -/
theorem literalOf_tree (token : Token) : (literalOf token).tree = token.leaf := by
  unfold literalOf
  split <;> rfl

/-- The first span of tokens starts with them. -/
theorem firstSpan_startsWith {tokens : List Token} (h : tokens ≠ []) :
    (firstSpan tokens).StartsWith tokens := by
  cases tokens with
  | nil => exact absurd rfl h
  | cons token tokens => exact ⟨token, rfl, rfl, rfl⟩

/-- A span that ends with the last token stops with the tokens. -/
theorem stopsWith_endOf (file : Option String) (start : Position) (token : Token)
    (tokens : List Token) :
    Span.StopsWith ⟨file, start, endOf token.span.stop tokens⟩ (token :: tokens) := by
  induction tokens generalizing token with
  | nil => exact ⟨token, rfl, rfl⟩
  | cons next tokens ih => exact (ih next).append [token]

namespace Laid

variable {tokens : List Token}

/-- A conditional with what follows its block. -/
theorem conditional (word : Token) {row children : List SpanTree} {body : Block}
    {later : Otherwise} {stop : Option Span}
    (h : Laid tokens (word.leaf :: row ++ body.tree :: later.trees))
    (hstop : stop = later.trees.getLast?.map SpanTree.span) (hchildren : children.Sublist row) :
    Laid tokens [.node (word.span.upTo (stop.getD body.span))
      (children ++ body.tree :: later.trees)] := by
  have hlast : (word.leaf :: row ++ body.tree :: later.trees).getLast? =
      some (later.trees.getLast?.getD body.tree) := by
    rw [List.getLast?_append_cons, List.getLast?_cons]
  have hnode := h.encloseAll word.leaf _ rfl hlast
    ((hchildren.append (.refl (body.tree :: later.trees))).cons word.leaf)
  rw [hstop, ← body.span_tree, Option.getD_map]
  exact hnode

/-- A statement of an expression and, if there is one, an assigned value. -/
theorem simple {before behind : List Token} (stop : Token) {e : Expr} {value : Option Expr}
    (he : Laid before [e.tree]) (hvalue : Laid behind (value.elim [] fun e => [e.tree])) :
    Laid (before ++ (behind ++ [stop]))
      [(simpleStmt ((firstSpan before).upTo stop.span) e value).tree] := by
  have hstarts : ((firstSpan before).upTo stop.span).StartsWith (before ++ (behind ++ [stop])) :=
    (firstSpan_startsWith he.ne_nil).append _
  have hstops : ((firstSpan before).upTo stop.span).StopsWith (before ++ (behind ++ [stop])) :=
    Span.StopsWith.append (Span.StopsWith.append ⟨stop, rfl, rfl⟩ behind) before
  have hall := he.append (hvalue.append (nothing [stop]))
  have hfirst := he.append (nothing (behind ++ [stop]))
  -- What makes no statement is given as a return, without the value.
  unfold simpleStmt
  split
  · exact hall.around hstarts hstops
  · exact hall.around hstarts hstops
  · exact hfirst.around hstarts hstops
  · exact hfirst.around hstarts hstops

/-- A loop over a container. -/
theorem each (word opener sign name closer : Token) {e : Expr} {body : Block} (first : String)
    (second : Option String)
    (h : Laid tokens [word.leaf, opener.leaf, e.tree, sign.leaf, name.leaf, closer.leaf,
      body.tree]) :
    Laid tokens [(eachStmt (word.span.upTo body.span) e first body second).tree] := by
  have hkept : [e.tree].Sublist [opener.leaf, e.tree, sign.leaf, name.leaf, closer.leaf] := by simp
  have hnode := toBlock word h hkept
  cases second <;> exact hnode

/-- A parameter with its default. -/
theorem parameter (name : Token) {behind : List Token} {default : Option Expr}
    (h : Laid behind (default.elim [] fun e => [e.tree])) :
    Laid (name :: behind) [(parameterOf name behind default).tree] := by
  cases default with
  | none => exact .node ⟨name, rfl, rfl, rfl⟩ ⟨name, rfl, rfl⟩ (.nothing [name]) h
  | some e =>
    exact (h.behind [name]).around ⟨name, rfl, rfl, rfl⟩ (stopsWith_endOf _ _ name behind)

/-- An entry around its key and its value. -/
theorem entry (sign : Token) {key value : Expr}
    (h : Laid tokens [key.tree, sign.leaf, value.tree]) :
    Laid tokens [(Entry.mk key value).tree] := by
  have hnode := h.encloseAll key.tree value.tree rfl rfl
    (.cons_cons key.tree ((List.Sublist.refl [value.tree]).cons sign.leaf))
  rwa [key.span_tree, value.span_tree] at hnode

/-- A function around its parameters and its block. -/
theorem function (word opener closer : Token) {ps : List Parameter} {body : Block}
    (h : Laid tokens
      (word.leaf :: opener.leaf :: (parameterTrees ps ++ [closer.leaf, body.tree]))) :
    Laid tokens [(Expr.function (word.span.upTo body.span) ps body).tree] := by
  have hrow : Laid tokens
      (word.leaf :: (opener.leaf :: (parameterTrees ps ++ [closer.leaf])) ++ [body.tree]) := by
    simpa using h
  exact hrow.toBlock word ((List.sublist_append_left ..).cons opener.leaf)

/-- An operation to the right, if there is one. -/
theorem rightOperation (op : BinaryOp) {first : Expr} {rest : Option Expr}
    (h : Laid tokens (first.tree :: rest.elim [] fun e => [e.tree])) :
    Laid tokens [(rightOperation op first rest).tree] := by
  cases rest with
  | none => exact h
  | some e => exact h.binary op

/-- A relation, if there is an operator. -/
theorem relationOperation {first : Expr} {rest : Option (BinaryOp × Expr)}
    (h : Laid tokens (first.tree :: rest.elim [] fun operand => [operand.2.tree])) :
    Laid tokens [(relationOperation first rest).tree] := by
  cases rest with
  | none => exact h
  | some operand => exact h.binary operand.1

end Laid

/-! ### Rows of parts

Most productions have one of a few shapes: a symbol behind a sign, one symbol behind another, or a
symbol between two marks. Each shape is laid out once. -/

namespace PartsLaid

variable {kind stop : TokenKind} {x y : Symbol}

/-- Two symbols in a row. -/
theorem two {vs : Values [.symbol x, .symbol y]} (h : PartsLaid _ vs) :
    Laid (tokensOf _ vs) (meaningTrees x vs.1.2 ++ meaningTrees y vs.2.1.2) := by
  have hrow := laid_parts vs h
  -- The parts of a production end with an empty row.
  simp only [partTrees, List.append_nil] at hrow
  exact hrow

/-- A symbol behind a token that is left out. -/
theorem behindToken {vs : Values [.token kind, .symbol x]} (h : PartsLaid _ vs) :
    Laid (tokensOf _ vs) (meaningTrees x vs.2.1.2) := by
  have hrow := laid_parts vs h
  simp only [partTrees, List.append_nil] at hrow
  exact hrow.tail

/-- Two symbols behind a token that is left out. -/
theorem twoBehindToken {vs : Values [.token kind, .symbol x, .symbol y]} (h : PartsLaid _ vs) :
    Laid (tokensOf _ vs) (meaningTrees x vs.2.1.2 ++ meaningTrees y vs.2.2.1.2) := by
  have hrow := laid_parts vs h
  simp only [partTrees, List.append_nil] at hrow
  exact hrow.tail

/-- A construct from one token to another, with a symbol between them. -/
theorem enclosed {vs : Values [.token kind, .symbol x, .token stop]} (h : PartsLaid _ vs) :
    Laid (tokensOf _ vs) [.node (vs.1.span.upTo vs.2.2.1.span) (meaningTrees x vs.2.1.2)] :=
  Laid.between vs.1 vs.2.2.1 (laid_parts vs h) (.refl _)

end PartsLaid

/-! ### Statements -/

theorem laysOver_statements : LaysOver .statements := by
  intro parts p vs h
  cases p with
  | absent => exact laid_parts vs h
  | present => exact h.two

theorem laysOver_block : LaysOver .block := by
  intro parts p vs h
  cases p with
  | only => exact h.enclosed

/-- A statement reaches from its reserved word or its target to its block or its semicolon. -/
theorem laysOver_statement : LaysOver .statement := by
  intro parts p
  cases p with
  | ret =>
    rintro ⟨start, e, stop, _⟩ h
    have hrow : Laid _ (start.leaf :: [Expr.tree e.2] ++ [stop.leaf]) := laid_parts _ h
    exact hrow.between start stop (.refl _)
  | branch => exact fun vs h => laid_parts vs h
  | loop =>
    rintro ⟨word, opener, e, closer, body, _⟩ h
    have hrow : Laid _ (word.leaf :: [opener.leaf, Expr.tree e.2, closer.leaf] ++
        [Block.tree body.2]) := laid_parts _ h
    have hkept : [Expr.tree e.2].Sublist [opener.leaf, Expr.tree e.2, closer.leaf] := by simp
    exact hrow.toBlock word hkept
  | each =>
    rintro ⟨word, opener, e, sign, name, second, closer, body, _⟩ h
    exact Laid.each word opener sign name closer _ _ (laid_parts _ h)
  | declareGlobal =>
    -- The names have no spans of their own.
    rintro ⟨start, first, others, stop, _⟩ h
    have hrow : Laid _ (start.leaf :: [] ++ [stop.leaf]) := laid_parts _ h
    exact hrow.between start stop .slnil
  | simple =>
    rintro ⟨target, value, stop, _⟩ h
    exact Laid.simple stop h.1.laid h.2.1.laid

/-- A conditional reaches to its block, or to the last of what follows it. -/
theorem laysOver_conditional : LaysOver .conditional := by
  intro parts p
  cases p with
  | only =>
    rintro ⟨word, opener, test, closer, body, later, _⟩ h
    -- The span of what follows the block comes with it, and is the last one below.
    have hlater : HandedOn .otherwise later.2 := h.2.2.2.2.2.1.handedOn
    have hrow : Laid _ (word.leaf :: [opener.leaf, Expr.tree test.2, closer.leaf] ++
        Block.tree body.2 :: (Otherwise.trees later.2.1 ++ [])) := laid_parts _ h
    rw [List.append_nil] at hrow
    have hkept : [Expr.tree test.2].Sublist [opener.leaf, Expr.tree test.2, closer.leaf] := by
      simp
    exact hrow.conditional word hlater hkept

/-! ### Operators and their operands -/

/-- An operation to the right reaches from its first operand to the rest of the level. -/
theorem laysOver_right (l : RightLevel) : LaysOver (.right l) := by
  intro parts p vs h
  cases p with
  | only =>
    have hrow := h.two
    rw [l.operand_trees] at hrow
    exact hrow.rightOperation l.op

theorem laysOver_negation : LaysOver .negation := by
  intro parts p vs h
  cases p with
  | negated => exact Laid.unary .not vs.1 (laid_parts vs h)
  | plain => exact laid_parts vs h

theorem laysOver_relation : LaysOver .relation := by
  intro parts p vs h
  cases p with
  | only => exact Laid.relationOperation h.two

theorem laysOver_relationRest : LaysOver .relationRest := by
  intro parts p vs h
  cases p with
  | absent => exact laid_parts vs h
  | present op hop => exact h.behindToken

/-- Operations to the left reach from the first operand to one after the other. -/
theorem laysOver_left (l : LeftLevel) : LaysOver (.left l) := by
  intro parts p vs h
  cases p with
  | only =>
    have hrow := h.two
    rw [l.operand_trees] at hrow
    exact hrow.leftOperations

theorem laysOver_leftRest (l : LeftLevel) : LaysOver (.leftRest l) := by
  intro parts p vs h
  cases p with
  | absent => exact laid_parts vs h
  | present op hop =>
    have hrow := h.twoBehindToken
    rw [l.operand_trees] at hrow
    exact hrow

/-- A sign is in the span of a negative, and not in the one of the operand. -/
theorem laysOver_signed : LaysOver .signed := by
  intro parts p vs h
  cases p with
  | negative => exact Laid.unary .negate vs.1 (laid_parts vs h)
  -- A plus sign is left out: the span is the one of the operand.
  | positive => exact h.behindToken
  | plain => exact laid_parts vs h

/-! ### Suffixes and what they follow -/

theorem laysOver_postfixed : LaysOver .postfixed := by
  intro parts p vs h
  cases p with
  | only => exact Laid.suffixed vs.2.1.2 h.two

/-- Suffixes lie in a row, each with its closing mark. -/
theorem laysOver_suffixes : LaysOver .suffixes := by
  intro parts p
  cases p with
  | absent => exact fun vs h => laid_parts vs h
  | call =>
    rintro ⟨opener, arguments, stop, others, _⟩ h
    have hrow : Laid _ (opener.leaf :: (exprTrees arguments.2 ++
        (stop.leaf :: (List.flatMap suffixTrees others.2 ++ [])))) := laid_parts _ h
    rw [List.append_nil] at hrow
    show Laid _ (exprTrees arguments.2 ++ [stop.leaf] ++ List.flatMap suffixTrees others.2)
    rw [List.append_assoc]
    exact hrow.tail
  | lookup =>
    rintro ⟨opener, key, stop, others, _⟩ h
    have hrow : Laid _ (opener.leaf :: Expr.tree key.2 :: stop.leaf ::
        (List.flatMap suffixTrees others.2 ++ [])) := laid_parts _ h
    rw [List.append_nil] at hrow
    exact hrow.tail

/-- A primary expression reaches from its first token to its last, but for the parentheses of a
group. -/
theorem laysOver_primary : LaysOver .primary := by
  intro parts p
  cases p with
  | literal kind hkind =>
    rintro ⟨token, _⟩ -
    show Laid [token] [(literalOf token).tree]
    rw [literalOf_tree]
    exact .leaf token
  | group =>
    rintro ⟨opener, e, closer, _⟩ h
    -- The parentheses are left out: the span is the one of the expression within.
    have hrow : Laid _ [opener.leaf, Expr.tree e.2, closer.leaf] := laid_parts _ h
    have hkept : [Expr.tree e.2].Sublist [opener.leaf, Expr.tree e.2, closer.leaf] := by simp
    exact hrow.sublist hkept
  | array => exact fun vs h => h.enclosed
  | dictionary => exact fun vs h => h.enclosed
  | function =>
    rintro ⟨word, opener, parameters, closer, body, _⟩ h
    exact Laid.function word opener closer (laid_parts _ h)

/-! ### What stands between commas -/

/-- An entry reaches from its key to its value, and a parameter from its name to its default. -/
theorem laysOver_item (k : ItemKind) : LaysOver (.item k) := by
  intro parts p
  cases k with
  | expression =>
    cases p with
    | only => exact fun vs h => laid_parts vs h
  | entry =>
    cases p with
    | only =>
      rintro ⟨key, sign, value, _⟩ h
      exact Laid.entry sign (laid_parts _ h)
  | parameter =>
    cases p with
    | only =>
      rintro ⟨name, default, _⟩ h
      show Laid (name :: (default.1 ++ [])) [(parameterOf name default.1 default.2).tree]
      rw [List.append_nil]
      exact Laid.parameter name h.2.1.laid
  | name =>
    cases p with
    | only => exact fun vs h => .nothing _

theorem laysOver_items (k : ItemKind) : LaysOver (.items k) := by
  intro parts p vs h
  cases p with
  | absent => cases k <;> exact laid_parts vs h
  | present =>
    have hrow := h.two
    cases k <;> exact hrow

theorem laysOver_itemsRest (k : ItemKind) : LaysOver (.itemsRest k) := by
  intro parts p vs h
  cases p with
  | absent => cases k <;> exact laid_parts vs h
  | present =>
    have hrow := h.twoBehindToken
    cases k <;> exact hrow

/-! ### Every production -/

/-- What any production makes of parts that lie over their tokens lies over them all. -/
theorem laysOver (s : Symbol) : LaysOver s := by
  intro parts p vs h
  cases s with
  | statements => exact laysOver_statements p vs h
  | block => exact laysOver_block p vs h
  | statement => exact laysOver_statement p vs h
  | conditional => exact laysOver_conditional p vs h
  | right l => exact laysOver_right l p vs h
  | negation => exact laysOver_negation p vs h
  | relation => exact laysOver_relation p vs h
  | relationRest => exact laysOver_relationRest p vs h
  | left l => exact laysOver_left l p vs h
  | leftRest l => exact laysOver_leftRest l p vs h
  | signed => exact laysOver_signed p vs h
  | postfixed => exact laysOver_postfixed p vs h
  | suffixes => exact laysOver_suffixes p vs h
  | primary => exact laysOver_primary p vs h
  | item k => exact laysOver_item k p vs h
  | items k => exact laysOver_items k p vs h
  | itemsRest k => exact laysOver_itemsRest k p vs h
  | secondName => exact .nothing _
  | alternative => cases p <;> exact laid_parts vs h
  | otherwise | assigned | default | rightRest _ =>
    cases p with
    | absent => exact laid_parts vs h
    | present => exact h.behindToken

/-- The span that is handed on is the last one of what a production makes. -/
theorem handedOn_combine {s : Symbol} {parts : List Part} (p : Production s parts) :
    ∀ vs : Values parts, PartsLaid parts vs → HandedOn s (combine s p vs) := by
  cases s with
  | otherwise =>
    cases p with
    | absent => exact fun _ _ => rfl
    | present => exact fun _ h => h.2.1.handedOn
  | alternative =>
    cases p with
    | branch => exact fun _ _ => rfl
    | block => exact fun vs _ => congrArg some (Block.span_tree vs.1.2).symm
  | _ => exact fun _ _ => trivial

/-- What a derivation says lies over its tokens. -/
theorem Derivations.ParseTree.meaningLaid {s : Symbol} (t : ParseTree s) :
    MeaningLaid s t.yield t.meaning :=
  t.holds_meaning (fun s _ p vs h => ⟨laysOver s p vs h, handedOn_combine p vs h⟩)
    fun _ _ => trivial

/-! ### The spans of a program -/

namespace Program

variable {source : String} {file : Option String} {quoteLines : Bool} {program : Program}

/-- The tokens of a text are in order. -/
theorem inOrder_scan (source : String) (file : Option String) :
    InOrder (Lexer.scan source file).tokens := by
  obtain ⟨hstands, hpairwise, -⟩ := tokens_tile_their_text source file
  exact ⟨fun token htoken => (hstands token htoken).2.start_lt_stop, hpairwise⟩

/-- The statements of a program that was read lie over the tokens of its text, and its span is the
one around them. -/
theorem laid_of_parse (h : parse source file quoteLines = .ok program) :
    Laid (Lexer.scan source file).tokens (stmtTrees program.statements) ∧
      ∃ stop, program = programOf ⟨file, stop, stop⟩ program.statements ∧
        (Lexer.scan source file).ending = .ok stop := by
  obtain ⟨tokens, stop, hscan, hprogram⟩ := parse_eq_ok.mp h
  obtain ⟨t, rfl, -, rfl⟩ := ofTokens_eq_ok.mp hprogram
  rw [hscan]
  rw [programOf_statements ⟨file, stop, stop⟩ t.meaning]
  exact ⟨t.meaningLaid.laid, stop, rfl, rfl⟩

/-- The spans of statements are those of each. -/
theorem stmtTrees_eq (ss : List Stmt) : stmtTrees ss = ss.map Stmt.tree := by
  induction ss with
  | nil => rfl
  | cons s ss ih => rw [stmtTrees, ih]; rfl

/-- A program with statements is laid over the tokens of its text. -/
theorem laid_tree (h : parse source file quoteLines = .ok program) (hne : program.statements ≠ []) :
    Laid (Lexer.scan source file).tokens [program.tree] := by
  obtain ⟨hlaid, stop, hprogram, -⟩ := laid_of_parse h
  unfold tree
  cases hss : program.statements with
  | nil => exact absurd hss hne
  | cons first others =>
    rw [hss] at hlaid hprogram
    have hlast : (stmtTrees (first :: others)).getLast? =
        some (others.getLast?.getD first).tree := by
      rw [stmtTrees_eq, List.getLast?_map, List.getLast?_cons]
      rfl
    have hnode := hlaid.encloseAll first.tree _ rfl hlast (.refl _)
    rw [hprogram, programOf, List.getLastD_eq_getLast?, ← first.span_tree, ← Stmt.span_tree]
    exact hnode

end Program

/-- **Spans nest.** In every program that was read:

- every span runs from the start of a token of its text to the end of the same or a later one, and
  is not empty. Only a program without statements has the empty span at the end of its text;
- every span contains the spans of its parts;
- the spans of the parts do not overlap, and they follow each other in the order of the source. -/
theorem spans_nest (source : String) (file : Option String) (quoteLines : Bool) {program : Program}
    (h : Program.parse source file quoteLines = .ok program) :
    let tokens := (Lexer.scan source file).tokens
    let stop := Position.inText source.toList source.toList.length
    (program.statements = [] → program.tree = .node ⟨file, stop, stop⟩ []) ∧
      (program.statements ≠ [] → ∀ node ∈ program.tree.nodes, node.span.RunsOver file tokens) ∧
      ∀ node ∈ program.tree.nodes, node.Nests := by
  intro tokens stop
  have horder : InOrder tokens := Program.inOrder_scan source file
  have hnodes : program.tree.nodes = SpanTree.nodesOf [program.tree] :=
    (List.append_nil _).symm
  refine ⟨fun hnone => ?_, fun hne => ?_, ?_⟩
  · obtain ⟨-, position, hprogram, hending⟩ := Program.laid_of_parse h
    obtain ⟨-, -, reached, -, hcloses⟩ := tokens_tile_their_text source file
    rw [hending] at hcloses
    have hposition : position = stop := hcloses.1
    rw [hprogram, hnone, hposition]
    rfl
  · rw [hnodes]
    exact (Program.laid_tree h hne).runsOver horder fun token htoken => Lexer.file_of_mem htoken
  · by_cases hne : program.statements = []
    · -- A program without statements has nothing below it.
      intro node hnode
      have htree : program.tree = .node program.span [] := by
        unfold Program.tree
        rw [hne]
        rfl
      rw [htree] at hnode
      obtain rfl := List.mem_singleton.mp hnode
      exact ⟨nofun, .nil⟩
    · rw [hnodes]
      exact (Program.laid_tree h hne).nests horder

/-- The span of the call starts with the name of the function. The parenthesis in front of it is in
the span of the operation only. -/
theorem spans_nest_group :
    let source := "x=-(f)(1);"
    let place (start stop : Nat) : Span := ⟨none, ⟨1, start + 1, start⟩, ⟨1, stop + 1, stop⟩⟩
    ∃ program, Program.parse source none = .ok program ∧
      program.tree.nodes.map SpanTree.span =
        [place 0 10, place 0 10, place 0 1, place 2 9, place 4 9, place 4 5, place 7 8] ∧
      ∀ node ∈ program.tree.nodes, node.Nests ∧
        node.span.RunsOver none (Lexer.scan source none).tokens := by
  intro source place
  let spans := [place 0 10, place 0 10, place 0 1, place 2 9, place 4 9, place 4 5, place 7 8]
  have hreads : ((Program.parse source none).toOption.map fun program =>
      (program.statements.isEmpty, program.tree.nodes.map SpanTree.span)) =
        some (false, spans) := by
    decide +kernel
  cases hparse : Program.parse source none with
  | error refusal =>
    rw [hparse] at hreads
    cases hreads
  | ok program =>
    rw [hparse] at hreads
    obtain ⟨hsome, hspans⟩ := Prod.mk.inj (Option.some.inj hreads)
    have hne : program.statements ≠ [] := fun hnil => by
      rw [hnil] at hsome
      cases hsome
    obtain ⟨-, hruns, hnests⟩ := spans_nest source none true hparse
    exact ⟨program, rfl, hspans, fun node hnode => ⟨hnests node hnode, hruns hne node hnode⟩⟩

end DecimalScript
