import DecimalScript.Program.Listing
import DecimalScript.Program.SExpr

/-!
# Programs without places

Two programs are the same apart from where they were read if they are equal once every span is
replaced by one that says nothing (`Program.bare`). What is printed of a program is settled by its
bare form: the listing and the S-expression of a program are those of its bare form.
-/

namespace DecimalScript

/-- A span that says nothing. -/
def Span.nowhere : Span :=
  ⟨none, .start, .start⟩

/-! ### Bare forms -/

mutual

/-- An expression without its places. -/
def Expr.bare : Expr → Expr
  | .number _ value text => .number .nowhere value text
  | .string _ value => .string .nowhere value
  | .boolean _ value => .boolean .nowhere value
  | .name _ name => .name .nowhere name
  | .lookup _ target key => .lookup .nowhere target.bare key.bare
  | .binary _ op left right => .binary .nowhere op left.bare right.bare
  | .unary _ op operand => .unary .nowhere op operand.bare
  | .array _ elements => .array .nowhere (bareExprs elements)
  | .dictionary _ entries => .dictionary .nowhere (bareEntries entries)
  | .function _ parameters body => .function .nowhere (bareParameters parameters) body.bare
  | .call _ callee arguments => .call .nowhere callee.bare (bareExprs arguments)

/-- Expressions without their places. -/
def bareExprs : List Expr → List Expr
  | [] => []
  | e :: es => e.bare :: bareExprs es

/-- An entry without its places. -/
def Entry.bare : Entry → Entry
  | .mk key value => .mk key.bare value.bare

/-- Entries without their places. -/
def bareEntries : List Entry → List Entry
  | [] => []
  | e :: es => e.bare :: bareEntries es

/-- A parameter without its places. -/
def Parameter.bare : Parameter → Parameter
  | .mk _ name none => .mk .nowhere name none
  | .mk _ name (some value) => .mk .nowhere name (some value.bare)

/-- Parameters without their places. -/
def bareParameters : List Parameter → List Parameter
  | [] => []
  | p :: ps => p.bare :: bareParameters ps

/-- A block without its places. -/
def Block.bare : Block → Block
  | .mk _ statements => .mk .nowhere (bareStmts statements)

/-- A statement without its places. -/
def Stmt.bare : Stmt → Stmt
  | .assignVariable _ _ name value => .assignVariable .nowhere .nowhere name value.bare
  | .assignElement _ _ target key value =>
    .assignElement .nowhere .nowhere target.bare key.bare value.bare
  | .call _ _ callee arguments => .call .nowhere .nowhere callee.bare (bareExprs arguments)
  | .ret _ value => .ret .nowhere value.bare
  | .declareGlobal _ names => .declareGlobal .nowhere names
  | .branch _ condition body otherwise =>
    .branch .nowhere condition.bare body.bare otherwise.bare
  | .loop _ condition body => .loop .nowhere condition.bare body.bare
  | .each _ source key value body => .each .nowhere source.bare key value body.bare

/-- Statements without their places. -/
def bareStmts : List Stmt → List Stmt
  | [] => []
  | s :: ss => s.bare :: bareStmts ss

/-- What follows the block of a conditional, without its places. -/
def Otherwise.bare : Otherwise → Otherwise
  | .nothing => .nothing
  | .block block => .block block.bare
  | .branch _ condition body otherwise =>
    .branch .nowhere condition.bare body.bare otherwise.bare

end

/-- A program without its places. -/
def Program.bare (program : Program) : Program :=
  ⟨.nowhere, bareStmts program.statements⟩

theorem bareExprs_eq_map (es : List Expr) : bareExprs es = es.map Expr.bare := by
  induction es with
  | nil => rfl
  | cons e es ih => simp only [bareExprs, List.map_cons, ih]

theorem bareEntries_eq_map (es : List Entry) : bareEntries es = es.map Entry.bare := by
  induction es with
  | nil => rfl
  | cons e es ih => simp only [bareEntries, List.map_cons, ih]

theorem bareParameters_eq_map (ps : List Parameter) : bareParameters ps = ps.map Parameter.bare := by
  induction ps with
  | nil => rfl
  | cons p ps ih => simp only [bareParameters, List.map_cons, ih]

/-! ### What is printed of a bare form -/

namespace Listing

/-- Whether a target is put between parentheses does not depend on places. -/
theorem asTarget_bare (e : Expr) (pieces : List Piece) :
    asTarget e.bare pieces = asTarget e pieces := by
  cases e <;> simp only [Expr.bare, asTarget]

/-- Whether an operand is put between parentheses does not depend on places. -/
theorem asOperand_bare (op : BinaryOp) (e : Expr) (pieces : List Piece) :
    asOperand op e.bare pieces = asOperand op e pieces := by
  cases e with
  | unary span op' operand => cases op' <;> simp only [Expr.bare, asOperand]
  | _ => simp only [Expr.bare, asOperand]

mutual

/-- The pieces of an expression are the pieces of its bare form. -/
theorem ofExpr_bare (level : Nat) : ∀ e : Expr, ofExpr level e.bare = ofExpr level e
  | .number _ _ _ | .string _ _ | .boolean _ _ | .name _ _ => by simp only [Expr.bare, ofExpr]
  | .lookup _ target key => by
    simp only [Expr.bare, ofExpr, asTarget_bare, ofExpr_bare level target, ofExpr_bare level key]
  | .binary _ op left right => by
    simp only [Expr.bare, ofExpr, asOperand_bare, ofExpr_bare level left, ofExpr_bare level right]
  | .unary _ op operand => by
    simp only [Expr.bare, ofExpr, asTarget_bare, ofExpr_bare level operand]
  | .array _ elements => by simp only [Expr.bare, ofExpr, ofExprs_bare level elements]
  | .dictionary _ entries => by simp only [Expr.bare, ofExpr, ofEntries_bare level entries]
  | .function _ parameters body => by
    simp only [Expr.bare, ofExpr, ofParameters_bare level parameters, ofBlock_bare level body]
  | .call _ callee arguments => by
    simp only [Expr.bare, ofExpr, asTarget_bare, ofExpr_bare level callee,
      ofExprs_bare level arguments]

theorem ofExprs_bare (level : Nat) : ∀ es : List Expr, ofExprs level (bareExprs es) = ofExprs level es
  | [] => rfl
  | e :: es => by simp only [bareExprs, ofExprs, ofExpr_bare level e, ofExprs_bare level es]

theorem ofEntries_bare (level : Nat) :
    ∀ es : List Entry, ofEntries level (bareEntries es) = ofEntries level es
  | [] => rfl
  | .mk key value :: es => by
    simp only [bareEntries, Entry.bare, ofEntries, ofEntry, ofExpr_bare level key,
      ofExpr_bare level value, ofEntries_bare level es]

theorem ofParameters_bare (level : Nat) :
    ∀ ps : List Parameter, ofParameters level (bareParameters ps) = ofParameters level ps
  | [] => rfl
  | .mk _ name none :: ps => by
    simp only [bareParameters, Parameter.bare, ofParameters, ofParameter,
      ofParameters_bare level ps]
  | .mk _ name (some value) :: ps => by
    simp only [bareParameters, Parameter.bare, ofParameters, ofParameter, ofExpr_bare level value,
      ofParameters_bare level ps]

theorem ofBlock_bare (level : Nat) : ∀ b : Block, ofBlock level b.bare = ofBlock level b
  | .mk _ [] => by simp only [Block.bare, bareStmts, ofBlock]
  | .mk _ (s :: ss) => by
    have hlines := ofLines_bare (level + 1) (s :: ss)
    simp only [bareStmts] at hlines
    simp only [Block.bare, bareStmts, ofBlock, hlines]

/-- The pieces of a statement are the pieces of its bare form. -/
theorem ofStmt_bare (level : Nat) : ∀ s : Stmt, ofStmt level s.bare = ofStmt level s
  | .assignVariable _ _ n value => by simp only [Stmt.bare, ofStmt, ofExpr_bare level value]
  | .assignElement _ _ target key value => by
    simp only [Stmt.bare, ofStmt, asTarget_bare, ofExpr_bare level target, ofExpr_bare level key,
      ofExpr_bare level value]
  | .call _ _ callee arguments => by
    simp only [Stmt.bare, ofStmt, asTarget_bare, ofExpr_bare level callee,
      ofExprs_bare level arguments]
  | .ret _ value => by simp only [Stmt.bare, ofStmt, ofExpr_bare level value]
  | .declareGlobal _ names => by simp only [Stmt.bare, ofStmt]
  | .branch _ condition body otherwise => by
    simp only [Stmt.bare, ofStmt, ofExpr_bare level condition, ofBlock_bare level body,
      ofOtherwise_bare level otherwise]
  | .loop _ condition body => by
    simp only [Stmt.bare, ofStmt, ofExpr_bare level condition, ofBlock_bare level body]
  | .each _ source key value body => by
    simp only [Stmt.bare, ofStmt, ofExpr_bare level source, ofBlock_bare level body]

theorem ofLines_bare (level : Nat) : ∀ ss : List Stmt, ofLines level (bareStmts ss) = ofLines level ss
  | [] => rfl
  | s :: ss => by simp only [bareStmts, ofLines, ofStmt_bare level s, ofLines_bare level ss]

theorem ofOtherwise_bare (level : Nat) (o : Otherwise) :
    ofOtherwise level o.bare = ofOtherwise level o := by
  cases o with
  | nothing => rfl
  | block block => simp only [Otherwise.bare, ofOtherwise, ofBlock_bare level block]
  | branch _ condition body otherwise =>
    simp only [Otherwise.bare, ofOtherwise, ofExpr_bare level condition, ofBlock_bare level body,
      ofOtherwise_bare level otherwise]

end

end Listing

/-- The listing of a program is settled by its bare form. -/
theorem Program.listing_bare (program : Program) : program.bare.listing = program.listing := by
  unfold Program.listing Program.pieces Program.bare
  rw [Listing.ofLines_bare]

namespace SExpr

mutual

/-- The S-expression of an expression is the one of its bare form. -/
theorem ofExpr_bare : ∀ e : Expr, ofExpr e.bare = ofExpr e
  | .number _ _ _ | .string _ _ | .boolean _ _ | .name _ _ => by simp only [Expr.bare, ofExpr]
  | .lookup _ target key => by
    simp only [Expr.bare, ofExpr, ofExpr_bare target, ofExpr_bare key]
  | .binary _ op left right => by
    simp only [Expr.bare, ofExpr, ofExpr_bare left, ofExpr_bare right]
  | .unary _ op operand => by simp only [Expr.bare, ofExpr, ofExpr_bare operand]
  | .array _ elements => by simp only [Expr.bare, ofExpr, ofExprs_bare elements]
  | .dictionary _ entries => by simp only [Expr.bare, ofExpr, ofEntries_bare entries]
  | .function _ parameters body => by
    simp only [Expr.bare, ofExpr, ofParameters_bare parameters, ofBlock_bare body]
  | .call _ callee arguments => by
    simp only [Expr.bare, ofExpr, ofExpr_bare callee, ofExprs_bare arguments]

theorem ofExprs_bare : ∀ es : List Expr, ofExprs (bareExprs es) = ofExprs es
  | [] => rfl
  | e :: es => by simp only [bareExprs, ofExprs, ofExpr_bare e, ofExprs_bare es]

theorem ofEntries_bare : ∀ es : List Entry, ofEntries (bareEntries es) = ofEntries es
  | [] => rfl
  | .mk key value :: es => by
    simp only [bareEntries, Entry.bare, ofEntries, ofEntry, ofExpr_bare key, ofExpr_bare value,
      ofEntries_bare es]

theorem ofParameters_bare : ∀ ps : List Parameter, ofParameters (bareParameters ps) = ofParameters ps
  | [] => rfl
  | .mk _ name none :: ps => by
    simp only [bareParameters, Parameter.bare, ofParameters, ofParameter, ofParameters_bare ps]
  | .mk _ name (some value) :: ps => by
    simp only [bareParameters, Parameter.bare, ofParameters, ofParameter, ofExpr_bare value,
      ofParameters_bare ps]

theorem ofBlock_bare : ∀ b : Block, ofBlock b.bare = ofBlock b
  | .mk _ statements => by simp only [Block.bare, ofBlock, ofStmts_bare statements]

/-- The S-expression of a statement is the one of its bare form. -/
theorem ofStmt_bare : ∀ s : Stmt, ofStmt s.bare = ofStmt s
  | .assignVariable _ _ n value => by simp only [Stmt.bare, ofStmt, ofExpr_bare value]
  | .assignElement _ _ target key value => by
    simp only [Stmt.bare, ofStmt, ofExpr_bare target, ofExpr_bare key, ofExpr_bare value]
  | .call _ _ callee arguments => by
    simp only [Stmt.bare, ofStmt, ofExpr_bare callee, ofExprs_bare arguments]
  | .ret _ value => by simp only [Stmt.bare, ofStmt, ofExpr_bare value]
  | .declareGlobal _ names => by simp only [Stmt.bare, ofStmt]
  | .branch _ condition body otherwise => by
    simp only [Stmt.bare, ofStmt, ofExpr_bare condition, ofBlock_bare body,
      ofOtherwise_bare otherwise]
  | .loop _ condition body => by
    simp only [Stmt.bare, ofStmt, ofExpr_bare condition, ofBlock_bare body]
  | .each _ source key value body => by
    simp only [Stmt.bare, ofStmt, ofExpr_bare source, ofBlock_bare body]

theorem ofStmts_bare : ∀ ss : List Stmt, ofStmts (bareStmts ss) = ofStmts ss
  | [] => rfl
  | s :: ss => by simp only [bareStmts, ofStmts, ofStmt_bare s, ofStmts_bare ss]

theorem ofOtherwise_bare (o : Otherwise) : ofOtherwise o.bare = ofOtherwise o := by
  cases o with
  | nothing => rfl
  | block block => simp only [Otherwise.bare, ofOtherwise, ofBlock_bare block]
  | branch _ condition body otherwise =>
    simp only [Otherwise.bare, ofOtherwise, ofExpr_bare condition, ofBlock_bare body,
      ofOtherwise_bare otherwise]

end

end SExpr

/-- The S-expression of a program is settled by its bare form. -/
theorem Program.sexpr_bare (program : Program) : program.bare.sexpr = program.sexpr := by
  unfold Program.sexpr Program.sexprs Program.bare
  rw [SExpr.ofStmts_bare]

end DecimalScript
