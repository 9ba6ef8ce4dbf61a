import DecimalScript.Proofs.Bare
import DecimalScript.Scope.Capture
import DecimalScript.Value.Display

/-!
# Programs at other places

`relocate` moves every span of a piece of code and keeps all else. The spans of expressions are
moved in one way and all other spans in another, since only those of expressions are ever reported
by a running script. Where the places of expressions stay, the code stays as it is, and moving
everything to one place gives its bare form, so that what holds of any move holds of both.

Nothing that is found out about code without running it depends on its places: neither which names a
function literal captures, nor how a value is written.
-/

namespace DecimalScript

/-- Where spans go: those of expressions, and all others. -/
structure Relocation where
  expr : Span → Span
  other : Span → Span

namespace Relocation

/-- Everything stays where it is. -/
def stay : Relocation where
  expr := fun span => span
  other := fun span => span

/-- Everything goes to one place. -/
def nowhere : Relocation where
  expr := fun _ => .nowhere
  other := fun _ => .nowhere

theorem nowhere_expr (span : Span) : nowhere.expr span = .nowhere := rfl

theorem nowhere_other (span : Span) : nowhere.other span = .nowhere := rfl

end Relocation

/-! ### Moved code -/

mutual

/-- An expression with its places moved. -/
def Expr.relocate (r : Relocation) : Expr → Expr
  | .number span value text => .number (r.expr span) value text
  | .string span value => .string (r.expr span) value
  | .boolean span value => .boolean (r.expr span) value
  | .name span name => .name (r.expr span) name
  | .lookup span target key => .lookup (r.expr span) (target.relocate r) (key.relocate r)
  | .binary span op left right => .binary (r.expr span) op (left.relocate r) (right.relocate r)
  | .unary span op operand => .unary (r.expr span) op (operand.relocate r)
  | .array span elements => .array (r.expr span) (relocateExprs r elements)
  | .dictionary span entries => .dictionary (r.expr span) (relocateEntries r entries)
  | .function span parameters body =>
    .function (r.expr span) (relocateParameters r parameters) (body.relocate r)
  | .call span callee arguments =>
    .call (r.expr span) (callee.relocate r) (relocateExprs r arguments)

/-- Expressions with their places moved. -/
def relocateExprs (r : Relocation) : List Expr → List Expr
  | [] => []
  | e :: es => e.relocate r :: relocateExprs r es

/-- Entries with their places moved. -/
def relocateEntries (r : Relocation) : List Entry → List Entry
  | [] => []
  | .mk key value :: es => .mk (key.relocate r) (value.relocate r) :: relocateEntries r es

/-- Parameters with their places moved. -/
def relocateParameters (r : Relocation) : List Parameter → List Parameter
  | [] => []
  | .mk span name none :: ps => .mk (r.other span) name none :: relocateParameters r ps
  | .mk span name (some value) :: ps =>
    .mk (r.other span) name (some (value.relocate r)) :: relocateParameters r ps

/-- A block with its places moved. -/
def Block.relocate (r : Relocation) : Block → Block
  | .mk span statements => .mk (r.other span) (relocateStmts r statements)

/-- A statement with its places moved. The target of an assignment and what a statement calls are
expressions. -/
def Stmt.relocate (r : Relocation) : Stmt → Stmt
  | .assignVariable span nameSpan name value =>
    .assignVariable (r.other span) (r.expr nameSpan) name (value.relocate r)
  | .assignElement span lookupSpan target key value =>
    .assignElement (r.other span) (r.expr lookupSpan) (target.relocate r) (key.relocate r)
      (value.relocate r)
  | .call span callSpan callee arguments =>
    .call (r.other span) (r.expr callSpan) (callee.relocate r) (relocateExprs r arguments)
  | .ret span value => .ret (r.other span) (value.relocate r)
  | .declareGlobal span names => .declareGlobal (r.other span) names
  | .branch span condition body otherwise =>
    .branch (r.other span) (condition.relocate r) (body.relocate r) (otherwise.relocate r)
  | .loop span condition body => .loop (r.other span) (condition.relocate r) (body.relocate r)
  | .each span source key value body =>
    .each (r.other span) (source.relocate r) key value (body.relocate r)

/-- Statements with their places moved. -/
def relocateStmts (r : Relocation) : List Stmt → List Stmt
  | [] => []
  | s :: ss => s.relocate r :: relocateStmts r ss

/-- What follows the block of a conditional, with its places moved. -/
def Otherwise.relocate (r : Relocation) : Otherwise → Otherwise
  | .nothing => .nothing
  | .block block => .block (block.relocate r)
  | .branch span condition body otherwise =>
    .branch (r.other span) (condition.relocate r) (body.relocate r) (otherwise.relocate r)

end

variable {r : Relocation}

/-- An expression that is moved has its span moved. -/
theorem Expr.span_relocate (e : Expr) : (e.relocate r).span = r.expr e.span := by
  cases e <;> simp only [Expr.relocate, Expr.span]

theorem Block.statements_relocate (b : Block) :
    (b.relocate r).statements = relocateStmts r b.statements := by
  cases b
  simp only [Block.relocate, Block.statements]

/-- No parameter is lost. -/
theorem length_relocateParameters (ps : List Parameter) :
    (relocateParameters r ps).length = ps.length := by
  induction ps with
  | nil => rfl
  | cons p ps ih =>
    obtain ⟨span, name, default⟩ := p
    cases default <;> simp only [relocateParameters, List.length_cons, ih]

/-! ### The places of expressions -/

mutual

/-- The spans of an expression and of the expressions in it. -/
def Expr.places : Expr → List Span
  | .number span _ _ | .string span _ | .boolean span _ | .name span _ => [span]
  | .lookup span target key => span :: (target.places ++ key.places)
  | .binary span _ left right => span :: (left.places ++ right.places)
  | .unary span _ operand => span :: operand.places
  | .array span elements => span :: placesExprs elements
  | .dictionary span entries => span :: placesEntries entries
  | .function span parameters body => span :: (placesParameters parameters ++ body.places)
  | .call span callee arguments => span :: (callee.places ++ placesExprs arguments)

/-- The spans of the expressions in several expressions. -/
def placesExprs : List Expr → List Span
  | [] => []
  | e :: es => e.places ++ placesExprs es

/-- The spans of the expressions in entries. -/
def placesEntries : List Entry → List Span
  | [] => []
  | .mk key value :: es => (key.places ++ value.places) ++ placesEntries es

/-- The spans of the expressions in the defaults of parameters. -/
def placesParameters : List Parameter → List Span
  | [] => []
  | .mk _ _ none :: ps => placesParameters ps
  | .mk _ _ (some value) :: ps => value.places ++ placesParameters ps

/-- The spans of the expressions in a block. -/
def Block.places : Block → List Span
  | .mk _ statements => placesStmts statements

/-- The spans of the expressions in a statement, also of what is assigned to or called. -/
def Stmt.places : Stmt → List Span
  | .assignVariable _ nameSpan _ value => nameSpan :: value.places
  | .assignElement _ lookupSpan target key value =>
    lookupSpan :: ((target.places ++ key.places) ++ value.places)
  | .call _ callSpan callee arguments => callSpan :: (callee.places ++ placesExprs arguments)
  | .ret _ value => value.places
  | .declareGlobal _ _ => []
  | .branch _ condition body otherwise => (condition.places ++ body.places) ++ otherwise.places
  | .loop _ condition body => condition.places ++ body.places
  | .each _ source _ _ body => source.places ++ body.places

/-- The spans of the expressions in statements. -/
def placesStmts : List Stmt → List Span
  | [] => []
  | s :: ss => s.places ++ placesStmts ss

/-- The spans of the expressions in what follows the block of a conditional. -/
def Otherwise.places : Otherwise → List Span
  | .nothing => []
  | .block block => block.places
  | .branch _ condition body otherwise => (condition.places ++ body.places) ++ otherwise.places

end

/-- The span of an expression is one of its places. -/
theorem Expr.span_mem_places (e : Expr) : e.span ∈ e.places := by
  cases e <;> simp [Expr.span, Expr.places]

/-! ### Moving nothing -/

mutual

/-- Code stays as it is if the places of its expressions stay. -/
theorem Expr.relocate_eq_self (hother : ∀ span, r.other span = span) :
    ∀ e : Expr, (∀ span ∈ e.places, r.expr span = span) → e.relocate r = e
  | .number _ _ _, h | .string _ _, h | .boolean _ _, h | .name _ _, h => by
    simp only [Expr.relocate, h _ (List.mem_singleton_self _)]
  | .lookup _ target key, h => by
    simp only [Expr.places, List.forall_mem_cons, List.forall_mem_append] at h
    simp only [Expr.relocate, h.1, target.relocate_eq_self hother h.2.1,
      key.relocate_eq_self hother h.2.2]
  | .binary _ _ left right, h => by
    simp only [Expr.places, List.forall_mem_cons, List.forall_mem_append] at h
    simp only [Expr.relocate, h.1, left.relocate_eq_self hother h.2.1,
      right.relocate_eq_self hother h.2.2]
  | .unary _ _ operand, h => by
    simp only [Expr.places, List.forall_mem_cons] at h
    simp only [Expr.relocate, h.1, operand.relocate_eq_self hother h.2]
  | .array _ elements, h => by
    simp only [Expr.places, List.forall_mem_cons] at h
    simp only [Expr.relocate, h.1, relocateExprs_eq_self hother elements h.2]
  | .dictionary _ entries, h => by
    simp only [Expr.places, List.forall_mem_cons] at h
    simp only [Expr.relocate, h.1, relocateEntries_eq_self hother entries h.2]
  | .function _ parameters body, h => by
    simp only [Expr.places, List.forall_mem_cons, List.forall_mem_append] at h
    simp only [Expr.relocate, h.1, relocateParameters_eq_self hother parameters h.2.1,
      body.relocate_eq_self hother h.2.2]
  | .call _ callee arguments, h => by
    simp only [Expr.places, List.forall_mem_cons, List.forall_mem_append] at h
    simp only [Expr.relocate, h.1, callee.relocate_eq_self hother h.2.1,
      relocateExprs_eq_self hother arguments h.2.2]

theorem relocateExprs_eq_self (hother : ∀ span, r.other span = span) :
    ∀ es : List Expr, (∀ span ∈ placesExprs es, r.expr span = span) → relocateExprs r es = es
  | [], _ => rfl
  | e :: es, h => by
    simp only [placesExprs, List.forall_mem_append] at h
    simp only [relocateExprs, e.relocate_eq_self hother h.1, relocateExprs_eq_self hother es h.2]

theorem relocateEntries_eq_self (hother : ∀ span, r.other span = span) :
    ∀ es : List Entry, (∀ span ∈ placesEntries es, r.expr span = span) →
      relocateEntries r es = es
  | [], _ => rfl
  | .mk key value :: es, h => by
    simp only [placesEntries, List.forall_mem_append] at h
    simp only [relocateEntries, key.relocate_eq_self hother h.1.1,
      value.relocate_eq_self hother h.1.2, relocateEntries_eq_self hother es h.2]

theorem relocateParameters_eq_self (hother : ∀ span, r.other span = span) :
    ∀ ps : List Parameter, (∀ span ∈ placesParameters ps, r.expr span = span) →
      relocateParameters r ps = ps
  | [], _ => rfl
  | .mk _ _ none :: ps, h => by
    simp only [relocateParameters, hother, relocateParameters_eq_self hother ps h]
  | .mk _ _ (some value) :: ps, h => by
    simp only [placesParameters, List.forall_mem_append] at h
    simp only [relocateParameters, hother, value.relocate_eq_self hother h.1,
      relocateParameters_eq_self hother ps h.2]

theorem Block.relocate_eq_self (hother : ∀ span, r.other span = span) :
    ∀ b : Block, (∀ span ∈ b.places, r.expr span = span) → b.relocate r = b
  | .mk _ statements, h => by
    simp only [Block.relocate, hother, relocateStmts_eq_self hother statements h]

/-- A statement whose places stay is left as it is. -/
theorem Stmt.relocate_eq_self (hother : ∀ span, r.other span = span) :
    ∀ s : Stmt, (∀ span ∈ s.places, r.expr span = span) → s.relocate r = s
  | .assignVariable _ _ _ value, h => by
    simp only [Stmt.places, List.forall_mem_cons] at h
    simp only [Stmt.relocate, hother, h.1, value.relocate_eq_self hother h.2]
  | .assignElement _ _ target key value, h => by
    simp only [Stmt.places, List.forall_mem_cons, List.forall_mem_append] at h
    simp only [Stmt.relocate, hother, h.1, target.relocate_eq_self hother h.2.1.1,
      key.relocate_eq_self hother h.2.1.2, value.relocate_eq_self hother h.2.2]
  | .call _ _ callee arguments, h => by
    simp only [Stmt.places, List.forall_mem_cons, List.forall_mem_append] at h
    simp only [Stmt.relocate, hother, h.1, callee.relocate_eq_self hother h.2.1,
      relocateExprs_eq_self hother arguments h.2.2]
  | .ret _ value, h => by simp only [Stmt.relocate, hother, value.relocate_eq_self hother h]
  | .declareGlobal _ _, _ => by simp only [Stmt.relocate, hother]
  | .branch _ condition body otherwise, h => by
    simp only [Stmt.places, List.forall_mem_append] at h
    simp only [Stmt.relocate, hother, condition.relocate_eq_self hother h.1.1,
      body.relocate_eq_self hother h.1.2, otherwise.relocate_eq_self hother h.2]
  | .loop _ condition body, h => by
    simp only [Stmt.places, List.forall_mem_append] at h
    simp only [Stmt.relocate, hother, condition.relocate_eq_self hother h.1,
      body.relocate_eq_self hother h.2]
  | .each _ source _ _ body, h => by
    simp only [Stmt.places, List.forall_mem_append] at h
    simp only [Stmt.relocate, hother, source.relocate_eq_self hother h.1,
      body.relocate_eq_self hother h.2]

theorem relocateStmts_eq_self (hother : ∀ span, r.other span = span) :
    ∀ ss : List Stmt, (∀ span ∈ placesStmts ss, r.expr span = span) → relocateStmts r ss = ss
  | [], _ => rfl
  | s :: ss, h => by
    simp only [placesStmts, List.forall_mem_append] at h
    simp only [relocateStmts, s.relocate_eq_self hother h.1, relocateStmts_eq_self hother ss h.2]

theorem Otherwise.relocate_eq_self (hother : ∀ span, r.other span = span) :
    ∀ o : Otherwise, (∀ span ∈ o.places, r.expr span = span) → o.relocate r = o
  | .nothing, _ => rfl
  | .block block, h => by simp only [Otherwise.relocate, block.relocate_eq_self hother h]
  | .branch _ condition body otherwise, h => by
    simp only [Otherwise.places, List.forall_mem_append] at h
    simp only [Otherwise.relocate, hother, condition.relocate_eq_self hother h.1.1,
      body.relocate_eq_self hother h.1.2, otherwise.relocate_eq_self hother h.2]

end

theorem relocateParameters_stay (ps : List Parameter) : relocateParameters .stay ps = ps :=
  relocateParameters_eq_self (fun _ => rfl) ps fun _ _ => rfl

/-- Moving nothing leaves code as it is. -/
theorem relocateStmts_stay (ss : List Stmt) : relocateStmts .stay ss = ss :=
  relocateStmts_eq_self (fun _ => rfl) ss fun _ _ => rfl

theorem Block.relocate_stay (b : Block) : b.relocate .stay = b :=
  b.relocate_eq_self (fun _ => rfl) fun _ _ => rfl

/-! ### Moving everything to one place -/

mutual

theorem Expr.relocate_nowhere : ∀ e : Expr, e.relocate .nowhere = e.bare
  | .number _ _ _ | .string _ _ | .boolean _ _ | .name _ _ => by
    simp only [Expr.relocate, Expr.bare, Relocation.nowhere_expr]
  | .lookup _ target key => by
    simp only [Expr.relocate, Expr.bare, target.relocate_nowhere, key.relocate_nowhere,
      Relocation.nowhere_expr]
  | .binary _ _ left right => by
    simp only [Expr.relocate, Expr.bare, left.relocate_nowhere, right.relocate_nowhere,
      Relocation.nowhere_expr]
  | .unary _ _ operand => by
    simp only [Expr.relocate, Expr.bare, operand.relocate_nowhere, Relocation.nowhere_expr]
  | .array _ elements => by
    simp only [Expr.relocate, Expr.bare, relocateExprs_nowhere elements, Relocation.nowhere_expr]
  | .dictionary _ entries => by
    simp only [Expr.relocate, Expr.bare, relocateEntries_nowhere entries, Relocation.nowhere_expr]
  | .function _ parameters body => by
    simp only [Expr.relocate, Expr.bare, relocateParameters_nowhere parameters,
      body.relocate_nowhere, Relocation.nowhere_expr]
  | .call _ callee arguments => by
    simp only [Expr.relocate, Expr.bare, callee.relocate_nowhere, relocateExprs_nowhere arguments,
      Relocation.nowhere_expr]

theorem relocateExprs_nowhere : ∀ es : List Expr, relocateExprs .nowhere es = bareExprs es
  | [] => rfl
  | e :: es => by
    simp only [relocateExprs, bareExprs, e.relocate_nowhere, relocateExprs_nowhere es]

theorem relocateEntries_nowhere : ∀ es : List Entry, relocateEntries .nowhere es = bareEntries es
  | [] => rfl
  | .mk key value :: es => by
    simp only [relocateEntries, bareEntries, Entry.bare, key.relocate_nowhere,
      value.relocate_nowhere, relocateEntries_nowhere es]

theorem relocateParameters_nowhere :
    ∀ ps : List Parameter, relocateParameters .nowhere ps = bareParameters ps
  | [] => rfl
  | .mk _ _ none :: ps => by
    simp only [relocateParameters, bareParameters, Parameter.bare, relocateParameters_nowhere ps,
      Relocation.nowhere_other]
  | .mk _ _ (some value) :: ps => by
    simp only [relocateParameters, bareParameters, Parameter.bare, value.relocate_nowhere,
      relocateParameters_nowhere ps, Relocation.nowhere_other]

theorem Block.relocate_nowhere : ∀ b : Block, b.relocate .nowhere = b.bare
  | .mk _ statements => by
    simp only [Block.relocate, Block.bare, relocateStmts_nowhere statements,
      Relocation.nowhere_other]

/-- Moving everything to one place makes code bare. -/
theorem Stmt.relocate_nowhere : ∀ s : Stmt, s.relocate .nowhere = s.bare
  | .assignVariable _ _ _ value => by
    simp only [Stmt.relocate, Stmt.bare, value.relocate_nowhere, Relocation.nowhere_expr,
      Relocation.nowhere_other]
  | .assignElement _ _ target key value => by
    simp only [Stmt.relocate, Stmt.bare, target.relocate_nowhere, key.relocate_nowhere,
      value.relocate_nowhere, Relocation.nowhere_expr, Relocation.nowhere_other]
  | .call _ _ callee arguments => by
    simp only [Stmt.relocate, Stmt.bare, callee.relocate_nowhere, relocateExprs_nowhere arguments,
      Relocation.nowhere_expr, Relocation.nowhere_other]
  | .ret _ value => by
    simp only [Stmt.relocate, Stmt.bare, value.relocate_nowhere, Relocation.nowhere_other]
  | .declareGlobal _ _ => by simp only [Stmt.relocate, Stmt.bare, Relocation.nowhere_other]
  | .branch _ condition body otherwise => by
    simp only [Stmt.relocate, Stmt.bare, condition.relocate_nowhere, body.relocate_nowhere,
      otherwise.relocate_nowhere, Relocation.nowhere_other]
  | .loop _ condition body => by
    simp only [Stmt.relocate, Stmt.bare, condition.relocate_nowhere, body.relocate_nowhere,
      Relocation.nowhere_other]
  | .each _ source _ _ body => by
    simp only [Stmt.relocate, Stmt.bare, source.relocate_nowhere, body.relocate_nowhere,
      Relocation.nowhere_other]

theorem relocateStmts_nowhere : ∀ ss : List Stmt, relocateStmts .nowhere ss = bareStmts ss
  | [] => rfl
  | s :: ss => by
    simp only [relocateStmts, bareStmts, s.relocate_nowhere, relocateStmts_nowhere ss]

theorem Otherwise.relocate_nowhere (o : Otherwise) : o.relocate .nowhere = o.bare := by
  cases o with
  | nothing => rfl
  | block block => simp only [Otherwise.relocate, Otherwise.bare, block.relocate_nowhere]
  | branch _ condition body otherwise =>
    simp only [Otherwise.relocate, Otherwise.bare, condition.relocate_nowhere,
      body.relocate_nowhere, otherwise.relocate_nowhere, Relocation.nowhere_other]

end

/-! ### Captures -/

namespace Capture

mutual

/-- What code captures does not depend on places. -/
theorem ofExpr_relocate (t : Tracker) : ∀ e : Expr, ofExpr t (e.relocate r) = ofExpr t e
  | .number _ _ _ | .string _ _ | .boolean _ _ | .name _ _ => by
    simp only [Expr.relocate, ofExpr]
  | .lookup _ target key => by
    simp only [Expr.relocate, ofExpr, ofExpr_relocate t target, ofExpr_relocate _ key]
  | .binary _ _ left right => by
    simp only [Expr.relocate, ofExpr, ofExpr_relocate t left, ofExpr_relocate _ right]
  | .unary _ _ operand => by simp only [Expr.relocate, ofExpr, ofExpr_relocate t operand]
  | .array _ elements => by simp only [Expr.relocate, ofExpr, ofExprs_relocate t elements]
  | .dictionary _ entries => by simp only [Expr.relocate, ofExpr, ofEntries_relocate t entries]
  | .function _ parameters body => by
    simp only [Expr.relocate, ofExpr, ofParameters_relocate _ parameters, ofBlock_relocate _ body]
  | .call _ callee arguments => by
    simp only [Expr.relocate, ofExpr, ofExpr_relocate t callee, ofExprs_relocate _ arguments]

theorem ofExprs_relocate (t : Tracker) :
    ∀ es : List Expr, ofExprs t (relocateExprs r es) = ofExprs t es
  | [] => by simp only [relocateExprs]
  | e :: es => by
    simp only [relocateExprs, ofExprs, ofExpr_relocate t e, ofExprs_relocate _ es]

theorem ofEntries_relocate (t : Tracker) :
    ∀ es : List Entry, ofEntries t (relocateEntries r es) = ofEntries t es
  | [] => by simp only [relocateEntries]
  | .mk key value :: es => by
    simp only [relocateEntries, ofEntries, ofExpr_relocate t key, ofExpr_relocate _ value,
      ofEntries_relocate _ es]

theorem ofParameters_relocate (t : Tracker) :
    ∀ ps : List Parameter, ofParameters t (relocateParameters r ps) = ofParameters t ps
  | [] => by simp only [relocateParameters]
  | .mk _ _ none :: ps => by
    simp only [relocateParameters, ofParameters, ofParameters_relocate _ ps]
  | .mk _ _ (some value) :: ps => by
    simp only [relocateParameters, ofParameters, ofExpr_relocate t value,
      ofParameters_relocate _ ps]

theorem ofBlock_relocate (t : Tracker) : ∀ b : Block, ofBlock t (b.relocate r) = ofBlock t b
  | .mk _ statements => by simp only [Block.relocate, ofBlock, ofStmts_relocate t statements]

/-- What a statement captures does not depend on places. -/
theorem ofStmt_relocate (t : Tracker) : ∀ s : Stmt, ofStmt t (s.relocate r) = ofStmt t s
  | .assignVariable _ _ _ value => by
    simp only [Stmt.relocate, ofStmt, ofExpr_relocate t value]
  | .assignElement _ _ target key value => by
    simp only [Stmt.relocate, ofStmt, ofExpr_relocate t value, ofExpr_relocate _ target,
      ofExpr_relocate _ key]
  | .call _ _ callee arguments => by
    simp only [Stmt.relocate, ofStmt, ofExpr_relocate t callee, ofExprs_relocate _ arguments]
  | .ret _ value => by simp only [Stmt.relocate, ofStmt, ofExpr_relocate t value]
  | .declareGlobal _ _ => by simp only [Stmt.relocate, ofStmt]
  | .branch _ condition body otherwise => by
    simp only [Stmt.relocate, ofStmt, ofExpr_relocate t condition, ofBlock_relocate _ body,
      ofOtherwise_relocate _ otherwise]
  | .loop _ condition body => by
    simp only [Stmt.relocate, ofStmt, ofExpr_relocate t condition, ofBlock_relocate _ body]
  -- The tracker declares the name of the key if there is one.
  | .each _ source none _ body => by
    simp only [Stmt.relocate, ofStmt, ofExpr_relocate t source, ofBlock_relocate _ body]
  | .each _ source (some _) _ body => by
    simp only [Stmt.relocate, ofStmt, ofExpr_relocate t source, ofBlock_relocate _ body]

theorem ofStmts_relocate (t : Tracker) :
    ∀ ss : List Stmt, ofStmts t (relocateStmts r ss) = ofStmts t ss
  | [] => by simp only [relocateStmts]
  | s :: ss => by
    simp only [relocateStmts, ofStmts, ofStmt_relocate t s, ofStmts_relocate _ ss]

theorem ofOtherwise_relocate (t : Tracker) (o : Otherwise) :
    ofOtherwise t (o.relocate r) = ofOtherwise t o := by
  cases o with
  | nothing => rfl
  | block block => simp only [Otherwise.relocate, ofOtherwise, ofBlock_relocate t block]
  | branch _ condition body otherwise =>
    simp only [Otherwise.relocate, ofOtherwise, ofExpr_relocate t condition,
      ofBlock_relocate _ body, ofOtherwise_relocate _ otherwise]

end

/-- What a function literal captures does not depend on places. -/
theorem ofFunction_relocate (parameters : List Parameter) (body : Block)
    (outer globals : List String) :
    ofFunction (relocateParameters r parameters) (body.relocate r) outer globals =
      ofFunction parameters body outer globals := by
  unfold ofFunction
  rw [ofParameters_relocate, ofBlock_relocate]

end Capture

/-! ### Functions in the heap -/

/-- A function with its places moved. -/
def UserFunction.relocate (r : Relocation) (f : UserFunction) : UserFunction :=
  { f with parameters := relocateParameters r f.parameters, body := f.body.relocate r }

/-- A function with its places moved; a built-in one has none. -/
def Function.relocate (r : Relocation) : Function → Function
  | .user f => .user (f.relocate r)
  | .native f => .native f

/-- A heap with the places of its functions moved. -/
def Heap.relocate (r : Relocation) (heap : Heap) : Heap :=
  { heap with functions := heap.functions.map (Function.relocate r) }

theorem Function.relocate_stay (f : Function) : f.relocate .stay = f := by
  cases f with
  | native f => rfl
  | user f =>
    simp only [Function.relocate, UserFunction.relocate, relocateParameters_stay,
      Block.relocate_stay]

/-- Moving nothing leaves the heap as it is. -/
theorem Heap.relocate_stay (heap : Heap) : heap.relocate .stay = heap := by
  have hfunctions : heap.functions.map (Function.relocate .stay) = heap.functions := by
    simp [funext Function.relocate_stay]
  unfold Heap.relocate
  rw [hfunctions]

/-- A function of the heap is moved where it is. -/
theorem Heap.function?_relocate (heap : Heap) (ref : FunctionRef) :
    (heap.relocate r).function? ref = (heap.function? ref).map (Function.relocate r) :=
  Array.getElem?_map

/-- A function that is moved and added is one that is added and moved. -/
theorem Heap.addFunction_relocate (heap : Heap) (f : Function) :
    (heap.relocate r).addFunction (f.relocate r) =
      ((heap.addFunction f).1, (heap.addFunction f).2.relocate r) := by
  simp only [Heap.addFunction, Heap.relocate, Array.size_map, Array.map_push]

/-- Functions are displayed without places. -/
theorem Display.ofFunction_relocate (f : Option Function) :
    ofFunction (f.map (Function.relocate r)) = ofFunction f := by
  rcases f with _ | f
  · rfl
  · cases f <;> rfl

/-- Of a function only its name is shown. -/
theorem Display.within_relocate (heap : Heap) :
    ∀ depth, within (heap.relocate r) depth = within heap depth := by
  intro depth
  induction depth with
  | zero =>
    funext path v
    cases v with
    | function ref => simp only [within, Heap.function?_relocate, ofFunction_relocate]
    -- At this depth containers are not opened.
    | number | string | boolean | array | dictionary => simp only [within]
  | succ depth ih =>
    funext path v
    cases v with
    | function ref => simp only [within, Heap.function?_relocate, ofFunction_relocate]
    | array ref =>
      simp only [within, ih]
      rfl
    | dictionary ref =>
      simp only [within, ih]
      rfl
    | number | string | boolean => simp only [within]

/-- Whether a value can be written does not depend on places. -/
theorem Display.writableWithin_relocate (maxDigits : Nat) (heap : Heap) :
    ∀ depth, writableWithin maxDigits (heap.relocate r) depth =
      writableWithin maxDigits heap depth := by
  intro depth
  induction depth with
  | zero =>
    funext path v
    cases v <;> simp only [writableWithin]
  | succ depth ih =>
    funext path v
    cases v with
    | array ref =>
      simp only [writableWithin, ih]
      rfl
    | dictionary ref =>
      simp only [writableWithin, ih]
      rfl
    | number | string | boolean | function => simp only [writableWithin]

/-- How values are written does not depend on places. -/
theorem Heap.write_relocate (heap : Heap) : (heap.relocate r).write = heap.write := by
  funext maxDigits v
  unfold Heap.write Heap.display
  rw [Display.within_relocate, Display.writableWithin_relocate]
  rfl

end DecimalScript
