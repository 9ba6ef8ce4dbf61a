import DecimalScript.Proofs.FreeNames

/-!
# Declarations and function literals in code

What a piece of code may do to the global names of its frame, and which functions it may make, can
be read off its text: statements outside function literals declare names for the frame that runs
them, and the outermost function literals are the ones that the frame evaluates.

- `Literals.inExpr`, `Literals.inStmts`, ...: the outermost function literals, by recursion on
  syntax.
- `Declares.inBlock`, ...: whether a name is declared outside function literals, that is, for the
  frame that runs the code; `DeclaresWithin` counts the declarations inside function literals too.
- `mem_globals_ofFunction`: what is global in a literal is what is global around it and what its
  body declares, wherever the declaration stands and whether or not it ever runs.
-/

namespace DecimalScript

/-- A function literal: its parameters and its body. -/
structure Literal where
  parameters : List Parameter
  body : Block

/-! ### Outermost function literals -/

namespace Literals

mutual

/-- The outermost function literals of an expression. -/
def inExpr : Expr → List Literal
  | .number _ _ _ | .string _ _ | .boolean _ _ | .name _ _ => []
  | .lookup _ target key => inExpr target ++ inExpr key
  | .binary _ _ left right => inExpr left ++ inExpr right
  | .unary _ _ operand => inExpr operand
  | .array _ elements => inExprs elements
  | .dictionary _ entries => inEntries entries
  | .function _ parameters body => [⟨parameters, body⟩]
  | .call _ callee arguments => inExpr callee ++ inExprs arguments

/-- The outermost function literals of several expressions. -/
def inExprs : List Expr → List Literal
  | [] => []
  | e :: es => inExpr e ++ inExprs es

/-- The outermost function literals of entries. -/
def inEntries : List Entry → List Literal
  | [] => []
  | .mk key value :: es => (inExpr key ++ inExpr value) ++ inEntries es

end

/-- The outermost function literals of a default. -/
def inDefault : Option Expr → List Literal
  | none => []
  | some e => inExpr e

/-- The outermost function literals in the defaults of parameters. -/
def inParameters : List Parameter → List Literal
  | [] => []
  | .mk _ _ default :: ps => inDefault default ++ inParameters ps

mutual

/-- The outermost function literals of a block. -/
def inBlock : Block → List Literal
  | .mk _ statements => inStmts statements

/-- The outermost function literals of a statement. -/
def inStmt : Stmt → List Literal
  | .assignVariable _ _ _ value => inExpr value
  | .assignElement _ _ target key value => (inExpr value ++ inExpr target) ++ inExpr key
  | .call _ _ callee arguments => inExpr callee ++ inExprs arguments
  | .ret _ value => inExpr value
  | .declareGlobal _ _ => []
  | .branch _ condition body otherwise =>
    (inExpr condition ++ inBlock body) ++ inOtherwise otherwise
  | .loop _ condition body => inExpr condition ++ inBlock body
  | .each _ source _ _ body => inExpr source ++ inBlock body

/-- The outermost function literals of several statements. -/
def inStmts : List Stmt → List Literal
  | [] => []
  | s :: ss => inStmt s ++ inStmts ss

/-- The outermost function literals of what follows the block of a conditional. -/
def inOtherwise : Otherwise → List Literal
  | .nothing => []
  | .block block => inBlock block
  | .branch _ condition body otherwise =>
    (inExpr condition ++ inBlock body) ++ inOtherwise otherwise

end

theorem inBlock_eq : ∀ b : Block, inBlock b = inStmts b.statements
  | .mk _ _ => rfl

end Literals

/-! ### Declarations -/

namespace Declares

mutual

/-- Whether a block declares a name global for the frame that runs it. -/
def inBlock (name : String) : Block → Bool
  | .mk _ statements => inStmts name statements

/-- Whether a statement declares a name global for the frame that runs it. -/
def inStmt (name : String) : Stmt → Bool
  | .assignVariable _ _ _ _ | .assignElement _ _ _ _ _ | .call _ _ _ _ | .ret _ _ => false
  | .declareGlobal _ names => names.contains name
  | .branch _ _ body otherwise => inBlock name body || inOtherwise name otherwise
  | .loop _ _ body => inBlock name body
  | .each _ _ _ _ body => inBlock name body

/-- Whether one of several statements declares a name global for the frame that runs them. -/
def inStmts (name : String) : List Stmt → Bool
  | [] => false
  | s :: ss => inStmt name s || inStmts name ss

/-- Whether what follows the block of a conditional declares a name global. -/
def inOtherwise (name : String) : Otherwise → Bool
  | .nothing => false
  | .block block => inBlock name block
  | .branch _ _ body otherwise => inBlock name body || inOtherwise name otherwise

end

theorem inBlock_eq (name : String) : ∀ b : Block, inBlock name b = inStmts name b.statements
  | .mk _ _ => rfl

end Declares

namespace DeclaresWithin

mutual

/-- Whether a name is declared global in a function literal of an expression. -/
def inExpr (name : String) : Expr → Bool
  | .number _ _ _ | .string _ _ | .boolean _ _ | .name _ _ => false
  | .lookup _ target key => inExpr name target || inExpr name key
  | .binary _ _ left right => inExpr name left || inExpr name right
  | .unary _ _ operand => inExpr name operand
  | .array _ elements => inExprs name elements
  | .dictionary _ entries => inEntries name entries
  | .function _ parameters body => inParameters name parameters || inBlock name body
  | .call _ callee arguments => inExpr name callee || inExprs name arguments

/-- Whether a name is declared global in one of several expressions. -/
def inExprs (name : String) : List Expr → Bool
  | [] => false
  | e :: es => inExpr name e || inExprs name es

/-- Whether a name is declared global in one of several entries. -/
def inEntries (name : String) : List Entry → Bool
  | [] => false
  | .mk key value :: es => (inExpr name key || inExpr name value) || inEntries name es

/-- Whether a name is declared global in a default. -/
def inDefault (name : String) : Option Expr → Bool
  | none => false
  | some e => inExpr name e

/-- Whether a name is declared global in the default of one of several parameters. -/
def inParameters (name : String) : List Parameter → Bool
  | [] => false
  | .mk _ _ default :: ps => inDefault name default || inParameters name ps

/-- Whether a name is declared global anywhere in a block. -/
def inBlock (name : String) : Block → Bool
  | .mk _ statements => inStmts name statements

/-- Whether a name is declared global anywhere in a statement. -/
def inStmt (name : String) : Stmt → Bool
  | .assignVariable _ _ _ value => inExpr name value
  | .assignElement _ _ target key value =>
    (inExpr name value || inExpr name target) || inExpr name key
  | .call _ _ callee arguments => inExpr name callee || inExprs name arguments
  | .ret _ value => inExpr name value
  | .declareGlobal _ names => names.contains name
  | .branch _ condition body otherwise =>
    (inExpr name condition || inBlock name body) || inOtherwise name otherwise
  | .loop _ condition body => inExpr name condition || inBlock name body
  | .each _ source _ _ body => inExpr name source || inBlock name body

/-- Whether a name is declared global anywhere in several statements. -/
def inStmts (name : String) : List Stmt → Bool
  | [] => false
  | s :: ss => inStmt name s || inStmts name ss

/-- Whether a name is declared global anywhere in what follows the block of a conditional. -/
def inOtherwise (name : String) : Otherwise → Bool
  | .nothing => false
  | .block block => inBlock name block
  | .branch _ condition body otherwise =>
    (inExpr name condition || inBlock name body) || inOtherwise name otherwise

end

/-- Whether a name is declared global anywhere in a function literal. -/
def inFunction (name : String) (parameters : List Parameter) (body : Block) : Bool :=
  inParameters name parameters || inBlock name body

/-! ### What is declared nowhere is declared nowhere inside -/

/-- A name that neither of two parts declares is declared in none of their literals. -/
theorem forall_of_append {name : String} {a b : Bool} {as bs : List Literal}
    (ha : a = false → ∀ l ∈ as, inFunction name l.parameters l.body = false)
    (hb : b = false → ∀ l ∈ bs, inFunction name l.parameters l.body = false)
    (h : (a || b) = false) :
    ∀ l ∈ as ++ bs, inFunction name l.parameters l.body = false := by
  obtain ⟨h, h'⟩ := Bool.or_eq_false_iff.mp h
  exact List.forall_mem_append.mpr ⟨ha h, hb h'⟩

mutual

/-- A function that is written in an expression declares nothing that the expression does not. -/
theorem literals_inExpr (name : String) :
    ∀ e : Expr, inExpr name e = false →
      ∀ l ∈ Literals.inExpr e, inFunction name l.parameters l.body = false
  | .number _ _ _, _ | .string _ _, _ | .boolean _ _, _ | .name _ _, _ => fun _ hl => by cases hl
  | .lookup _ target key, h =>
    forall_of_append (literals_inExpr name target) (literals_inExpr name key) h
  | .binary _ _ left right, h =>
    forall_of_append (literals_inExpr name left) (literals_inExpr name right) h
  | .unary _ _ operand, h => literals_inExpr name operand h
  | .array _ elements, h => literals_inExprs name elements h
  | .dictionary _ entries, h => literals_inEntries name entries h
  | .function _ parameters body, h => fun l hl => by
    rw [List.mem_singleton.mp hl]
    exact h
  | .call _ callee arguments, h =>
    forall_of_append (literals_inExpr name callee) (literals_inExprs name arguments) h

theorem literals_inExprs (name : String) :
    ∀ es : List Expr, inExprs name es = false →
      ∀ l ∈ Literals.inExprs es, inFunction name l.parameters l.body = false
  | [], _ => fun _ hl => by cases hl
  | e :: es, h => forall_of_append (literals_inExpr name e) (literals_inExprs name es) h

theorem literals_inEntries (name : String) :
    ∀ es : List Entry, inEntries name es = false →
      ∀ l ∈ Literals.inEntries es, inFunction name l.parameters l.body = false
  | [], _ => fun _ hl => by cases hl
  | .mk key value :: es, h =>
    forall_of_append
      (forall_of_append (literals_inExpr name key) (literals_inExpr name value))
      (literals_inEntries name es) h

end

theorem literals_inParameters (name : String) :
    ∀ ps : List Parameter, inParameters name ps = false →
      ∀ l ∈ Literals.inParameters ps, inFunction name l.parameters l.body = false
  | [], _ => fun _ hl => by cases hl
  | .mk _ _ none :: ps, h => literals_inParameters name ps h
  | .mk _ _ (some default) :: ps, h =>
    forall_of_append (literals_inExpr name default) (literals_inParameters name ps) h

mutual

theorem literals_inBlock (name : String) :
    ∀ b : Block, inBlock name b = false →
      ∀ l ∈ Literals.inBlock b, inFunction name l.parameters l.body = false
  | .mk _ ss, h => literals_inStmts name ss h

/-- A function that is written in a statement declares nothing that the statement does not. -/
theorem literals_inStmt (name : String) :
    ∀ s : Stmt, inStmt name s = false →
      ∀ l ∈ Literals.inStmt s, inFunction name l.parameters l.body = false
  | .assignVariable _ _ _ value, h => literals_inExpr name value h
  | .assignElement _ _ target key value, h =>
    forall_of_append
      (forall_of_append (literals_inExpr name value) (literals_inExpr name target))
      (literals_inExpr name key) h
  | .call _ _ callee arguments, h =>
    forall_of_append (literals_inExpr name callee) (literals_inExprs name arguments) h
  | .ret _ value, h => literals_inExpr name value h
  | .declareGlobal _ _, _ => fun _ hl => by cases hl
  | .branch _ condition body otherwise, h =>
    forall_of_append
      (forall_of_append (literals_inExpr name condition) (literals_inBlock name body))
      (literals_inOtherwise name otherwise) h
  | .loop _ condition body, h =>
    forall_of_append (literals_inExpr name condition) (literals_inBlock name body) h
  | .each _ source _ _ body, h =>
    forall_of_append (literals_inExpr name source) (literals_inBlock name body) h

theorem literals_inStmts (name : String) :
    ∀ ss : List Stmt, inStmts name ss = false →
      ∀ l ∈ Literals.inStmts ss, inFunction name l.parameters l.body = false
  | [], _ => fun _ hl => by cases hl
  | s :: ss, h => forall_of_append (literals_inStmt name s) (literals_inStmts name ss) h

theorem literals_inOtherwise (name : String) :
    ∀ o : Otherwise, inOtherwise name o = false →
      ∀ l ∈ Literals.inOtherwise o, inFunction name l.parameters l.body = false
  | .nothing, _ => fun _ hl => by cases hl
  | .block b, h => literals_inBlock name b h
  | .branch _ condition body otherwise, h =>
    forall_of_append
      (forall_of_append (literals_inExpr name condition) (literals_inBlock name body))
      (literals_inOtherwise name otherwise) h

end

mutual

/-- What a block declares itself is declared in it. -/
theorem declares_inBlock {name : String} :
    ∀ {b : Block}, Declares.inBlock name b = true → inBlock name b = true
  | .mk _ _, h => declares_inStmts h

theorem declares_inStmt {name : String} :
    ∀ {s : Stmt}, Declares.inStmt name s = true → inStmt name s = true
  | .assignVariable _ _ _ _, h | .assignElement _ _ _ _ _, h | .call _ _ _ _, h | .ret _ _, h => by
    cases h
  | .declareGlobal _ _, h => h
  | .branch _ _ _ _, h => by
    rcases Bool.or_eq_true_iff.mp h with h | h
    · simp [inStmt, declares_inBlock h]
    · simp [inStmt, declares_inOtherwise h]
  | .loop _ _ _, h | .each _ _ _ _ _, h => by simp [inStmt, declares_inBlock h]

theorem declares_inStmts {name : String} :
    ∀ {ss : List Stmt}, Declares.inStmts name ss = true → inStmts name ss = true
  | [], h => by cases h
  | _ :: _, h => by
    rcases Bool.or_eq_true_iff.mp h with h | h
    · simp [inStmts, declares_inStmt h]
    · simp [inStmts, declares_inStmts h]

theorem declares_inOtherwise {name : String} :
    ∀ {o : Otherwise}, Declares.inOtherwise name o = true → inOtherwise name o = true
  | .nothing, h => by cases h
  | .block _, h => declares_inBlock h
  | .branch _ _ _ _, h => by
    rcases Bool.or_eq_true_iff.mp h with h | h
    · simp [inOtherwise, declares_inBlock h]
    · simp [inOtherwise, declares_inOtherwise h]

end

end DeclaresWithin

namespace Capture

open Tracker

/-! ### What is global in a literal -/

mutual

/-- Going through a block adds just the names that it declares to the global ones. -/
theorem mem_globals_ofBlock {n : String} :
    ∀ {b : Block} {t : Tracker},
      n ∈ (ofBlock t b).globals ↔ n ∈ t.globals ∨ Declares.inBlock n b = true
  | .mk _ _, _ => mem_globals_ofStmts

/-- Going through a statement adds just the names that it declares to the global ones. -/
theorem mem_globals_ofStmt {n : String} :
    ∀ {s : Stmt} {t : Tracker},
      n ∈ (ofStmt t s).globals ↔ n ∈ t.globals ∨ Declares.inStmt n s = true
  | .assignVariable _ _ _ _, _ => by simp [ofStmt, globals_write, globals_ofExpr, Declares.inStmt]
  | .assignElement _ _ _ _ _, _ => by simp [ofStmt, globals_ofExpr, Declares.inStmt]
  | .call _ _ _ _, _ => by simp [ofStmt, globals_ofExprs, globals_ofExpr, Declares.inStmt]
  | .ret _ _, _ => by simp [ofStmt, globals_ofExpr, Declares.inStmt]
  | .declareGlobal _ names, t => by
    simp only [ofStmt, Declares.inStmt, List.contains_iff_mem]
    exact mem_globals_addGlobals
  | .branch _ _ _ _, _ => by
    simp only [ofStmt, Declares.inStmt, mem_globals_ofOtherwise, mem_globals_ofBlock,
      globals_ofExpr, Bool.or_eq_true_iff, or_assoc]
  | .loop _ _ _, _ => by
    simp only [ofStmt, Declares.inStmt, mem_globals_ofBlock, globals_ofExpr]
  | .each _ _ none _ _, _ | .each _ _ (some _) _ _, _ => by
    simp only [ofStmt, Declares.inStmt, mem_globals_ofBlock, globals_write, globals_ofExpr]

theorem mem_globals_ofStmts {n : String} :
    ∀ {ss : List Stmt} {t : Tracker},
      n ∈ (ofStmts t ss).globals ↔ n ∈ t.globals ∨ Declares.inStmts n ss = true
  | [], _ => by simp [ofStmts, Declares.inStmts]
  | _ :: _, _ => by
    simp only [ofStmts, Declares.inStmts, mem_globals_ofStmts, mem_globals_ofStmt,
      Bool.or_eq_true_iff, or_assoc]

theorem mem_globals_ofOtherwise {n : String} :
    ∀ {o : Otherwise} {t : Tracker},
      n ∈ (ofOtherwise t o).globals ↔ n ∈ t.globals ∨ Declares.inOtherwise n o = true
  | .nothing, _ => by simp [ofOtherwise, Declares.inOtherwise]
  | .block _, _ => mem_globals_ofBlock
  | .branch _ _ _ _, _ => by
    simp only [ofOtherwise, Declares.inOtherwise, mem_globals_ofOtherwise, mem_globals_ofBlock,
      globals_ofExpr, Bool.or_eq_true_iff, or_assoc]

end

/-- **What is global in a literal**: what is declared global around it, and what its own body
declares anywhere outside further literals. -/
theorem mem_globals_ofFunction {n : String} {parameters : List Parameter} {body : Block}
    {outer globals : List String} :
    n ∈ (ofFunction parameters body outer globals).globals ↔
      n ∈ globals ∨ Declares.inBlock n body = true := by
  rw [ofFunction, mem_globals_ofBlock, globals_ofParameters]
  show n ∈ Names.ofList globals ∨ _ ↔ _
  rw [Names.mem_ofList]

end Capture

end DecimalScript
