import DecimalScript.Scope.Capture

/-!
# Free names, and what capture analysis finds

A name is free in a piece of code if running the code may look it up in, or write it to, the table
that the code starts with. A name is bound by a parameter for what runs after the parameter, and by
a declaration for the statements behind it.

- `Free.inExpr`, `Free.inFunction`, ...: the free names, by recursion on syntax.
- `Leading.inExpr`, `Leading.inStmts`, ...: inside function literals, declarations of global names
  stand only among the leading statements of a body.
- `mem_upvalues_ofFunction`: under that condition, every name that is free in a function literal,
  bound around it and not global there is found by the analysis.
- `globals_ofFunction_eq`: what is global in a literal does not depend on what is bound around it.
-/

namespace DecimalScript

/-! ### Free names -/

namespace Free

/-- Whether a statement declares a name global. -/
def declares (name : String) : Stmt → Bool
  | .declareGlobal _ names => names.contains name
  | _ => false

/-- Whether a name is that of a parameter. -/
def bound (name : String) (parameters : List Parameter) : Bool :=
  parameters.any fun p => p.name == name

mutual

/-- Whether a name is free in an expression. -/
def inExpr (name : String) : Expr → Bool
  | .number _ _ _ | .string _ _ | .boolean _ _ => false
  | .name _ n => n == name
  | .lookup _ target key => inExpr name target || inExpr name key
  | .binary _ _ left right => inExpr name left || inExpr name right
  | .unary _ _ operand => inExpr name operand
  | .array _ elements => inExprs name elements
  | .dictionary _ entries => inEntries name entries
  | .function _ parameters body =>
    inParameters name parameters || (!bound name parameters && inBlock name body)
  | .call _ callee arguments => inExpr name callee || inExprs name arguments

/-- Whether a name is free in one of several expressions. -/
def inExprs (name : String) : List Expr → Bool
  | [] => false
  | e :: es => inExpr name e || inExprs name es

/-- Whether a name is free in one of several entries. -/
def inEntries (name : String) : List Entry → Bool
  | [] => false
  | .mk key value :: es => (inExpr name key || inExpr name value) || inEntries name es

/-- Whether a name is free in a default. -/
def inDefault (name : String) : Option Expr → Bool
  | none => false
  | some e => inExpr name e

/-- Whether a name is free in the default of one of several parameters; a default runs with the
parameters before it bound. -/
def inParameters (name : String) : List Parameter → Bool
  | [] => false
  | .mk _ n default :: ps => inDefault name default || (n != name && inParameters name ps)

/-- Whether a name is free in a block. -/
def inBlock (name : String) : Block → Bool
  | .mk _ statements => inStmts name statements

/-- Whether a name is free in a statement; writing a variable counts as reading it does. -/
def inStmt (name : String) : Stmt → Bool
  | .assignVariable _ _ n value => inExpr name value || n == name
  | .assignElement _ _ target key value =>
    (inExpr name value || inExpr name target) || inExpr name key
  | .call _ _ callee arguments => inExpr name callee || inExprs name arguments
  | .ret _ value => inExpr name value
  | .declareGlobal _ _ => false
  | .branch _ condition body otherwise =>
    (inExpr name condition || inBlock name body) || inOtherwise name otherwise
  | .loop _ condition body => inExpr name condition || inBlock name body
  | .each _ source none value body =>
    (inExpr name source || value == name) || inBlock name body
  | .each _ source (some key) value body =>
    ((inExpr name source || key == name) || value == name) || inBlock name body

/-- Whether a name is free in one of several statements and not declared global before it. -/
def inStmts (name : String) : List Stmt → Bool
  | [] => false
  | s :: ss => inStmt name s || (!declares name s && inStmts name ss)

/-- Whether a name is free in what follows the block of a conditional. -/
def inOtherwise (name : String) : Otherwise → Bool
  | .nothing => false
  | .block block => inBlock name block
  | .branch _ condition body otherwise =>
    (inExpr name condition || inBlock name body) || inOtherwise name otherwise

end

theorem inBlock_eq (name : String) : ∀ b : Block, inBlock name b = inStmts name b.statements
  | .mk _ _ => rfl

/-- Whether a name is free in a function literal. -/
def inFunction (name : String) (parameters : List Parameter) (body : Block) : Bool :=
  inParameters name parameters || (!bound name parameters && inBlock name body)

end Free

/-! ### Declarations that lead their bodies -/

namespace Leading

mutual

/-- In every function literal of an expression, declarations of global names stand only among the
leading statements of the body. -/
def inExpr : Expr → Bool
  | .number _ _ _ | .string _ _ | .boolean _ _ | .name _ _ => true
  | .lookup _ target key => inExpr target && inExpr key
  | .binary _ _ left right => inExpr left && inExpr right
  | .unary _ _ operand => inExpr operand
  | .array _ elements => inExprs elements
  | .dictionary _ entries => inEntries entries
  | .function _ parameters body => inParameters parameters && inBody body
  | .call _ callee arguments => inExpr callee && inExprs arguments

/-- The condition on several expressions. -/
def inExprs : List Expr → Bool
  | [] => true
  | e :: es => inExpr e && inExprs es

/-- The condition on entries. -/
def inEntries : List Entry → Bool
  | [] => true
  | .mk key value :: es => (inExpr key && inExpr value) && inEntries es

/-- The condition on a default. -/
def inDefault : Option Expr → Bool
  | none => true
  | some e => inExpr e

/-- The condition on the defaults of parameters. -/
def inParameters : List Parameter → Bool
  | [] => true
  | .mk _ _ default :: ps => inDefault default && inParameters ps

/-- The body of a function literal: leading declarations, and behind them none at all outside
further function literals. -/
def inBody : Block → Bool
  | .mk _ statements => inBodyStmts statements

/-- The statements of the body of a function literal. -/
def inBodyStmts : List Stmt → Bool
  | [] => true
  | .declareGlobal _ _ :: ss => inBodyStmts ss
  | s :: ss => inStmt false s && inStmts false ss

/-- The condition on a block; `free` allows declarations outside function literals. -/
def inBlock (free : Bool) : Block → Bool
  | .mk _ statements => inStmts free statements

/-- The condition on a statement. -/
def inStmt (free : Bool) : Stmt → Bool
  | .assignVariable _ _ _ value => inExpr value
  | .assignElement _ _ target key value => (inExpr value && inExpr target) && inExpr key
  | .call _ _ callee arguments => inExpr callee && inExprs arguments
  | .ret _ value => inExpr value
  | .declareGlobal _ _ => free
  | .branch _ condition body otherwise =>
    (inExpr condition && inBlock free body) && inOtherwise free otherwise
  | .loop _ condition body => inExpr condition && inBlock free body
  | .each _ source _ _ body => inExpr source && inBlock free body

/-- The condition on several statements. -/
def inStmts (free : Bool) : List Stmt → Bool
  | [] => true
  | s :: ss => inStmt free s && inStmts free ss

/-- The condition on what follows the block of a conditional. -/
def inOtherwise (free : Bool) : Otherwise → Bool
  | .nothing => true
  | .block block => inBlock free block
  | .branch _ condition body otherwise =>
    (inExpr condition && inBlock free body) && inOtherwise free otherwise

end

/-- A body starts with a declaration, or there are no declarations in it. -/
theorem inBodyStmts_cons {s : Stmt} {ss : List Stmt} (h : inBodyStmts (s :: ss) = true) :
    (∃ span names, s = .declareGlobal span names ∧ inBodyStmts ss = true) ∨
      (inStmt false s = true ∧ inStmts false ss = true) := by
  cases s with
  | declareGlobal span names => exact .inl ⟨span, names, rfl, h⟩
  | _ => exact .inr (Bool.and_eq_true_iff.mp h)

mutual

/-- Declarations that lead the body of a function lead it where no function is around it as well. -/
theorem inBlock_true : ∀ {b : Block}, inBlock false b = true → inBlock true b = true
  | .mk _ _, h => by
    rw [inBlock] at h ⊢
    exact inStmts_true h

theorem inStmt_true : ∀ {s : Stmt}, inStmt false s = true → inStmt true s = true
  | .assignVariable _ _ _ _, h | .assignElement _ _ _ _ _, h | .call _ _ _ _, h | .ret _ _, h => h
  | .declareGlobal _ _, h => by cases h
  | .branch _ _ _ _, h => by
    obtain ⟨h, hotherwise⟩ := Bool.and_eq_true_iff.mp h
    obtain ⟨hcondition, hbody⟩ := Bool.and_eq_true_iff.mp h
    simp [inStmt, hcondition, inBlock_true hbody, inOtherwise_true hotherwise]
  | .loop _ _ _, h | .each _ _ _ _ _, h => by
    obtain ⟨hexpr, hbody⟩ := Bool.and_eq_true_iff.mp h
    simp [inStmt, hexpr, inBlock_true hbody]

theorem inStmts_true : ∀ {ss : List Stmt}, inStmts false ss = true → inStmts true ss = true
  | [], _ => rfl
  | _ :: _, h => by
    obtain ⟨hs, hss⟩ := Bool.and_eq_true_iff.mp h
    simp [inStmts, inStmt_true hs, inStmts_true hss]

theorem inOtherwise_true :
    ∀ {o : Otherwise}, inOtherwise false o = true → inOtherwise true o = true
  | .nothing, _ => rfl
  | .block _, h => inBlock_true h
  | .branch _ _ _ _, h => by
    obtain ⟨h, hotherwise⟩ := Bool.and_eq_true_iff.mp h
    obtain ⟨hcondition, hbody⟩ := Bool.and_eq_true_iff.mp h
    simp [inOtherwise, hcondition, inBlock_true hbody, inOtherwise_true hotherwise]

end

/-- The statements of a body satisfy the condition of statements anywhere. -/
theorem inStmts_of_inBodyStmts :
    ∀ {ss : List Stmt}, inBodyStmts ss = true → inStmts true ss = true
  | [], _ => rfl
  | s :: ss, h => by
    rcases inBodyStmts_cons h with ⟨span, names, rfl, hss⟩ | ⟨hs, hss⟩
    · simp [inStmts, inStmt, inStmts_of_inBodyStmts hss]
    · simp [inStmts, inStmt_true hs, inStmts_true hss]

end Leading

/-- Inside the function literals of a program, declarations of global names stand only among the
leading statements of a body; outside them they stand anywhere. -/
def Program.GlobalsLead (program : Program) : Prop :=
  Leading.inStmts true program.statements = true

/-! ### Sets of names -/

namespace Names

theorem mem_add {x n : String} : ∀ {names : Names}, x ∈ names.add n ↔ x = n ∨ x ∈ names
  | [] => by simp [add]
  | first :: others => by
    unfold add
    split
    · rename_i h
      subst h
      simp
    · split
      · simp
      · rw [List.mem_cons, mem_add, List.mem_cons]
        exact or_left_comm

theorem mem_foldl_add {x : String} :
    ∀ {added names : List String}, x ∈ added.foldl add names ↔ x ∈ names ∨ x ∈ added
  | [], names => by simp
  | n :: added, names => by
    rw [List.foldl_cons, mem_foldl_add, mem_add, List.mem_cons]
    constructor
    · rintro ((rfl | h) | h)
      · exact .inr (.inl rfl)
      · exact .inl h
      · exact .inr (.inr h)
    · rintro (h | rfl | h)
      · exact .inl (.inr h)
      · exact .inl (.inl rfl)
      · exact .inr h

theorem mem_ofList {x : String} {names : List String} : x ∈ ofList names ↔ x ∈ names := by
  rw [ofList, mem_foldl_add]
  simp

theorem mem_union {x : String} {a b : Names} : x ∈ a.union b ↔ x ∈ a ∨ x ∈ b :=
  mem_foldl_add

end Names

/-! ### What reading code does to a tracker -/

namespace Tracker

/-- A name is visible from outside the body, and neither global nor local in it: any use of it is
recorded. -/
def Open (t : Tracker) (n : String) : Prop :=
  n ∈ t.outer ∧ n ∉ t.globals ∧ n ∉ t.locals

/-- Reading code from `t` to `t'`, in which the name `n` is free if `free` is set, forgets no
capture, leaves the name open, and captures it if it is free. -/
structure Reads (n : String) (free : Bool) (t t' : Tracker) : Prop where
  keeps : n ∈ t.upvalues → n ∈ t'.upvalues
  stays : t.Open n → t'.Open n
  catches : t.Open n → free = true → n ∈ t'.upvalues

variable {n : String} {t t' t'' : Tracker}

theorem Reads.refl (n : String) (t : Tracker) : Reads n false t t :=
  ⟨id, id, fun _ h => by cases h⟩

theorem Reads.trans {a b : Bool} (h : Reads n a t t') (h' : Reads n b t' t'') :
    Reads n (a || b) t t'' where
  keeps := fun hn => h'.keeps (h.keeps hn)
  stays := fun ht => h'.stays (h.stays ht)
  catches := fun ht hab => by
    rcases Bool.or_eq_true_iff.mp hab with ha | hb
    · exact h'.keeps (h.catches ht ha)
    · exact h'.catches (h.stays ht) hb

/-- Capturing a name adds it to the upvalues, and nothing else. -/
theorem mem_upvalues_capture {x : String} : n ∈ (t.capture x).upvalues ↔ n = x ∨ n ∈ t.upvalues :=
  Names.mem_add

/-- Reading a name captures it, if it is open. -/
theorem reads_read (n x : String) (t : Tracker) : Reads n (x == n) t (t.read x) := by
  unfold read
  split
  · rename_i hx
    refine ⟨id, id, fun ht hn => ?_⟩
    rw [beq_iff_eq.mp hn] at hx
    simp [ht.2.1, ht.2.2] at hx
  · split
    · refine ⟨fun hn => mem_upvalues_capture.mpr (.inr hn), id, fun _ hn => ?_⟩
      exact mem_upvalues_capture.mpr (.inl (beq_iff_eq.mp hn).symm)
    · rename_i hx
      refine ⟨id, id, fun ht hn => ?_⟩
      rw [beq_iff_eq.mp hn] at hx
      simp [ht.1] at hx

/-- Writing a name captures it as reading does, if it is open. -/
theorem reads_write (n x : String) (t : Tracker) : Reads n (x == n) t (t.write x) := by
  unfold write
  split
  · rename_i hx
    refine ⟨id, id, fun ht hn => ?_⟩
    rw [beq_iff_eq.mp hn] at hx
    simp [ht.2.1, ht.2.2] at hx
  · split
    · refine ⟨fun hn => mem_upvalues_capture.mpr (.inr hn), id, fun _ hn => ?_⟩
      exact mem_upvalues_capture.mpr (.inl (beq_iff_eq.mp hn).symm)
    · -- a new local name: it is not visible from outside, so it is not the open one
      rename_i hx
      have hne : t.Open n → n ≠ x := by
        rintro ht rfl
        simp [ht.1] at hx
      refine ⟨id, fun ht => ⟨ht.1, ht.2.1, fun hn => ?_⟩, fun ht hn => ?_⟩
      · rcases Names.mem_add.mp hn with h | h
        · exact hne ht h
        · exact ht.2.2 h
      · exact absurd (beq_iff_eq.mp hn).symm (hne ht)

/-- What an inner body captures is captured here, unless it is local. -/
theorem mem_upvalues_endScope {inner : Tracker} :
    n ∈ (t.endScope inner).upvalues ↔ n ∈ t.upvalues ∨ (n ∈ inner.upvalues ∧ n ∉ t.locals) := by
  -- The fold captures the names one at a time; the locals it is checked against never change, which
  -- is why they are part of the induction.
  have hfold : ∀ (names : Names) (t : Tracker),
      let t' := names.foldl (fun t x => if t.locals.contains x then t else t.capture x) t
      t'.locals = t.locals ∧
        (n ∈ t'.upvalues ↔ n ∈ t.upvalues ∨ (n ∈ names ∧ n ∉ t.locals)) := by
    intro names
    induction names with
    | nil => intro t; simp
    | cons x names ih =>
      intro t
      rw [List.foldl_cons]
      by_cases hx : x ∈ t.locals
      · rw [if_pos (by simpa using hx)]
        obtain ⟨hlocals, hups⟩ := ih t
        refine ⟨hlocals, hups.trans ?_⟩
        constructor
        · rintro (h | h)
          · exact .inl h
          · exact .inr ⟨List.mem_cons_of_mem x h.1, h.2⟩
        · rintro (h | ⟨h, hn⟩)
          · exact .inl h
          · rcases List.mem_cons.mp h with rfl | h
            · exact absurd hx hn
            · exact .inr ⟨h, hn⟩
      · rw [if_neg (by simpa using hx)]
        obtain ⟨hlocals, hups⟩ := ih (t.capture x)
        refine ⟨hlocals, hups.trans ?_⟩
        rw [mem_upvalues_capture, List.mem_cons]
        constructor
        · rintro ((rfl | h) | h)
          · exact .inr ⟨.inl rfl, hx⟩
          · exact .inl h
          · exact .inr ⟨.inr h.1, h.2⟩
        · rintro (h | ⟨rfl | h, hn⟩)
          · exact .inl (.inr h)
          · exact .inl (.inl rfl)
          · exact .inr ⟨h, hn⟩
  exact (hfold inner.upvalues t).2

/-- The end of a function literal leaves the names around it as they are, apart from captures. -/
theorem endScope_names (t inner : Tracker) :
    (t.endScope inner).globals = t.globals ∧ (t.endScope inner).outer = t.outer ∧
      (t.endScope inner).locals = t.locals := by
  unfold endScope
  generalize inner.upvalues = names
  induction names generalizing t with
  | nil => exact ⟨rfl, rfl, rfl⟩
  | cons x names ih =>
    rw [List.foldl_cons]
    split
    · exact ih t
    · exact ih (t.capture x)

theorem Open.child (h : t.Open n) : t.child.Open n :=
  ⟨Names.mem_union.mpr (.inl h.1), h.2.1, List.not_mem_nil⟩

/-- What a function captures is read where it is written. -/
theorem reads_endScope {inner : Tracker} {free : Bool}
    (h : t.Open n → free = true → n ∈ inner.upvalues) : Reads n free t (t.endScope inner) := by
  obtain ⟨hglobals, houter, hlocals⟩ := endScope_names t inner
  refine ⟨fun hn => mem_upvalues_endScope.mpr (.inl hn), fun ht => ?_, fun ht hfree => ?_⟩
  · exact ⟨houter ▸ ht.1, hglobals ▸ ht.2.1, hlocals ▸ ht.2.2⟩
  · exact mem_upvalues_endScope.mpr (.inr ⟨h ht hfree, ht.2.2⟩)

theorem Reads.cons {s : Stmt} {ss : List Stmt} (hs : Reads n (Free.inStmt n s) t t')
    (hss : Reads n (Free.inStmts n ss) t' t'') : Reads n (Free.inStmts n (s :: ss)) t t'' where
  keeps := fun hn => hss.keeps (hs.keeps hn)
  stays := fun ht => hss.stays (hs.stays ht)
  catches := fun ht hfree => by
    rcases Bool.or_eq_true_iff.mp hfree with hfree | hfree
    · exact hss.keeps (hs.catches ht hfree)
    · exact hss.catches (hs.stays ht) (Bool.and_eq_true_iff.mp hfree).2

/-- Reading parameters from `t` to `t'` forgets no capture, leaves a name open that is not one of
them, and captures a name that is free in a default. -/
structure ReadsParameters (n : String) (ps : List Parameter) (t t' : Tracker) : Prop where
  keeps : n ∈ t.upvalues → n ∈ t'.upvalues
  stays : t.Open n → Free.bound n ps = false → t'.Open n
  catches : t.Open n → Free.inParameters n ps = true → n ∈ t'.upvalues

theorem ReadsParameters.cons {span : Span} {x : String} {default : Option Expr}
    {ps : List Parameter} (h : Reads n (Free.inDefault n default) t t')
    (h' : ReadsParameters n ps (t'.addLocal x) t'') :
    ReadsParameters n (.mk span x default :: ps) t t'' := by
  -- A later parameter's default sees the earlier parameters, so a name stays open behind this
  -- parameter only when it is another one.
  have hopen : t.Open n → x ≠ n → (t'.addLocal x).Open n := by
    intro ht hx
    obtain ⟨houter, hglobals, hlocals⟩ := h.stays ht
    refine ⟨houter, hglobals, fun hn => ?_⟩
    rcases Names.mem_add.mp hn with hn | hn
    · exact hx hn.symm
    · exact hlocals hn
  refine ⟨fun hn => h'.keeps (h.keeps hn), fun ht hbound => ?_, fun ht hfree => ?_⟩
  · obtain ⟨hx, hps⟩ := Bool.or_eq_false_iff.mp hbound
    exact h'.stays (hopen ht (by simpa [Parameter.name] using hx)) hps
  · rcases Bool.or_eq_true_iff.mp hfree with hfree | hfree
    · exact h'.keeps (h.catches ht hfree)
    · obtain ⟨hx, hps⟩ := Bool.and_eq_true_iff.mp hfree
      exact h'.catches (hopen ht (by simpa using hx)) hps

/-- Reading the body of a function from `t` to `t'` forgets no capture and captures a name that is
free in it. The name need not stay open, since the body may declare it global. -/
structure ReadsBody (n : String) (free : Bool) (t t' : Tracker) : Prop where
  keeps : n ∈ t.upvalues → n ∈ t'.upvalues
  catches : t.Open n → free = true → n ∈ t'.upvalues

/-- A name that is open around a function literal and free in it is captured by it. -/
theorem mem_upvalues_of_free {ps : List Parameter} {body : Block} (hps : ReadsParameters n ps t t')
    (hbody : ReadsBody n (Free.inBlock n body) t' t'') (ht : t.Open n)
    (hfree : Free.inFunction n ps body = true) : n ∈ t''.upvalues := by
  rcases Bool.or_eq_true_iff.mp hfree with hfree | hfree
  · exact hbody.keeps (hps.catches ht hfree)
  · obtain ⟨hbound, hfree⟩ := Bool.and_eq_true_iff.mp hfree
    exact hbody.catches (hps.stays ht (by simpa using hbound)) hfree

theorem Reads.body {free : Bool} (h : Reads n free t t') : ReadsBody n free t t' :=
  ⟨h.keeps, h.catches⟩

/-- A declaration adds its names to the global ones. -/
theorem mem_globals_addGlobals :
    ∀ {names : List String} {t : Tracker},
      n ∈ (names.foldl addGlobal t).globals ↔ n ∈ t.globals ∨ n ∈ names
  | [], t => by simp
  | x :: names, t => by
    rw [List.foldl_cons, mem_globals_addGlobals, List.mem_cons]
    show n ∈ t.globals.add x ∨ n ∈ names ↔ _
    rw [Names.mem_add]
    constructor
    · rintro ((h | h) | h)
      · exact .inr (.inl h)
      · exact .inl h
      · exact .inr (.inr h)
    · rintro (h | h | h)
      · exact .inl (.inr h)
      · exact .inl (.inl h)
      · exact .inr h

/-- A declaration binds and captures nothing. -/
theorem addGlobals_names (names : List String) (t : Tracker) :
    (names.foldl addGlobal t).outer = t.outer ∧ (names.foldl addGlobal t).locals = t.locals ∧
      (names.foldl addGlobal t).upvalues = t.upvalues := by
  induction names generalizing t with
  | nil => exact ⟨rfl, rfl, rfl⟩
  | cons x names ih => exact ih (t.addGlobal x)

/-- Behind a declaration only the names that it does not declare are still open. -/
theorem ReadsBody.declareGlobal {span : Span} {names : List String} {ss : List Stmt}
    (h : ReadsBody n (Free.inStmts n ss) (names.foldl addGlobal t) t') :
    ReadsBody n (Free.inStmts n (.declareGlobal span names :: ss)) t t' := by
  obtain ⟨houter, hlocals, hupvalues⟩ := addGlobals_names names t
  refine ⟨fun hn => h.keeps (hupvalues ▸ hn), fun ht hfree => ?_⟩
  obtain ⟨hdeclared, hfree⟩ := Bool.and_eq_true_iff.mp hfree
  refine h.catches ⟨houter ▸ ht.1, fun hn => ?_, hlocals ▸ ht.2.2⟩ hfree
  rcases mem_globals_addGlobals.mp hn with hn | hn
  · exact ht.2.1 hn
  · simp [Free.declares, hn] at hdeclared

end Tracker

/-! ### Capture analysis finds the free names -/

namespace Capture

open Tracker

mutual

/-- Of an expression the tracker reads the free names. -/
theorem reads_ofExpr (n : String) :
    ∀ (e : Expr) (t : Tracker), Leading.inExpr e = true →
      Reads n (Free.inExpr n e) t (ofExpr t e)
  | .number _ _ _, t, _ | .string _ _, t, _ | .boolean _ _, t, _ => .refl n t
  | .name _ x, t, _ => reads_read n x t
  | .lookup _ target key, t, h => by
    obtain ⟨htarget, hkey⟩ := Bool.and_eq_true_iff.mp h
    exact (reads_ofExpr n target t htarget).trans (reads_ofExpr n key _ hkey)
  | .binary _ _ left right, t, h => by
    obtain ⟨hleft, hright⟩ := Bool.and_eq_true_iff.mp h
    exact (reads_ofExpr n left t hleft).trans (reads_ofExpr n right _ hright)
  | .unary _ _ operand, t, h => reads_ofExpr n operand t h
  | .array _ elements, t, h => reads_ofExprs n elements t h
  | .dictionary _ entries, t, h => reads_ofEntries n entries t h
  | .function _ parameters body, t, h => by
    obtain ⟨hparameters, hbody⟩ := Bool.and_eq_true_iff.mp h
    -- What is free in the literal is an upvalue of its scope, and passes on to this one.
    exact reads_endScope fun ht hfree =>
      mem_upvalues_of_free (reads_ofParameters n parameters t.child hparameters)
        (reads_ofBody n body _ hbody) ht.child hfree
  | .call _ callee arguments, t, h => by
    obtain ⟨hcallee, harguments⟩ := Bool.and_eq_true_iff.mp h
    exact (reads_ofExpr n callee t hcallee).trans (reads_ofExprs n arguments _ harguments)

theorem reads_ofExprs (n : String) :
    ∀ (es : List Expr) (t : Tracker), Leading.inExprs es = true →
      Reads n (Free.inExprs n es) t (ofExprs t es)
  | [], t, _ => .refl n t
  | e :: es, t, h => by
    obtain ⟨he, hes⟩ := Bool.and_eq_true_iff.mp h
    exact (reads_ofExpr n e t he).trans (reads_ofExprs n es _ hes)

theorem reads_ofEntries (n : String) :
    ∀ (es : List Entry) (t : Tracker), Leading.inEntries es = true →
      Reads n (Free.inEntries n es) t (ofEntries t es)
  | [], t, _ => .refl n t
  | .mk key value :: es, t, h => by
    obtain ⟨hentry, hes⟩ := Bool.and_eq_true_iff.mp h
    obtain ⟨hkey, hvalue⟩ := Bool.and_eq_true_iff.mp hentry
    exact ((reads_ofExpr n key t hkey).trans (reads_ofExpr n value _ hvalue)).trans
      (reads_ofEntries n es _ hes)

/-- Of parameters the tracker reads what is free in the defaults, each one in front of its own name.
-/
theorem reads_ofParameters (n : String) :
    ∀ (ps : List Parameter) (t : Tracker), Leading.inParameters ps = true →
      ReadsParameters n ps t (ofParameters t ps)
  | [], _, _ => ⟨id, fun ht _ => ht, fun _ h => by cases h⟩
  | .mk _ x none :: ps, t, h => .cons (.refl n t) (reads_ofParameters n ps (t.addLocal x) h)
  | .mk _ x (some default) :: ps, t, h => by
    obtain ⟨hdefault, hps⟩ := Bool.and_eq_true_iff.mp h
    exact .cons (reads_ofExpr n default t hdefault) (reads_ofParameters n ps _ hps)

/-- Of the body of a function the tracker reads the free names, if declarations lead it. -/
theorem reads_ofBody (n : String) :
    ∀ (b : Block) (t : Tracker), Leading.inBody b = true →
      ReadsBody n (Free.inBlock n b) t (ofBlock t b)
  | .mk _ ss, t, h => reads_ofBodyStmts n ss t h

theorem reads_ofBodyStmts (n : String) :
    ∀ (ss : List Stmt) (t : Tracker), Leading.inBodyStmts ss = true →
      ReadsBody n (Free.inStmts n ss) t (ofStmts t ss)
  | [], t, _ => (Reads.refl n t).body
  | s :: ss, t, h => by
    rcases Leading.inBodyStmts_cons h with ⟨span, names, rfl, hss⟩ | ⟨hs, hss⟩
    · exact .declareGlobal (reads_ofBodyStmts n ss _ hss)
    · exact ((reads_ofStmt n s t hs).cons (reads_ofStmts n ss _ hss)).body

/-- Of a block the tracker reads the free names, if nothing is declared in it. -/
theorem reads_ofBlock (n : String) :
    ∀ (b : Block) (t : Tracker), Leading.inBlock false b = true →
      Reads n (Free.inBlock n b) t (ofBlock t b)
  | .mk _ ss, t, h => reads_ofStmts n ss t h

/-- Outside function literals there are no declarations here, so that names stay open. -/
theorem reads_ofStmt (n : String) :
    ∀ (s : Stmt) (t : Tracker), Leading.inStmt false s = true →
      Reads n (Free.inStmt n s) t (ofStmt t s)
  | .assignVariable _ _ x value, t, h =>
    (reads_ofExpr n value t h).trans (reads_write n x _)
  | .assignElement _ _ target key value, t, h => by
    obtain ⟨h, hkey⟩ := Bool.and_eq_true_iff.mp h
    obtain ⟨hvalue, htarget⟩ := Bool.and_eq_true_iff.mp h
    exact ((reads_ofExpr n value t hvalue).trans (reads_ofExpr n target _ htarget)).trans
      (reads_ofExpr n key _ hkey)
  | .call _ _ callee arguments, t, h => by
    obtain ⟨hcallee, harguments⟩ := Bool.and_eq_true_iff.mp h
    exact (reads_ofExpr n callee t hcallee).trans (reads_ofExprs n arguments _ harguments)
  | .ret _ value, t, h => reads_ofExpr n value t h
  -- A declaration is excluded here: the leading ones are dealt with where the body starts.
  | .declareGlobal _ _, _, h => by cases h
  | .branch _ condition body otherwise, t, h => by
    obtain ⟨h, hotherwise⟩ := Bool.and_eq_true_iff.mp h
    obtain ⟨hcondition, hbody⟩ := Bool.and_eq_true_iff.mp h
    exact ((reads_ofExpr n condition t hcondition).trans (reads_ofBlock n body _ hbody)).trans
      (reads_ofOtherwise n otherwise _ hotherwise)
  | .loop _ condition body, t, h => by
    obtain ⟨hcondition, hbody⟩ := Bool.and_eq_true_iff.mp h
    exact (reads_ofExpr n condition t hcondition).trans (reads_ofBlock n body _ hbody)
  | .each _ source none value body, t, h => by
    obtain ⟨hsource, hbody⟩ := Bool.and_eq_true_iff.mp h
    exact ((reads_ofExpr n source t hsource).trans (reads_write n value _)).trans
      (reads_ofBlock n body _ hbody)
  | .each _ source (some key) value body, t, h => by
    obtain ⟨hsource, hbody⟩ := Bool.and_eq_true_iff.mp h
    exact (((reads_ofExpr n source t hsource).trans (reads_write n key _)).trans
      (reads_write n value _)).trans (reads_ofBlock n body _ hbody)

theorem reads_ofStmts (n : String) :
    ∀ (ss : List Stmt) (t : Tracker), Leading.inStmts false ss = true →
      Reads n (Free.inStmts n ss) t (ofStmts t ss)
  | [], t, _ => .refl n t
  | s :: ss, t, h => by
    obtain ⟨hs, hss⟩ := Bool.and_eq_true_iff.mp h
    exact (reads_ofStmt n s t hs).cons (reads_ofStmts n ss _ hss)

theorem reads_ofOtherwise (n : String) :
    ∀ (o : Otherwise) (t : Tracker), Leading.inOtherwise false o = true →
      Reads n (Free.inOtherwise n o) t (ofOtherwise t o)
  | .nothing, t, _ => .refl n t
  | .block b, t, h => reads_ofBlock n b t h
  | .branch _ condition body otherwise, t, h => by
    obtain ⟨h, hotherwise⟩ := Bool.and_eq_true_iff.mp h
    obtain ⟨hcondition, hbody⟩ := Bool.and_eq_true_iff.mp h
    exact ((reads_ofExpr n condition t hcondition).trans (reads_ofBlock n body _ hbody)).trans
      (reads_ofOtherwise n otherwise _ hotherwise)

end

/-- **Capture analysis finds the free names**: a name that is free in a function literal, bound
around it and not declared global there is among the names that the literal captures. -/
theorem mem_upvalues_ofFunction {n : String} {parameters : List Parameter} {body : Block}
    {outer globals : List String} (hparameters : Leading.inParameters parameters = true)
    (hbody : Leading.inBody body = true) (hfree : Free.inFunction n parameters body = true)
    (houter : n ∈ outer) (hglobals : n ∉ globals) :
    n ∈ (ofFunction parameters body outer globals).upvalues := by
  have hopen : (Tracker.enclosing outer globals).child.Open n := by
    refine ⟨Names.mem_union.mpr (.inr (Names.mem_ofList.mpr houter)), fun hn => ?_,
      List.not_mem_nil⟩
    exact hglobals (Names.mem_ofList.mp hn)
  exact mem_upvalues_of_free (reads_ofParameters n parameters _ hparameters)
    (reads_ofBody n body _ hbody) hopen hfree

/-! ### What is global does not depend on what is bound around -/

/-- Reading declares nothing. -/
theorem globals_read (t : Tracker) (x : String) : (t.read x).globals = t.globals := by
  unfold Tracker.read
  split
  · rfl
  · split <;> rfl

/-- Writing declares nothing. -/
theorem globals_write (t : Tracker) (x : String) : (t.write x).globals = t.globals := by
  unfold Tracker.write
  split
  · rfl
  · split <;> rfl

mutual

/-- Expressions declare nothing; what is global inside a function literal stays inside. -/
theorem globals_ofExpr : ∀ (e : Expr) (t : Tracker), (ofExpr t e).globals = t.globals
  | .number _ _ _, _ | .string _ _, _ | .boolean _ _, _ => rfl
  | .name _ x, t => globals_read t x
  | .lookup _ target key, t => (globals_ofExpr key _).trans (globals_ofExpr target t)
  | .binary _ _ left right, t => (globals_ofExpr right _).trans (globals_ofExpr left t)
  | .unary _ _ operand, t => globals_ofExpr operand t
  | .array _ elements, t => globals_ofExprs elements t
  | .dictionary _ entries, t => globals_ofEntries entries t
  | .function _ _ _, t => (Tracker.endScope_names t _).1
  | .call _ callee arguments, t => (globals_ofExprs arguments _).trans (globals_ofExpr callee t)

theorem globals_ofExprs : ∀ (es : List Expr) (t : Tracker), (ofExprs t es).globals = t.globals
  | [], _ => rfl
  | e :: es, t => (globals_ofExprs es _).trans (globals_ofExpr e t)

theorem globals_ofEntries : ∀ (es : List Entry) (t : Tracker), (ofEntries t es).globals = t.globals
  | [], _ => rfl
  | .mk key value :: es, t =>
    (globals_ofEntries es _).trans ((globals_ofExpr value _).trans (globals_ofExpr key t))

end

theorem globals_ofParameters :
    ∀ (ps : List Parameter) (t : Tracker), (ofParameters t ps).globals = t.globals
  | [], _ => rfl
  | .mk _ x none :: ps, t => globals_ofParameters ps (t.addLocal x)
  | .mk _ x (some default) :: ps, t =>
    (globals_ofParameters ps ((ofExpr t default).addLocal x)).trans (globals_ofExpr default t)

theorem globals_addGlobals {t t' : Tracker} (h : t.globals = t'.globals) (names : List String) :
    (names.foldl Tracker.addGlobal t).globals = (names.foldl Tracker.addGlobal t').globals := by
  induction names generalizing t t' with
  | nil => exact h
  | cons x names ih => exact ih (congrArg (Names.add · x) h)

mutual

/-- What is declared in a block is global whatever else the tracker has seen. -/
theorem globals_ofBlock :
    ∀ (b : Block) {t t' : Tracker}, t.globals = t'.globals →
      (ofBlock t b).globals = (ofBlock t' b).globals
  | .mk _ ss, _, _, h => globals_ofStmts ss h

theorem globals_ofStmt :
    ∀ (s : Stmt) {t t' : Tracker}, t.globals = t'.globals →
      (ofStmt t s).globals = (ofStmt t' s).globals
  | .assignVariable _ _ x value, t, t', h => by
    simp only [ofStmt, globals_write, globals_ofExpr, h]
  | .assignElement _ _ target key value, t, t', h => by simp only [ofStmt, globals_ofExpr, h]
  | .call _ _ callee arguments, t, t', h => by
    simp only [ofStmt, globals_ofExprs, globals_ofExpr, h]
  | .ret _ value, t, t', h => by simp only [ofStmt, globals_ofExpr, h]
  | .declareGlobal _ names, _, _, h => globals_addGlobals h names
  | .branch _ condition body otherwise, t, t', h =>
    globals_ofOtherwise otherwise (globals_ofBlock body (by simp only [globals_ofExpr, h]))
  | .loop _ condition body, t, t', h => globals_ofBlock body (by simp only [globals_ofExpr, h])
  | .each _ source none value body, t, t', h =>
    globals_ofBlock body (by simp only [globals_write, globals_ofExpr, h])
  | .each _ source (some key) value body, t, t', h =>
    globals_ofBlock body (by simp only [globals_write, globals_ofExpr, h])

theorem globals_ofStmts :
    ∀ (ss : List Stmt) {t t' : Tracker}, t.globals = t'.globals →
      (ofStmts t ss).globals = (ofStmts t' ss).globals
  | [], _, _, h => h
  | s :: ss, _, _, h => globals_ofStmts ss (globals_ofStmt s h)

theorem globals_ofOtherwise :
    ∀ (o : Otherwise) {t t' : Tracker}, t.globals = t'.globals →
      (ofOtherwise t o).globals = (ofOtherwise t' o).globals
  | .nothing, _, _, h => h
  | .block b, _, _, h => globals_ofBlock b h
  | .branch _ condition body otherwise, t, t', h =>
    globals_ofOtherwise otherwise (globals_ofBlock body (by simp only [globals_ofExpr, h]))

end

/-- What is global in a function literal depends on its declarations and on what is global around
it, and not on what is bound around it. -/
theorem globals_ofFunction_eq (parameters : List Parameter) (body : Block)
    (outer outer' globals : List String) :
    (ofFunction parameters body outer globals).globals =
      (ofFunction parameters body outer' globals).globals :=
  globals_ofBlock body (by rw [globals_ofParameters, globals_ofParameters]; rfl)

end Capture

end DecimalScript
