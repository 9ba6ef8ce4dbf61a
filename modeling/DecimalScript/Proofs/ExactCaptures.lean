import DecimalScript.Proofs.SoundSituations

/-!
# Captures are exactly the free names

Capture analysis keeps a tracker that changes with every name it reads, makes a new one for every
function literal inside, and merges what that one captured. For a name that the code declares
nowhere, all of this comes to a definition that does not depend on the order of reading.

- `Assigned.inBlock`, ...: whether a name is assigned, or is the variable of a loop, outside function
  literals.
- `Tracker.Settles`: what reading code does to one name, as a function of whether the name is free in
  the code and whether it is assigned there.
- `mem_upvalues_ofFunction_iff`, `mem_locals_ofFunction_iff`: the captured names are the free ones that
  are bound around the literal and not global there, and the local ones are the parameters and what
  is assigned without being bound or global around it.
- `Machine.ownCell?_closure_iff`: so a closure starts with exactly the cells of these names.
-/

namespace DecimalScript

/-! ### Names that are assigned -/

namespace Assigned

mutual

/-- Whether a name is assigned in a block. -/
def inBlock (name : String) : Block → Bool
  | .mk _ statements => inStmts name statements

/-- Whether a name is assigned in a statement, or is a variable of a loop there. -/
def inStmt (name : String) : Stmt → Bool
  | .assignVariable _ _ n _ => n == name
  | .assignElement _ _ _ _ _ | .call _ _ _ _ | .ret _ _ | .declareGlobal _ _ => false
  | .branch _ _ body otherwise => inBlock name body || inOtherwise name otherwise
  | .loop _ _ body => inBlock name body
  | .each _ _ none value body => value == name || inBlock name body
  | .each _ _ (some key) value body => (key == name || value == name) || inBlock name body

/-- Whether a name is assigned in one of several statements. -/
def inStmts (name : String) : List Stmt → Bool
  | [] => false
  | s :: ss => inStmt name s || inStmts name ss

/-- Whether a name is assigned in what follows the block of a conditional. -/
def inOtherwise (name : String) : Otherwise → Bool
  | .nothing => false
  | .block block => inBlock name block
  | .branch _ _ body otherwise => inBlock name body || inOtherwise name otherwise

end

end Assigned

/-! ### What reading code does to a name -/

namespace Tracker

/-- Reading code from `t` to `t'`, in which the name `n` is free if `free` is set and assigned if
`assigned` is: it becomes local if it is assigned and neither visible from outside nor global, and
it is captured if it is free and open. -/
structure Settles (n : String) (free assigned : Bool) (t t' : Tracker) : Prop where
  outer : n ∈ t'.outer ↔ n ∈ t.outer
  globals : n ∈ t'.globals ↔ n ∈ t.globals
  locals : n ∈ t'.locals ↔
    n ∈ t.locals ∨ assigned = true ∧ n ∉ t.outer ∧ n ∉ t.globals
  upvalues : n ∈ t'.upvalues ↔ n ∈ t.upvalues ∨ free = true ∧ t.Open n

variable {n : String} {t t' t'' : Tracker} {free free' assigned assigned' : Bool}

/-- A name that is visible from outside becomes local nowhere, so it stays open. -/
theorem Settles.open_iff (h : Settles n free assigned t t') : t'.Open n ↔ t.Open n := by
  unfold Open
  rw [h.outer, h.globals, h.locals]
  tauto

theorem Settles.refl (n : String) (t : Tracker) : Settles n false false t t := by
  constructor <;> simp

theorem Settles.trans (h : Settles n free assigned t t') (h' : Settles n free' assigned' t' t'') :
    Settles n (free || free') (assigned || assigned') t t'' where
  outer := h'.outer.trans h.outer
  globals := h'.globals.trans h.globals
  locals := by
    rw [h'.locals, h.locals, h.outer, h.globals, Bool.or_eq_true]
    tauto
  upvalues := by
    rw [h'.upvalues, h.upvalues, h.open_iff, Bool.or_eq_true]
    tauto

/-- Names that are global or local already need nothing. -/
theorem settles_known {x : String} (hx : (t.globals.contains x || t.locals.contains x) = true)
    (assigned : Bool) (hassigned : assigned = true → x = n) : Settles n (x == n) assigned t t := by
  simp only [Bool.or_eq_true, List.contains_iff_mem] at hx
  have hopen : x = n → ¬ t.Open n := by
    rintro rfl ⟨-, hglobals, hlocals⟩
    exact hx.elim hglobals hlocals
  refine ⟨Iff.rfl, Iff.rfl, ?_, ?_⟩
  · refine (or_iff_left_of_imp ?_).symm
    rintro ⟨hn, -, hglobals⟩
    rw [hassigned hn] at hx
    exact hx.resolve_left hglobals
  · refine (or_iff_left_of_imp ?_).symm
    rintro ⟨hn, hopen'⟩
    exact absurd hopen' (hopen (beq_iff_eq.mp hn))

/-- Names that are visible from outside are captured. -/
theorem settles_capture {x : String}
    (hx : ¬ (t.globals.contains x || t.locals.contains x) = true) (houter : t.outer.contains x = true)
    (assigned : Bool) (hassigned : assigned = true → x = n) :
    Settles n (x == n) assigned t (t.capture x) := by
  simp only [Bool.or_eq_true, List.contains_iff_mem, not_or] at hx houter
  refine ⟨Iff.rfl, Iff.rfl, ?_, ?_⟩
  · refine (or_iff_left_of_imp ?_).symm
    rintro ⟨hn, hvisible, -⟩
    -- A name that is assigned here and visible outside is captured, so it never becomes local.
    rw [hassigned hn] at houter
    exact absurd houter hvisible
  · rw [mem_upvalues_capture, or_comm]
    refine or_congr_right ?_
    constructor
    · rintro rfl
      exact ⟨beq_self_eq_true n, houter, hx.1, hx.2⟩
    · rintro ⟨hn, -⟩
      exact (beq_iff_eq.mp hn).symm

theorem not_open_of_not_outer {x : String} (houter : ¬ t.outer.contains x = true) :
    ¬ ((x == n) = true ∧ t.Open n) := by
  rintro ⟨hn, hvisible, -⟩
  rw [← beq_iff_eq.mp hn, ← List.contains_iff_mem] at hvisible
  exact houter hvisible

/-- Reading settles a name by capturing it, if it is open, and binds nothing. -/
theorem settles_read (n x : String) (t : Tracker) : Settles n (x == n) false t (t.read x) := by
  unfold read
  split
  · exact settles_known ‹_› false (by simp)
  · split
    · exact settles_capture ‹_› ‹_› false (by simp)
    · refine ⟨Iff.rfl, Iff.rfl, by simp, ?_⟩
      exact (or_iff_left (not_open_of_not_outer ‹_›)).symm

/-- Writing settles a name by capturing it, if it is open, and by binding it otherwise. -/
theorem settles_write (n x : String) (t : Tracker) :
    Settles n (x == n) (x == n) t (t.write x) := by
  unfold write
  split
  · exact settles_known ‹_› _ beq_iff_eq.mp
  · split
    · exact settles_capture ‹_› ‹_› _ beq_iff_eq.mp
    · rename_i hx houter
      refine ⟨Iff.rfl, Iff.rfl, ?_, (or_iff_left (not_open_of_not_outer houter)).symm⟩
      simp only [Bool.or_eq_true, List.contains_iff_mem, not_or] at hx houter
      show n ∈ t.locals.add x ↔ _
      rw [Names.mem_add, or_comm]
      refine or_congr_right ?_
      constructor
      -- The name is neither known nor visible outside, so writing it makes it local.
      · rintro rfl
        exact ⟨beq_self_eq_true n, houter, hx.1⟩
      · rintro ⟨hn, -⟩
        exact (beq_iff_eq.mp hn).symm

/-- Declaring other names global settles nothing about a name. -/
theorem settles_addGlobals {names : List String} (hn : n ∉ names) (t : Tracker) :
    Settles n false false t (names.foldl addGlobal t) := by
  obtain ⟨houter, hlocals, hupvalues⟩ := addGlobals_names names t
  refine ⟨by rw [houter], ?_, by simp [hlocals], by simp [hupvalues]⟩
  rw [mem_globals_addGlobals]
  exact or_iff_left hn

/-! ### Function literals -/

/-- Reading parameters from `t` to `t'`: they become local, and a name that is free in a default is
captured if it is open. -/
structure SettlesParameters (n : String) (ps : List Parameter) (t t' : Tracker) : Prop where
  outer : n ∈ t'.outer ↔ n ∈ t.outer
  globals : n ∈ t'.globals ↔ n ∈ t.globals
  locals : n ∈ t'.locals ↔ n ∈ t.locals ∨ Free.bound n ps = true
  upvalues : n ∈ t'.upvalues ↔ n ∈ t.upvalues ∨ Free.inParameters n ps = true ∧ t.Open n

theorem SettlesParameters.nil (n : String) (t : Tracker) : SettlesParameters n [] t t := by
  constructor <;> simp [Free.bound, Free.inParameters]

/-- Binding a parameter closes its own name and no other. -/
theorem open_addLocal_iff {x : String} : (t.addLocal x).Open n ↔ t.Open n ∧ x ≠ n := by
  unfold Open
  show n ∈ t.outer ∧ n ∉ t.globals ∧ n ∉ t.locals.add x ↔ _
  rw [Names.mem_add]
  tauto

/-- A default is read before its parameter is bound, and the other parameters behind it. -/
theorem SettlesParameters.cons {span : Span} {x : String} {default : Option Expr}
    {ps : List Parameter} (h : Settles n (Free.inDefault n default) false t t')
    (h' : SettlesParameters n ps (t'.addLocal x) t'') :
    SettlesParameters n (.mk span x default :: ps) t t'' where
  outer := h'.outer.trans h.outer
  globals := h'.globals.trans h.globals
  locals := by
    have hbound : Free.bound n (.mk span x default :: ps) = (x == n || Free.bound n ps) := rfl
    rw [h'.locals, hbound, Bool.or_eq_true, beq_iff_eq]
    show n ∈ t'.locals.add x ∨ _ ↔ _
    rw [Names.mem_add, h.locals, eq_comm]
    tauto
  upvalues := by
    have hfree : Free.inParameters n (.mk span x default :: ps) =
        (Free.inDefault n default || (x != n && Free.inParameters n ps)) := rfl
    rw [h'.upvalues, open_addLocal_iff, h.open_iff, hfree, Bool.or_eq_true, Bool.and_eq_true,
      bne_iff_ne]
    show n ∈ t'.upvalues ∨ _ ↔ _
    rw [h.upvalues]
    tauto

/-- What parameters and body of a literal do together: a name is captured if it is free in the
literal and open around it. -/
theorem SettlesParameters.mem_upvalues_body {ps : List Parameter} {body : Block}
    (hps : SettlesParameters n ps t t') (hbody : Settles n (Free.inBlock n body) assigned t' t'') :
    n ∈ t''.upvalues ↔ n ∈ t.upvalues ∨ Free.inFunction n ps body = true ∧ t.Open n := by
  have hopen : t'.Open n ↔ t.Open n ∧ Free.bound n ps = false := by
    unfold Open
    rw [hps.outer, hps.globals, hps.locals, ← Bool.not_eq_true]
    tauto
  rw [hbody.upvalues, hps.upvalues, hopen, Free.inFunction, Bool.or_eq_true, Bool.and_eq_true,
    Bool.not_eq_true']
  tauto

/-- A literal inside settles a name that is free in it. What is local around the literal is visible
in it, but is not captured around it. -/
theorem settles_endScope {inner : Tracker}
    (h : n ∈ inner.upvalues ↔ n ∈ t.child.upvalues ∨ free = true ∧ t.child.Open n) :
    Settles n free false t (t.endScope inner) := by
  obtain ⟨hglobals, houter, hlocals⟩ := endScope_names t inner
  refine ⟨by rw [houter], by rw [hglobals], by simp [hlocals], ?_⟩
  have hchild : t.child.Open n ↔ (n ∈ t.outer ∨ n ∈ t.locals) ∧ n ∉ t.globals := by
    unfold Open child
    rw [Names.mem_union]
    simp
  have hnone : n ∉ t.child.upvalues := List.not_mem_nil
  rw [mem_upvalues_endScope, h, hchild]
  unfold Open
  tauto

end Tracker

/-! ### The analysis -/

/-- Without declarations, a name is free in statements if it is free in one of them. -/
theorem Free.inStmts_cons_of_undeclared {n : String} {s : Stmt} {ss : List Stmt}
    (h : DeclaresWithin.inStmt n s = false) :
    Free.inStmts n (s :: ss) = (Free.inStmt n s || Free.inStmts n ss) := by
  have hdeclares : Free.declares n s = false := by
    cases s with
    | declareGlobal span names => exact h
    | _ => rfl
  show (Free.inStmt n s || (!Free.declares n s && Free.inStmts n ss)) = _
  rw [hdeclares]
  rfl

namespace Capture

open Tracker

mutual

/-- Reading an expression settles a name that is declared nowhere in it. -/
theorem settles_ofExpr (n : String) :
    ∀ (e : Expr) (t : Tracker), DeclaresWithin.inExpr n e = false →
      Settles n (Free.inExpr n e) false t (ofExpr t e)
  | .number _ _ _, t, _ | .string _ _, t, _ | .boolean _ _, t, _ => .refl n t
  | .name _ x, t, _ => settles_read n x t
  | .lookup _ target key, t, h => by
    obtain ⟨htarget, hkey⟩ := Bool.or_eq_false_iff.mp h
    exact (settles_ofExpr n target t htarget).trans (settles_ofExpr n key _ hkey)
  | .binary _ _ left right, t, h => by
    obtain ⟨hleft, hright⟩ := Bool.or_eq_false_iff.mp h
    exact (settles_ofExpr n left t hleft).trans (settles_ofExpr n right _ hright)
  | .unary _ _ operand, t, h => settles_ofExpr n operand t h
  | .array _ elements, t, h => settles_ofExprs n elements t h
  | .dictionary _ entries, t, h => settles_ofEntries n entries t h
  | .function _ parameters body, t, h => by
    -- A function literal is walked by a child tracker; only its upvalues come back to this one.
    obtain ⟨hparameters, hbody⟩ := Bool.or_eq_false_iff.mp h
    exact settles_endScope ((settles_ofParameters n parameters t.child hparameters).mem_upvalues_body
      (settles_ofBlock n body _ hbody))
  | .call _ callee arguments, t, h => by
    obtain ⟨hcallee, harguments⟩ := Bool.or_eq_false_iff.mp h
    exact (settles_ofExpr n callee t hcallee).trans (settles_ofExprs n arguments _ harguments)

theorem settles_ofExprs (n : String) :
    ∀ (es : List Expr) (t : Tracker), DeclaresWithin.inExprs n es = false →
      Settles n (Free.inExprs n es) false t (ofExprs t es)
  | [], t, _ => .refl n t
  | e :: es, t, h => by
    obtain ⟨he, hes⟩ := Bool.or_eq_false_iff.mp h
    exact (settles_ofExpr n e t he).trans (settles_ofExprs n es _ hes)

theorem settles_ofEntries (n : String) :
    ∀ (es : List Entry) (t : Tracker), DeclaresWithin.inEntries n es = false →
      Settles n (Free.inEntries n es) false t (ofEntries t es)
  | [], t, _ => .refl n t
  | .mk key value :: es, t, h => by
    obtain ⟨hentry, hes⟩ := Bool.or_eq_false_iff.mp h
    obtain ⟨hkey, hvalue⟩ := Bool.or_eq_false_iff.mp hentry
    exact ((settles_ofExpr n key t hkey).trans (settles_ofExpr n value _ hvalue)).trans
      (settles_ofEntries n es _ hes)

theorem settles_ofParameters (n : String) :
    ∀ (ps : List Parameter) (t : Tracker), DeclaresWithin.inParameters n ps = false →
      SettlesParameters n ps t (ofParameters t ps)
  | [], t, _ => .nil n t
  | .mk _ x none :: ps, t, h => .cons (.refl n t) (settles_ofParameters n ps (t.addLocal x) h)
  | .mk _ x (some default) :: ps, t, h => by
    obtain ⟨hdefault, hps⟩ := Bool.or_eq_false_iff.mp h
    exact .cons (settles_ofExpr n default t hdefault) (settles_ofParameters n ps _ hps)

/-- A block settles a name by its free and its assigned occurrences, if the name is not declared in
it. -/
theorem settles_ofBlock (n : String) :
    ∀ (b : Block) (t : Tracker), DeclaresWithin.inBlock n b = false →
      Settles n (Free.inBlock n b) (Assigned.inBlock n b) t (ofBlock t b)
  | .mk _ ss, t, h => settles_ofStmts n ss t h

/-- A statement settles a name by its free and its assigned occurrences. -/
theorem settles_ofStmt (n : String) :
    ∀ (s : Stmt) (t : Tracker), DeclaresWithin.inStmt n s = false →
      Settles n (Free.inStmt n s) (Assigned.inStmt n s) t (ofStmt t s)
  | .assignVariable _ _ x value, t, h =>
    -- The value is walked before the name is written, in the order in which they are evaluated.
    (settles_ofExpr n value t h).trans (settles_write n x _)
  | .assignElement _ _ target key value, t, h => by
    obtain ⟨h, hkey⟩ := Bool.or_eq_false_iff.mp h
    obtain ⟨hvalue, htarget⟩ := Bool.or_eq_false_iff.mp h
    exact ((settles_ofExpr n value t hvalue).trans (settles_ofExpr n target _ htarget)).trans
      (settles_ofExpr n key _ hkey)
  | .call _ _ callee arguments, t, h => by
    obtain ⟨hcallee, harguments⟩ := Bool.or_eq_false_iff.mp h
    exact (settles_ofExpr n callee t hcallee).trans (settles_ofExprs n arguments _ harguments)
  | .ret _ value, t, h => settles_ofExpr n value t h
  | .declareGlobal _ names, t, h =>
    settles_addGlobals (by simpa [DeclaresWithin.inStmt] using h) t
  | .branch _ condition body otherwise, t, h => by
    obtain ⟨h, hotherwise⟩ := Bool.or_eq_false_iff.mp h
    obtain ⟨hcondition, hbody⟩ := Bool.or_eq_false_iff.mp h
    exact ((settles_ofExpr n condition t hcondition).trans (settles_ofBlock n body _ hbody)).trans
      (settles_ofOtherwise n otherwise _ hotherwise)
  | .loop _ condition body, t, h => by
    obtain ⟨hcondition, hbody⟩ := Bool.or_eq_false_iff.mp h
    exact (settles_ofExpr n condition t hcondition).trans (settles_ofBlock n body _ hbody)
  | .each _ source none value body, t, h => by
    obtain ⟨hsource, hbody⟩ := Bool.or_eq_false_iff.mp h
    exact ((settles_ofExpr n source t hsource).trans (settles_write n value _)).trans
      (settles_ofBlock n body _ hbody)
  | .each _ source (some key) value body, t, h => by
    obtain ⟨hsource, hbody⟩ := Bool.or_eq_false_iff.mp h
    exact (((settles_ofExpr n source t hsource).trans (settles_write n key _)).trans
      (settles_write n value _)).trans (settles_ofBlock n body _ hbody)

theorem settles_ofStmts (n : String) :
    ∀ (ss : List Stmt) (t : Tracker), DeclaresWithin.inStmts n ss = false →
      Settles n (Free.inStmts n ss) (Assigned.inStmts n ss) t (ofStmts t ss)
  | [], t, _ => .refl n t
  | s :: ss, t, h => by
    obtain ⟨hs, hss⟩ := Bool.or_eq_false_iff.mp h
    rw [Free.inStmts_cons_of_undeclared hs]
    exact (settles_ofStmt n s t hs).trans (settles_ofStmts n ss _ hss)

theorem settles_ofOtherwise (n : String) :
    ∀ (o : Otherwise) (t : Tracker), DeclaresWithin.inOtherwise n o = false →
      Settles n (Free.inOtherwise n o) (Assigned.inOtherwise n o) t (ofOtherwise t o)
  | .nothing, t, _ => .refl n t
  | .block b, t, h => settles_ofBlock n b t h
  | .branch _ condition body otherwise, t, h => by
    obtain ⟨h, hotherwise⟩ := Bool.or_eq_false_iff.mp h
    obtain ⟨hcondition, hbody⟩ := Bool.or_eq_false_iff.mp h
    exact ((settles_ofExpr n condition t hcondition).trans (settles_ofBlock n body _ hbody)).trans
      (settles_ofOtherwise n otherwise _ hotherwise)

end

section Function

variable {n : String} {parameters : List Parameter} {body : Block}
  (h : DeclaresWithin.inFunction n parameters body = false) (outer globals : List String)

include h

/-- **A literal captures exactly its free names**, of those that are bound and not global around it.
-/
theorem mem_upvalues_ofFunction_iff :
    n ∈ (ofFunction parameters body outer globals).upvalues ↔
      (n ∈ outer ∧ n ∉ globals) ∧ Free.inFunction n parameters body = true := by
  obtain ⟨hparameters, hbody⟩ := Bool.or_eq_false_iff.mp h
  have hopen : (enclosing outer globals).child.Open n ↔ n ∈ outer ∧ n ∉ globals := by
    unfold Open child enclosing
    rw [Names.mem_union, Names.mem_ofList, Names.mem_ofList]
    simp
  have hnone : n ∉ (enclosing outer globals).child.upvalues := List.not_mem_nil
  rw [ofFunction, (settles_ofParameters n parameters _ hparameters).mem_upvalues_body
    (settles_ofBlock n body _ hbody), hopen, or_iff_right hnone]
  exact and_comm

/-- The local names of a literal are its parameters, and what its body assigns without seeing it
from outside. -/
theorem mem_locals_ofFunction_iff :
    n ∈ (ofFunction parameters body outer globals).locals ↔
      Free.bound n parameters = true ∨
        Assigned.inBlock n body = true ∧ n ∉ outer ∧ n ∉ globals := by
  obtain ⟨hparameters, hbody⟩ := Bool.or_eq_false_iff.mp h
  have hps := settles_ofParameters n parameters (enclosing outer globals).child hparameters
  have houter : n ∈ (enclosing outer globals).child.outer ↔ n ∈ outer := by
    unfold child enclosing
    rw [Names.mem_union, Names.mem_ofList]
    simp
  have hglobals : n ∈ (enclosing outer globals).child.globals ↔ n ∈ globals := Names.mem_ofList
  have hnone : n ∉ (enclosing outer globals).child.locals := List.not_mem_nil
  rw [ofFunction, (settles_ofBlock n body _ hbody).locals, hps.locals, hps.outer, hps.globals,
    houter, hglobals, or_iff_right hnone]

/-- Where nothing is declared, a literal inherits what is global. -/
theorem mem_globals_ofFunction_iff :
    n ∈ (ofFunction parameters body outer globals).globals ↔ n ∈ globals := by
  obtain ⟨-, hbody⟩ := Bool.or_eq_false_iff.mp h
  rw [mem_globals_ofFunction]
  refine or_iff_left fun hdeclares => ?_
  rw [DeclaresWithin.declares_inBlock hdeclares] at hbody
  cases hbody

end Function

end Capture

/-! ### Closures -/

/-- The new table for a closure binds the captured names of the table around it, as there. -/
theorem ownCell?_capture {env : Env} {t : TableRef} (hlocal : env.isGlobal t = false)
    (upvalues : Names) (n : String) :
    (Step.capture env t upvalues .used).2.ownCell? (Step.capture env t upvalues .used).1 n =
      if n ∈ upvalues then env.ownCell? t n else none := by
  obtain ⟨bindings, hcapture, hcaptured, hdropped⟩ := exists_capture env t upvalues .used
  rw [hcapture, Env.ownCell?_addTable]
  refine (if_pos rfl).trans ?_
  split
  · exact hcaptured n hlocal fun _ => ‹_›
  · exact hdropped n fun h => ‹n ∉ upvalues› (h.2 rfl)

/-- Inside a call the names that can be captured are those of the table of the call. -/
theorem literalScope_of_local {m : Machine} (hlocal : m.env.isGlobal m.frame.table = false)
    (parameters : List Parameter) (body : Block) :
    Step.literalScope m parameters body =
      Capture.ofFunction parameters body (m.env.names m.frame.table) m.frame.globalNames := by
  unfold Step.literalScope
  dsimp only
  rw [hlocal]
  rfl

/-- In a call, a closure starts with the cells of exactly the names that are bound in the table of
the call, free in the literal and not global for the frame. -/
theorem Machine.ownCell?_closure_iff {m : Machine} (hlocal : m.env.isGlobal m.frame.table = false)
    {parameters : List Parameter} {body : Block} {n : String}
    (h : DeclaresWithin.inFunction n parameters body = false) (x : CellRef) :
    let made := Step.capture m.env m.frame.table (Step.literalScope m parameters body).upvalues .used
    made.2.ownCell? made.1 n = some x ↔
      m.env.ownCell? m.frame.table n = some x ∧ Free.inFunction n parameters body = true ∧
        n ∉ m.frame.globalNames := by
  intro made
  have hupvalues : n ∈ (Step.literalScope m parameters body).upvalues ↔
      (n ∈ m.env.names m.frame.table ∧ n ∉ m.frame.globalNames) ∧
        Free.inFunction n parameters body = true := by
    -- Inside a function the literal's scope starts from the frame's own names; at the top level it
    -- would start from none.
    rw [literalScope_of_local hlocal]
    exact Capture.mem_upvalues_ofFunction_iff h _ _
  show (Step.capture _ _ _ _).2.ownCell? (Step.capture _ _ _ _).1 n = some x ↔ _
  rw [ownCell?_capture hlocal]
  constructor
  · intro hx
    split at hx
    · rename_i hn
      obtain ⟨⟨-, hglobal⟩, hfree⟩ := hupvalues.mp hn
      exact ⟨hx, hfree, hglobal⟩
    · cases hx
  · rintro ⟨hx, hfree, hglobal⟩
    rw [if_pos (hupvalues.mpr ⟨⟨Env.mem_names_of_ownCell? hx, hglobal⟩, hfree⟩)]
    exact hx

/-- In a call, the table of the active frame is not the global one. -/
theorem Situation.Sound.isGlobal_eq_false {c : Situation} (h : c.Sound)
    (hcalls : c.machine.calls ≠ []) :
    c.machine.env.isGlobal c.machine.frame.table = false := by
  obtain ⟨m, calls⟩ := c
  cases calls with
  | nil => exact absurd (List.forall₂_nil_right_iff.mp h.frames) hcalls
  | cons a rest =>
    obtain ⟨_, _, hframe, _⟩ := h.active
    exact h.env.isGlobal_eq_false hframe.table_lt hframe.table_ne

/-- **Capture analysis computes exactly the free variables.** In a function literal without
declarations, whatever is bound and global around it: the captured names are the free ones that are
bound and not global, the local names are the parameters and what the body assigns and is neither
bound nor global around it, and the global names are those around it. So wherever a literal is
evaluated in a call, its closure starts with exactly the cells of the names that are bound in the
table of the call, free in the literal and not global for the frame. -/
theorem captures_are_exactly_free_names {parameters : List Parameter} {body : Block}
    (h : ∀ n, DeclaresWithin.inFunction n parameters body = false) :
    (∀ (outer globals : List String) (n : String),
      (n ∈ (Capture.ofFunction parameters body outer globals).upvalues ↔
        (n ∈ outer ∧ n ∉ globals) ∧ Free.inFunction n parameters body = true) ∧
      (n ∈ (Capture.ofFunction parameters body outer globals).locals ↔
        Free.bound n parameters = true ∨
          Assigned.inBlock n body = true ∧ n ∉ outer ∧ n ∉ globals) ∧
      (n ∈ (Capture.ofFunction parameters body outer globals).globals ↔ n ∈ globals)) ∧
    ∀ (config : Config) (registry : Registry) (arrays : Array (Array Value))
      (dictionaries : Array Dictionary) (limits : Limits) (script : Code) (k : Machine),
      Session.Reaches limits script (Session.start config registry { arrays, dictionaries }) k →
      k.calls ≠ [] →
      let made := Step.capture k.env k.frame.table (Step.literalScope k parameters body).upvalues .used
      ∀ n x, made.2.ownCell? made.1 n = some x ↔
        k.env.ownCell? k.frame.table n = some x ∧ Free.inFunction n parameters body = true ∧
          n ∉ k.frame.globalNames := by
  constructor
  · intro outer globals n
    exact ⟨Capture.mem_upvalues_ofFunction_iff (h n) outer globals,
      Capture.mem_locals_ofFunction_iff (h n) outer globals,
      Capture.mem_globals_ofFunction_iff (h n) outer globals⟩
  · intro config registry arrays dictionaries limits script k hk hcalls made n x
    obtain ⟨calls, hsituation⟩ :=
      hk.situation (Session.sound_start config registry arrays dictionaries).calls_eq_nil
    have hsound := Session.sound_of_reachable hsituation
    exact Machine.ownCell?_closure_iff (hsound.isGlobal_eq_false hcalls) (h n) x

/-- The literal `function(y = x) { z = y; }` in the body of a function with the parameter `x`. -/
theorem captures_are_exactly_free_names_in_body :
    let span : Span := ⟨none, .start, .start⟩
    let l : Literal :=
      ⟨[.mk span "x" none], .mk span [.assignVariable span span "y" (.name span "x")]⟩
    let start := Session.start { loadBuiltins := false } .standard
    let m := ((Session.Request.evaluateStmt
      (.assignVariable span span "f" (.function span l.parameters l.body))).perform {} 1
        start).machine
    let f := start.functionOf (some "f") l
    let k := (m.called f "f" 1).define ⟨m.env.tables.size⟩ "x" (some (.boolean true))
    let inner : Literal :=
      ⟨[.mk span "y" (some (.name span "x"))],
        .mk span [.assignVariable span span "z" (.name span "y")]⟩
    let made := Step.capture k.env k.frame.table
      (Step.literalScope k inner.parameters inner.body).upvalues .used
    (∀ n, DeclaresWithin.inFunction n inner.parameters inner.body = false) ∧
      Session.Reaches {} .any start k ∧ k.calls ≠ [] ∧
      made.2.ownCell? made.1 "x" = some ⟨1⟩ := by
  intro span l start m f k inner made
  have hm : Session.Idle {} .any start m :=
    .request .start (.evaluateStmt _) (Session.Request.within_any _) 1
  have hk : Session.Reaches {} .any start k :=
    hm.reaches_body ⟨0⟩ [.boolean true] (f := f) rfl (by decide) (by decide) (fun _ => rfl) rfl
  have hcalls : k.calls ≠ [] := List.cons_ne_nil _ _
  have hundeclared : ∀ n, DeclaresWithin.inFunction n inner.parameters inner.body = false :=
    fun _ => rfl
  have hclosure := (captures_are_exactly_free_names hundeclared).2 { loadBuiltins := false } .standard
    #[] #[] {} .any k hk hcalls "x" ⟨1⟩
  have hcell : k.env.ownCell? k.frame.table "x" = some ⟨1⟩ := by decide +kernel
  have hglobal : "x" ∉ k.frame.globalNames := by decide +kernel
  exact ⟨hundeclared, hk, hcalls, hclosure.mpr ⟨hcell, by decide +kernel, hglobal⟩⟩

end DecimalScript
