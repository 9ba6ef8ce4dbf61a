import DecimalScript.Machine.Session
import DecimalScript.Proofs.Stability
import DecimalScript.Proofs.Tables

/-!
# Capturing what is used is as good as capturing everything

Two machines run one program. The first makes closures of the names that capture analysis finds, the
second of every name bound around a function literal. The second therefore has tables that bind more
names; all the rest, cells and heap and frames and output, is the same.

- `UserFunction.Sealed`: both machines see the same cells under the names that are free in a
  function. This is what capture analysis is for, and what every call relies on.
- `Machine.Alike`: the invariant between the two machines.
- `Eval.Sim t N N'`: from machines alike that run in a table `t` and agree there on the names `N`, two
  evaluations end in the same way; where they succeed the machines are alike, and agree on `N'`.
- `capture_used_eq_everything`: both ways to capture give the same outcome.

## Why the machines never part

A name that is looked up in a closure of the first machine is free in the code of its function, or
bound by the function itself. In the first case `Sealed` gives the same cell on both sides, or none;
in the second case both bind it in the table of the call. A name that only the second closure binds
is therefore never asked for, by code, by a function literal inside, or by a declaration.

The condition on declarations cannot be dropped. Capture analysis takes a declaration into account
from where it stands in the text, also if that is in a branch which is not executed. A name left out
for this reason is looked up in the global table by the first machine, and in the cell around the
literal by the second one.
-/

namespace DecimalScript

open Eval

/-! ### The invariant -/

/-- Two environments give a function the same cells: they agree in its closure on the names that are
free in it. -/
structure UserFunction.Sealed (env env' : Env) (f : UserFunction) : Prop where
  closure : f.closure.index < env.tables.size
  parameters : Leading.inParameters f.parameters = true
  body : Leading.inBlock true f.body = true
  agree : ∀ n, Free.inFunction n f.parameters f.body = true → env.Agree env' f.closure n

/-- A function stays sealed: later cells and tables do not change what its own ones hold. -/
theorem UserFunction.Sealed.grows {env env' later later' : Env} {f : UserFunction}
    (h : f.Sealed env env') (hgrows : Env.Grows env env' later later') : f.Sealed later later' where
  closure := Nat.lt_of_lt_of_le h.closure hgrows.size
  parameters := h.parameters
  body := h.body
  agree := fun n hn => hgrows.agree f.closure n h.closure (h.agree n hn)

namespace Machine

/-- Two machines that differ at most in their logs and in what their tables bind, and that agree on
the names that the functions of the heap use. -/
structure Alike (m m' : Machine) : Prop where
  env : m.env.Twins m'.env
  heap : m.heap = m'.heap
  root : m.root = m'.root
  calls : m.calls = m'.calls
  output : m.output = m'.output
  tables : ∀ t ∈ m.frames.map Frame.table, t.index < m.env.tables.size
  functions : ∀ f, Function.user f ∈ m.heap.functions → f.Sealed m.env m'.env

/-- Two machines that are alike, run in the table `t`, and agree there on the names `N`. -/
structure AlikeIn (t : TableRef) (N : String → Prop) (m m' : Machine) : Prop extends
    Alike m m' where
  table : m.frame.table = t
  agree : ∀ n, N n → m.env.Agree m'.env t n

/-- Two machines have gone on to later ones, in the same frames. -/
structure Follow (m m' later later' : Machine) : Prop where
  grows : Env.Grows m.env m'.env later.env later'.env
  tables : later.frames.map Frame.table = m.frames.map Frame.table

variable {m m' later later' : Machine} {t : TableRef} {N N' : String → Prop}

theorem Follow.refl (m m' : Machine) : Follow m m' m m' :=
  ⟨.refl _ _, rfl⟩

theorem Follow.trans {last last' : Machine} (h : Follow m m' later later')
    (h' : Follow later later' last last') : Follow m m' last last' :=
  ⟨h.grows.trans h'.grows, h'.tables.trans h.tables⟩

theorem Alike.frame (h : Alike m m') : m.frame = m'.frame := by
  rw [Machine.frame, Machine.frame, h.calls, h.root]

theorem AlikeIn.index_lt (h : AlikeIn t N m m') : t.index < m.env.tables.size := by
  refine h.tables t ?_
  rw [frames_eq_cons, List.map_cons, h.table]
  exact List.mem_cons_self

/-- A name on which the machines agree has one value. -/
theorem AlikeIn.lookup?_eq (h : AlikeIn t N m m') {name : String} (hname : N name) :
    m.lookup? name = m'.lookup? name := by
  rw [Machine.lookup?, Machine.lookup?, ← h.toAlike.frame, h.table]
  exact h.env.get?_eq (h.agree name hname)

theorem AlikeIn.mono (h : AlikeIn t N m m') (hN : ∀ n, N' n → N n) : AlikeIn t N' m m' :=
  { h with agree := fun n hn => h.agree n (hN n hn) }

/-- Tables and names on which machines agree stay the same while they go on. -/
theorem AlikeIn.follow (h : AlikeIn t N m m') (hfollow : Follow m m' later later')
    (halike : Alike later later') : AlikeIn t N later later' := by
  have htables := hfollow.tables
  rw [frames_eq_cons, frames_eq_cons m, List.map_cons, List.map_cons, h.table] at htables
  exact
    { halike with
      table := (List.cons.inj htables).1
      agree := fun n hn => hfollow.grows.agree t n h.index_lt (h.agree n hn) }

/-- Both machines have gone on from machines that were alike to machines that are alike again. -/
structure Reach (t : TableRef) (N : String → Prop) (m m' later later' : Machine) : Prop where
  alike : AlikeIn t N later later'
  follow : Follow m m' later later'

theorem Reach.mono (h : Reach t N m m' later later') (hN : ∀ n, N' n → N n) :
    Reach t N' m m' later later' :=
  ⟨h.alike.mono hN, h.follow⟩

theorem Reach.trans {last last' : Machine} (h : Reach t N m m' later later')
    (h' : Reach t N' later later' last last') : Reach t N' m m' last last' :=
  ⟨h'.alike, h.follow.trans h'.follow⟩

theorem AlikeIn.refl_reach (h : AlikeIn t N m m') : Reach t N m m' m m' :=
  ⟨h, .refl m m'⟩

/-- New environments that are twins keep machines alike. -/
theorem Alike.withEnv (h : Alike m m') {env env' : Env} (hsteps : m.env.Steps m'.env env env') :
    Alike { m with env } { m' with env := env' } where
  env := hsteps.twins
  heap := h.heap
  root := h.root
  calls := h.calls
  output := h.output
  tables := fun t ht => Nat.lt_of_lt_of_le (h.tables t ht) hsteps.grows.size
  functions := fun f hf => (h.functions f hf).grows hsteps.grows

theorem AlikeIn.withEnv (h : AlikeIn t N m m') {env env' : Env}
    (hsteps : m.env.Steps m'.env env env') :
    Reach t N m m' { m with env } { m' with env := env' } := by
  have hfollow : Follow m m' { m with env } { m' with env := env' } := ⟨hsteps.grows, rfl⟩
  exact ⟨h.follow hfollow (h.toAlike.withEnv hsteps), hfollow⟩

/-- What is on record is nothing that a script can see, so it may differ. -/
theorem AlikeIn.record (h : AlikeIn t N m m') (event event' : LogEvent) :
    Reach t N m m' (m.record event) (m'.record event') :=
  ⟨{ h with }, ⟨.refl _ _, rfl⟩⟩

/-- The same change of containers on both sides. -/
theorem AlikeIn.withHeap (h : AlikeIn t N m m') {heap heap' : Heap} (hheap : heap = heap')
    (hfunctions : heap.functions = m.heap.functions) :
    Reach t N m m' { m with heap } { m' with heap := heap' } :=
  ⟨{ h with heap := hheap, functions := fun f hf => h.functions f (hfunctions ▸ hf) },
    ⟨.refl _ _, rfl⟩⟩

theorem AlikeIn.withOutput (h : AlikeIn t N m m') {output output' : String}
    (houtput : output = output') : Reach t N m m' { m with output } { m' with output := output' } :=
  ⟨{ h with output := houtput }, ⟨.refl _ _, rfl⟩⟩

/-- Effects of built-in functions are on the heap and the output, which are the same. -/
theorem AlikeIn.perform (h : AlikeIn t N m m') (effect : Effect) :
    Reach t N m m' (m.perform effect) (m'.perform effect) := by
  have hheap := h.withHeap (congrArg effect.heapAfter h.heap) (by cases effect <;> rfl)
  exact hheap.trans (hheap.alike.withOutput (congrArg (· ++ effect.printed) h.output))

/-- The same change of the active frame on both sides, which leaves it its table. -/
theorem AlikeIn.modifyFrame (h : AlikeIn t N m m') {f : Frame → Frame}
    (hf : ∀ frame, (f frame).table = frame.table) :
    Reach t N m m' (m.modifyFrame f) (m'.modifyFrame f) := by
  have htables : (m.modifyFrame f).frames.map Frame.table = m.frames.map Frame.table := by
    rw [frames_eq_cons, frame_modifyFrame, waiting_modifyFrame, frames_eq_cons m, List.map_cons,
      List.map_cons, hf]
    rfl
  have halike : Alike (m.modifyFrame f) (m'.modifyFrame f) := by
    have hin : ∀ t ∈ (m.modifyFrame f).frames.map Frame.table, t.index < m.env.tables.size := by
      rw [htables]
      exact h.tables
    unfold Machine.modifyFrame at hin ⊢
    rw [← h.calls]
    cases hcalls : m.calls with
    | nil =>
      rw [hcalls] at hin
      exact { h.toAlike with root := congrArg f h.root, tables := hin, calls := rfl }
    | cons frame frames =>
      rw [hcalls] at hin
      exact { h.toAlike with calls := rfl, tables := hin }
  have henv : ∀ k : Machine, (k.modifyFrame f).env = k.env := by
    intro k
    unfold Machine.modifyFrame
    split <;> rfl
  have hfollow : Follow m m' (m.modifyFrame f) (m'.modifyFrame f) := by
    refine ⟨?_, htables⟩
    rw [henv, henv]
    exact .refl _ _
  exact ⟨h.follow hfollow halike, hfollow⟩

end Machine

open Machine

/-! ### Evaluations that go alike -/

/-- Two outcomes of the same form: the same value on machines that `P` relates, or the same failure,
or both out of budget, with the same output. -/
inductive Outcome.Alike {α : Type} (P : Machine → Machine → Prop) : Outcome α → Outcome α → Prop
  | done {a : α} {later later' : Machine} (h : P later later') :
    Alike P (.done a later) (.done a later')
  | failed {failure : Failure} {later later' : Machine} (h : later.output = later'.output) :
    Alike P (.failed failure later) (.failed failure later')
  | exhausted {later later' : Machine} (h : later.output = later'.output) :
    Alike P (.exhausted later) (.exhausted later')

theorem Outcome.Alike.mono {α : Type} {P Q : Machine → Machine → Prop} {o o' : Outcome α}
    (h : ∀ later later', P later later' → Q later later') (ho : Alike P o o') : Alike Q o o' := by
  cases ho with
  | done hP => exact .done (h _ _ hP)
  | failed houtput => exact .failed houtput
  | exhausted houtput => exact .exhausted houtput

namespace Eval

/-- From machines that are alike, run in `t` and agree there on `N`, both evaluations end in the
same way, and machines that they reach agree on `N'`. -/
def Sim {α : Type} (t : TableRef) (N N' : String → Prop) (x x' : Eval α) : Prop :=
  ∀ m m', AlikeIn t N m m' → Outcome.Alike (Reach t N' m m') (x m) (x' m')

variable {α β : Type} {t : TableRef} {N N₁ N' : String → Prop}

theorem Sim.mono {x x' : Eval α} (h : Sim t N N₁ x x') (hN : ∀ n, N' n → N₁ n) :
    Sim t N N' x x' :=
  fun m m' hm => (h m m' hm).mono fun _ _ hreach => hreach.mono hN

theorem Sim.pure (a : α) : Sim t N N (pure a : Eval α) (pure a) :=
  fun _ _ hm => .done hm.refl_reach

/-- The first evaluation may add names on which the tables agree, and the second one may use them.
-/
theorem Sim.bind {x x' : Eval α} {f f' : α → Eval β} (hx : Sim t N N₁ x x')
    (hf : ∀ a, Sim t N₁ N' (f a) (f' a)) : Sim t N N' (x >>= f) (x' >>= f') := by
  intro m m' hm
  have hstart := hx m m' hm
  rw [bind_apply, bind_apply]
  generalize x m = o, x' m' = o' at hstart ⊢
  cases hstart with
  | done hreach => exact (hf _ _ _ hreach.alike).mono fun _ _ hrest => hreach.trans hrest
  | failed houtput => exact .failed houtput
  | exhausted houtput => exact .exhausted houtput

theorem Sim.map {x x' : Eval α} (f : α → β) (hx : Sim t N N' x x') :
    Sim t N N' (f <$> x) (f <$> x') :=
  .bind hx fun a => .pure (f a)

theorem Sim.fail (fault : RuntimeFault) (span : Span) :
    Sim t N N' (fail fault span : Eval α) (fail fault span) :=
  fun _ _ hm => .failed hm.output

theorem Sim.exhaust : Sim t N N' (exhaust : Eval α) exhaust :=
  fun _ _ hm => .exhausted hm.output

theorem Sim.ofExcept (span : Span) :
    ∀ x : Except RuntimeFault α, Sim t N N (ofExcept span x) (ofExcept span x)
  | .ok a => .pure a
  | .error fault => .fail fault span

theorem Sim.ite {p : Prop} [Decidable p] {x x' y y' : Eval α} (hx : Sim t N N' x x')
    (hy : Sim t N N' y y') : Sim t N N' (if p then x else y) (if p then x' else y') := by
  split
  · exact hx
  · exact hy

/-- Going alike is shown of changes to the machine by what they reach. -/
theorem Sim.update {f f' : Machine → Machine}
    (h : ∀ m m', AlikeIn t N m m' → Reach t N' m m' (f m) (f' m')) :
    Sim t N N' (update f) (update f') :=
  fun m m' hm => .done (h m m' hm)

/-- What an evaluation reads off the machine is the same on both sides where it is part of the heap
or of the frames. -/
theorem Sim.machine {f f' : Machine → Eval β}
    (h : ∀ m m', Machine.Alike m m' → Sim t N N' (f m) (f' m')) :
    Sim t N N' (machine >>= f) (machine >>= f') :=
  fun m m' hm => h m m' hm.toAlike m m' hm

theorem Sim.pending : Sim t N N pending pending := by
  intro m m' hm
  unfold Eval.pending
  rw [← hm.toAlike.frame]
  exact .done hm.refl_reach

/-! ### Repetition -/

/-- The rounds of a loop go alike if each one does. -/
theorem Sim.forEach {body body' : α → Eval (Option Value)}
    (h : ∀ a, Sim t N N (body a) (body' a)) :
    ∀ as last, Sim t N N (forEach body last as) (forEach body' last as)
  | [], last => .pure last
  | a :: as, _ => by
    refine .bind (h a) fun result => .bind .pending fun p => ?_
    cases p with
    | some _ => exact .pure result
    | none => exact Sim.forEach h as result

/-- A loop goes alike for every budget if its test and its body do. -/
theorem Sim.whileTrue {test test' : Eval Bool} {body body' : Eval (Option Value)}
    (htest : Sim t N N test test') (hbody : Sim t N N body body') :
    ∀ budget last, Sim t N N (whileTrue test body budget last) (whileTrue test' body' budget last)
  | 0, _ => .exhaust
  | budget + 1, last => by
    refine .bind htest fun holds => .ite ?_ (.pure last)
    refine .bind hbody fun result => .bind .pending fun p => ?_
    cases p with
    | some _ => exact .pure result
    | none => exact Sim.whileTrue htest hbody budget result

end Eval

/-! ### Making functions -/

namespace Machine

variable {m m' : Machine} {t u : TableRef} {N : String → Prop}

/-- Importing a global cell makes the tables agree on its name, whatever each had there. -/
theorem AlikeIn.importGlobal (h : AlikeIn t N m m') (hu : u.index < m.env.tables.size)
    (hlocal : u ≠ globalTable) (name : String) :
    Reach t N m m' (m.importGlobal u name) (m'.importGlobal u name) ∧
      (m.importGlobal u name).env.Agree (m'.importGlobal u name).env u name := by
  have hglobal : m.env.isGlobal u = false := by
    rw [Bool.eq_false_iff]
    exact fun hg => hlocal ((h.env.isGlobal u hu).mp hg)
  obtain ⟨hsteps, hagree⟩ := h.env.importGlobal hu hglobal name
  exact ⟨h.withEnv hsteps, hagree⟩

/-- Importing several global cells makes the tables agree on all of their names. -/
theorem AlikeIn.importGlobals (hlocal : u ≠ globalTable) :
    ∀ (names : Names) {m m' : Machine}, AlikeIn t N m m' → u.index < m.env.tables.size →
      Reach t N m m' (names.foldl (fun m n => m.importGlobal u n) m)
          (names.foldl (fun m n => m.importGlobal u n) m') ∧
        ∀ n ∈ names, (names.foldl (fun m n => m.importGlobal u n) m).env.Agree
          (names.foldl (fun m n => m.importGlobal u n) m').env u n
  | [], _, _, h, _ => ⟨h.refl_reach, fun _ hn => by cases hn⟩
  | name :: names, m, m', h, hu => by
    obtain ⟨hreach, hagree⟩ := h.importGlobal hu hlocal name
    have hu' := Nat.lt_of_lt_of_le hu hreach.follow.grows.size
    obtain ⟨hrest, hnames⟩ := importGlobals hlocal names hreach.alike hu'
    refine ⟨hreach.trans hrest, fun n hn => ?_⟩
    rcases List.mem_cons.mp hn with rfl | hn
    · exact hrest.follow.grows.agree u n hu' hagree
    · exact hnames n hn

/-- The same sealed function on both sides. -/
theorem AlikeIn.addFunction (h : AlikeIn t N m m') {f : UserFunction}
    (hf : f.Sealed m.env m'.env) :
    Outcome.Alike (Reach t N m m')
      (.done (m.heap.addFunction (.user f)).1
        { m with heap := (m.heap.addFunction (.user f)).2 })
      (.done (m'.heap.addFunction (.user f)).1
        { m' with heap := (m'.heap.addFunction (.user f)).2 }) := by
  rw [← h.heap]
  refine .done ⟨{ h with heap := rfl, functions := fun g hg => ?_ }, ⟨.refl _ _, rfl⟩⟩
  rcases Array.mem_push.mp hg with hg | hg
  · exact h.functions g hg
  · cases hg
    exact hf

end Machine

/-- Making a function of closures that agree on its free names, except for those that are imported
anyway. -/
theorem alike_closeFunction {t : TableRef} {N : String → Prop} {m m' : Machine}
    (hm : AlikeIn t N m m') (name : Option String) {parameters : List Parameter} {body : Block}
    (hparameters : Leading.inParameters parameters = true)
    (hbody : Leading.inBlock true body = true) {scope scope' : Tracker}
    (hglobals : scope.globals = scope'.globals) {closure closure' : TableRef}
    (hsame : closure = closure') (hin : closure.index < m.env.tables.size)
    (hlocal : closure ≠ globalTable)
    (hfree : ∀ n, Free.inFunction n parameters body = true → n ∉ m.frame.globalNames →
      m.env.Agree m'.env closure n) :
    Outcome.Alike (Reach t N m m') (Step.closeFunction name parameters body scope closure m)
      (Step.closeFunction name parameters body scope' closure' m') := by
  subst hsame
  obtain ⟨himport, hnames⟩ := AlikeIn.importGlobals hlocal m.frame.globalNames hm hin
  have hrecord := himport.trans (himport.alike.record
    (.closureMade name scope.upvalues scope.globals)
    (.closureMade name scope'.upvalues scope.globals))
  have hsealed : UserFunction.Sealed
      (m.frame.globalNames.foldl (fun m n => m.importGlobal closure n) m).env
      (m.frame.globalNames.foldl (fun m n => m.importGlobal closure n) m').env
      { name, parameters, body, closure, globalNames := scope.globals } :=
    { closure := Nat.lt_of_lt_of_le hin himport.follow.grows.size
      parameters := hparameters
      body := hbody
      agree := fun n hn => by
        by_cases hglobal : n ∈ m.frame.globalNames
        · exact hnames n hglobal
        · exact himport.follow.grows.agree closure n hin (hfree n hn hglobal) }
  unfold Step.closeFunction
  rw [← hm.toAlike.frame, ← hglobals]
  exact (hrecord.alike.addFunction hsealed).mono fun _ _ hreach => hrecord.trans hreach

/-- Evaluating a function literal: the tables that are captured differ, and agree on the names that
are free in the literal. -/
theorem sim_makeFunction {limits limits' : Limits} (hused : limits.capture = .used)
    (hall : limits'.capture = .everything) {t : TableRef} {N : String → Prop} (name : Option String)
    (span : Span) {parameters : List Parameter} {body : Block}
    (hparameters : Leading.inParameters parameters = true) (hbody : Leading.inBody body = true)
    (hfree : ∀ n, Free.inFunction n parameters body = true → N n) :
    Sim t N N (Step.makeFunction limits name span parameters body)
      (Step.makeFunction limits' name span parameters body) := by
  intro m m' hm
  have hbody' : Leading.inBlock true body = true := by
    cases body
    exact Leading.inStmts_of_inBodyStmts hbody
  have hframe := hm.toAlike.frame
  have hrecord := hm.record (.captureAnalysis span (Step.literalScope m parameters body))
    (.captureAnalysis span (Step.literalScope m' parameters body))
  have hglobals : (Step.literalScope m parameters body).globals =
      (Step.literalScope m' parameters body).globals := by
    unfold Step.literalScope
    rw [← hframe]
    exact Capture.globals_ofFunction_eq _ _ _ _ _
  -- The names that the analysis may forget are those not bound around the literal.
  have hcaptured : ∀ n, Free.inFunction n parameters body = true → n ∉ m.frame.globalNames →
      m.env.isGlobal t = false → n ∈ m.env.names t →
      n ∈ (Step.literalScope m parameters body).upvalues := by
    intro n hn hglobal hlocal hbound
    refine Capture.mem_upvalues_ofFunction hparameters hbody hn ?_ hglobal
    rw [hm.table, hlocal]
    exact hbound
  have hagree : ∀ n, Free.inFunction n parameters body = true → n ∉ m.frame.globalNames →
      (Step.capture m.env t (Step.literalScope m parameters body).upvalues .used).2.Agree
        (Step.capture m'.env t (Step.literalScope m' parameters body).upvalues .everything).2
        (Step.capture m.env t (Step.literalScope m parameters body).upvalues .used).1 n :=
    fun n hn hglobal => hm.env.agree_addTable
      (hm.env.cell?_chosen (hm.agree n (hfree n hn)) (hcaptured n hn hglobal))
  obtain ⟨hsame, hsteps⟩ := hrecord.alike.env.addTable
    ((m.env.inherited t).filter fun b =>
      (Step.literalScope m parameters body).upvalues.contains b.1) (m'.env.inherited t)
  have hreach := hrecord.trans (hrecord.alike.withEnv hsteps)
  have hclose := alike_closeFunction hreach.alike name hparameters hbody' hglobals hsame
    (Env.Twins.addTable_index_lt _ _) (hm.env.addTable_ne_global _) hagree
  unfold Step.makeFunction
  rw [hused, hall]
  dsimp only
  have hleft : ∀ event, (m.record event).frame.table = t := fun _ => hm.table
  have hright : ∀ event, (m'.record event).frame.table = t := fun _ => hframe ▸ hm.table
  rw [hleft, hright]
  exact hclose.mono fun _ _ hlater => hreach.trans hlater

/-! ### Calls -/

/-- Expressions go alike on every table that agrees on their free names. -/
def ExprsAlike (eval eval' : Expr → Eval Value) : Prop :=
  ∀ (t : TableRef) (N : String → Prop) (e : Expr), Leading.inExpr e = true →
    (∀ n, Free.inExpr n e = true → N n) → Sim t N N (eval e) (eval' e)

/-- Statement lists go alike on every table that agrees on their free names. -/
def BodiesAlike (run run' : List Stmt → Eval (Option Value)) : Prop :=
  ∀ (t : TableRef) (N : String → Prop) (ss : List Stmt), Leading.inStmts true ss = true →
    (∀ n, Free.inStmts n ss = true → N n) → Sim t N N (run ss) (run' ss)

/-- Statements go alike on every table that agrees on their free names. Behind a declaration the
tables also agree on what it declares. -/
def StmtsAlike (exec exec' : Stmt → Eval (Option Value)) : Prop :=
  ∀ (t : TableRef) (N : String → Prop) (s : Stmt), Leading.inStmt true s = true →
    (∀ n, Free.inStmt n s = true → N n) →
    Sim t N (fun n => N n ∨ Free.declares n s = true) (exec s) (exec' s)

/-- Names that are free in one of two parts. -/
theorem forall_of_or {p q : String → Bool} {N : String → Prop}
    (h : ∀ n, (p n || q n) = true → N n) :
    (∀ n, p n = true → N n) ∧ ∀ n, q n = true → N n :=
  ⟨fun n hn => h n (Bool.or_eq_true_iff.mpr (.inl hn)),
    fun n hn => h n (Bool.or_eq_true_iff.mpr (.inr hn))⟩

section Calls

variable {eval eval' : Expr → Eval Value} {run run' : List Stmt → Eval (Option Value)}
  {t u : TableRef} {N : String → Prop}

/-- A name is bound to fresh cells in both machines, so the tables agree on it from then on. -/
theorem sim_define (name : String) (value : Option Value) :
    Sim t N (fun n => N n ∨ n = name) (update (·.define t name value))
      (update (·.define t name value)) := by
  refine .update fun m m' hm => ?_
  obtain ⟨-, hsteps, hagree⟩ := hm.env.define t name value
  have hreach := hm.withEnv hsteps
  refine ⟨{ hreach.alike with agree := ?_ }, hreach.follow⟩
  rintro n (hn | rfl)
  · exact hreach.alike.agree n hn
  · exact hagree hm.index_lt

/-- Defaults are evaluated in the table of the call, which agrees on the parameters in front. -/
theorem sim_defaultValue (heval : ExprsAlike eval eval') (p : Parameter)
    (hlead : Leading.inDefault p.default = true)
    (hfree : ∀ n, Free.inDefault n p.default = true → N n) :
    Sim t N N (Step.defaultValue eval p) (Step.defaultValue eval' p) := by
  unfold Step.defaultValue
  cases hdefault : p.default with
  | none => exact .pure none
  | some e =>
    rw [hdefault] at hlead hfree
    exact .map some (heval t N e hlead hfree)

/-- Once parameters are bound, the tables agree on them too. -/
theorem sim_bindParameters (heval : ExprsAlike eval eval') :
    ∀ (ps : List Parameter) (args : List Value) (N : String → Prop),
      Leading.inParameters ps = true → (∀ n, Free.inParameters n ps = true → N n) →
      Sim t N (fun n => N n ∨ Free.bound n ps = true) (Step.bindParameters eval t ps args)
        (Step.bindParameters eval' t ps args)
  | [], _, N, _, _ => Sim.mono (.pure ()) fun n hn => by simpa [Free.bound] using hn
  | .mk span x default :: ps, args, N, hlead, hfree => by
    obtain ⟨hdefault, hps⟩ := Bool.and_eq_true_iff.mp hlead
    obtain ⟨hfreeDefault, hfreeRest⟩ := forall_of_or hfree
    have hrest : ∀ args, Sim t (fun n => N n ∨ n = x)
        (fun n => N n ∨ Free.bound n (.mk span x default :: ps) = true)
        (Step.bindParameters eval t ps args) (Step.bindParameters eval' t ps args) := by
      intro args
      refine (sim_bindParameters heval ps args _ hps fun n hn => ?_).mono fun n hn => ?_
      · by_cases hx : n = x
        · exact .inr hx
        · refine .inl (hfreeRest n ?_)
          simp [hn, Ne.symm hx]
      · rcases hn with hn | hn
        · exact .inl (.inl hn)
        · rcases Bool.or_eq_true_iff.mp hn with hx | hn
          · exact .inl (.inr (beq_iff_eq.mp hx).symm)
          · exact .inr hn
    cases args with
    | nil =>
      refine .bind (sim_defaultValue heval (.mk span x default) hdefault hfreeDefault) fun v => ?_
      exact .bind (sim_define x v) fun _ => hrest []
    | cons a args => exact .bind (sim_define x (some a)) fun _ => hrest args

/-- A frame of its own on both sides, for a table of which nothing was known before: behind it the
callers' table agrees on what it agreed on. -/
theorem alike_inFrame {α : Type} {m m' : Machine} {M M' : String → Prop} {x x' : Eval α}
    {frame : Frame} (hm : AlikeIn t N m m') (hin : frame.table.index < m.env.tables.size)
    (hagree : ∀ n, M n → m.env.Agree m'.env frame.table n) (hx : Sim frame.table M M' x x') :
    Outcome.Alike (Reach t N m m') (inFrame frame x m) (inFrame frame x' m') := by
  have henter : AlikeIn frame.table M (m.enter frame) (m'.enter frame) :=
    { hm.toAlike with
      calls := congrArg (frame :: ·) hm.calls
      tables := fun t ht => by
        rcases List.mem_cons.mp ht with rfl | ht
        · exact hin
        · exact hm.tables t ht
      table := rfl
      agree := hagree }
  have hend := hx _ _ henter
  unfold Eval.inFrame
  change Outcome.Alike _ (Outcome.mapMachine Machine.leave (x (m.enter frame)))
    (Outcome.mapMachine Machine.leave (x' (m'.enter frame)))
  generalize x (m.enter frame) = o, x' (m'.enter frame) = o' at hend ⊢
  cases hend with
  | failed houtput => exact .failed houtput
  | exhausted houtput => exact .exhausted houtput
  | @done a later later' hreach =>
    have htables : later.leave.frames.map Frame.table = m.frames.map Frame.table := by
      have hstack : later.frames.map Frame.table = frame.table :: m.frames.map Frame.table :=
        hreach.follow.tables
      cases hcalls : later.calls with
      | nil =>
        rw [Machine.frames, hcalls, frames_eq_cons m] at hstack
        cases (List.cons.inj hstack).2
      | cons top calls =>
        rw [Machine.frames, hcalls] at hstack
        rw [Machine.frames, Machine.leave, hcalls]
        exact (List.cons.inj hstack).2
    have hfollow : Follow m m' later.leave later'.leave := ⟨hreach.follow.grows, htables⟩
    have halike : Machine.Alike later.leave later'.leave :=
      { hreach.alike.toAlike with
        calls := congrArg List.tail hreach.alike.calls
        tables := fun u hu => by
          rw [htables] at hu
          exact Nat.lt_of_lt_of_le (hm.tables u hu) hreach.follow.grows.size }
    exact .done ⟨hm.follow hfollow halike, hfollow⟩

/-- A call runs in a table that agrees on the free names of the function. -/
theorem alike_runCall (heval : ExprsAlike eval eval') (hrun : BodiesAlike run run')
    {m m' : Machine} (hm : AlikeIn t N m m') {f : UserFunction} (hf : f.Sealed m.env m'.env)
    (hin : u.index < m.env.tables.size)
    (hagree : ∀ n, Free.inFunction n f.parameters f.body = true → m.env.Agree m'.env u n)
    (label : String) (args : List Value) :
    Outcome.Alike (Reach t N m m') (Step.runCall eval run f u label args m)
      (Step.runCall eval' run' f u label args m') := by
  have hbody : Leading.inStmts true f.body.statements = true := by
    have hlead := hf.body
    cases hblock : f.body
    rw [hblock] at hlead
    exact hlead
  have hx : Sim u (fun n => Free.inFunction n f.parameters f.body = true)
      (fun n => Free.inFunction n f.parameters f.body = true ∨ Free.bound n f.parameters = true)
      (do Step.bindParameters eval u f.parameters args; run f.body.statements)
      (do Step.bindParameters eval' u f.parameters args; run' f.body.statements) := by
    refine .bind (sim_bindParameters heval f.parameters args _ hf.parameters fun n hn => ?_)
      fun _ => hrun u _ f.body.statements hbody fun n hn => ?_
    · exact Bool.or_eq_true_iff.mpr (.inl hn)
    -- A free name of the body is a parameter, or free in the whole function and then captured.
    · cases hbound : Free.bound n f.parameters with
      | true => exact .inr rfl
      | false =>
        refine .inl (Bool.or_eq_true_iff.mpr (.inr ?_))
        rw [hbound, Free.inBlock_eq]
        exact hn
  exact alike_inFrame hm hin hagree hx

/-- A call goes alike if the function is sealed: its body uses no name on which its tables differ.
-/
theorem alike_callUser {limits limits' : Limits} (hdepth : limits.maxCallDepth = limits'.maxCallDepth)
    (heval : ExprsAlike eval eval') (hrun : BodiesAlike run run') {m m' : Machine}
    (hm : AlikeIn t N m m') {f : UserFunction} (hf : f.Sealed m.env m'.env) (label : String)
    (args : List Value) (span : Span) :
    Outcome.Alike (Reach t N m m') (Step.callUser limits eval run f label args span m)
      (Step.callUser limits' eval' run' f label args span m') := by
  unfold Step.callUser
  by_cases hcount : f.parameters.length < args.length
  · rw [if_pos hcount, if_pos hcount]
    exact .failed hm.output
  rw [if_neg hcount, if_neg hcount]
  obtain ⟨hnew, hsteps⟩ := hm.env.addTable (m.env.inherited f.closure) (m'.env.inherited f.closure)
  have hsame : (m.env.addChild globalTable f.closure).1 =
      (m'.env.addChild globalTable f.closure).1 := hnew
  have hcalls : m.depth = m'.depth := congrArg List.length hm.calls
  have htable := hm.withEnv hsteps
  have hrecord := htable.trans (htable.alike.record (.call label args.length (m.depth + 1))
    (.call label args.length (m.depth + 1)))
  -- The table of the call starts with what the closure has, on which the two closures agree.
  have hagree : ∀ n, Free.inFunction n f.parameters f.body = true →
      (m.withCallTable f.closure).env.Agree (m'.withCallTable f.closure).env
        (m.env.addChild globalTable f.closure).1 n :=
    fun n hn => hm.env.agree_addTable (hm.env.cell?_inherited (hf.agree n hn))
  change Outcome.Alike _
    ((if limits.maxCallDepth ≤ m.depth then fail (.callDepth limits.maxCallDepth) span
      else Step.runCall eval run f (m.env.addChild globalTable f.closure).1 label args)
      ((m.withCallTable f.closure).record (.call label args.length (m.depth + 1))))
    ((if limits'.maxCallDepth ≤ m'.depth then fail (.callDepth limits'.maxCallDepth) span
      else Step.runCall eval' run' f (m'.env.addChild globalTable f.closure).1 label args)
      ((m'.withCallTable f.closure).record (.call label args.length (m'.depth + 1))))
  rw [← hdepth, ← hcalls, ← hsame]
  by_cases hdeep : limits.maxCallDepth ≤ m.depth
  · rw [if_pos hdeep, if_pos hdeep]
    exact .failed hm.output
  rw [if_neg hdeep, if_neg hdeep]
  have hcall := alike_runCall heval hrun hrecord.alike (hf.grows hsteps.grows)
    (Env.Twins.addTable_index_lt _ _) hagree label args
  exact hcall.mono fun _ _ hlater => hrecord.trans hlater

/-- Built-in functions see the heap and the arguments only. -/
theorem sim_callNative (maxDigits : Nat) (f : NativeFunction) (label : String) (args : List Value)
    (span : Span) :
    Sim t N N (Step.callNative maxDigits f label args span)
      (Step.callNative maxDigits f label args span) := by
  refine .bind (.update fun m m' hm => hm.record _ _) fun _ m m' hm => ?_
  rw [f.run_eq_effect, f.run_eq_effect, ← hm.heap]
  unfold Effect.outcome
  rw [← hm.heap]
  cases f.effect maxDigits m.heap args with
  | error fault => exact .failed hm.output
  | ok effect => exact .done (hm.perform effect)

/-- A call goes alike whatever value is called. -/
theorem sim_callValue {limits limits' : Limits}
    (hdepth : limits.maxCallDepth = limits'.maxCallDepth)
    (hdigits : limits.maxDigits = limits'.maxDigits) (heval : ExprsAlike eval eval')
    (hrun : BodiesAlike run run') (callee : Value) (args : List Value) (span : Span) (name : Option String) :
    Sim t N N (Step.callValue limits eval run callee args span name)
      (Step.callValue limits' eval' run' callee args span name) := by
  cases callee with
  | function ref =>
    intro m m' hm
    unfold Step.callValue
    dsimp only
    rw [bind_apply, bind_apply]
    dsimp only [machine]
    rw [← hm.heap]
    cases hfunction : m.heap.function? ref with
    | none => exact Sim.fail _ _ m m' hm
    | some function =>
      cases function with
      | native f => exact hdigits ▸ sim_callNative limits.maxDigits f _ args span m m' hm
      | user f =>
        exact alike_callUser hdepth heval hrun hm
          (hm.functions f (Array.mem_of_getElem? hfunction)) _ args span
  | number | string | boolean | array | dictionary => exact .fail _ _

end Calls

/-! ### Expressions -/

section Expressions

variable {eval eval' : Expr → Eval Value} {t : TableRef} {N : String → Prop}

/-- A variable reads alike if the tables agree on its name. -/
theorem sim_readVariable {name : String} (hname : N name) (span : Span) :
    Sim t N N (Step.readVariable name span) (Step.readVariable name span) := by
  intro m m' hm
  unfold Step.readVariable
  rw [← hm.lookup?_eq hname]
  cases m.lookup? name with
  | some value => exact .done hm.refl_reach
  | none => exact .failed hm.output

theorem sim_namedCallee {name : String} (hname : N name) (span : Span) :
    Sim t N N (Step.namedCallee name span) (Step.namedCallee name span) := by
  intro m m' hm
  unfold Step.namedCallee
  rw [← hm.lookup?_eq hname]
  cases m.lookup? name with
  | some value => exact .done hm.refl_reach
  | none => exact .failed hm.output

theorem sim_condition (heval : ExprsAlike eval eval') {e : Expr} (hlead : Leading.inExpr e = true)
    (hfree : ∀ n, Free.inExpr n e = true → N n) :
    Sim t N N (Step.condition eval e) (Step.condition eval' e) :=
  .bind (heval t N e hlead hfree) fun _ => .ofExcept _ _

theorem sim_exprs (heval : ExprsAlike eval eval') :
    ∀ {es : List Expr}, Leading.inExprs es = true → (∀ n, Free.inExprs n es = true → N n) →
      Sim t N N (all eval es) (all eval' es)
  | [], _, _ => .pure []
  | e :: es, hlead, hfree => by
    obtain ⟨he, hes⟩ := Bool.and_eq_true_iff.mp hlead
    obtain ⟨hfreeHead, hfreeTail⟩ := forall_of_or hfree
    refine .bind (heval t N e he hfreeHead) fun v => ?_
    exact .bind (sim_exprs heval hes hfreeTail) fun vs => .pure _

theorem sim_entries (heval : ExprsAlike eval eval') :
    ∀ {es : List Entry}, Leading.inEntries es = true → (∀ n, Free.inEntries n es = true → N n) →
      Sim t N N (Step.entries eval es) (Step.entries eval' es)
  | [], _, _ => .pure []
  | .mk key value :: es, hlead, hfree => by
    obtain ⟨hentry, hes⟩ := Bool.and_eq_true_iff.mp hlead
    obtain ⟨hkey, hvalue⟩ := Bool.and_eq_true_iff.mp hentry
    obtain ⟨hfreeEntry, hfreeRest⟩ := forall_of_or hfree
    obtain ⟨hfreeKey, hfreeValue⟩ := forall_of_or hfreeEntry
    have hpair : Sim t N N (do return (← eval key, ← eval value))
        (do return (← eval' key, ← eval' value)) :=
      .bind (heval t N key hkey hfreeKey) fun k =>
        .bind (heval t N value hvalue hfreeValue) fun v => .pure (k, v)
    exact .bind hpair fun entry => .bind (sim_entries heval hes hfreeRest) fun entries => .pure _

/-- An operation goes alike with its operands, of which the right one may not be reached. -/
theorem sim_binary {limits limits' : Limits} (hexponent : limits.maxExponent = limits'.maxExponent)
    (hdigits : limits.maxDigits = limits'.maxDigits) (heval : ExprsAlike eval eval') (span : Span)
    (op : BinaryOp) {left right : Expr} (hleft : Leading.inExpr left = true) (hright : Leading.inExpr right = true)
    (hfreeLeft : ∀ n, Free.inExpr n left = true → N n)
    (hfreeRight : ∀ n, Free.inExpr n right = true → N n) :
    Sim t N N (Step.binary limits eval span op left right)
      (Step.binary limits' eval' span op left right) := by
  have hl := heval t N left hleft hfreeLeft
  have hr := heval t N right hright hfreeRight
  cases op with
  -- The right operand is evaluated only where the left one does not settle the result.
  | and =>
    refine .bind (sim_condition heval hleft hfreeLeft) fun _ => .ite ?_ (.pure _)
    exact .bind (sim_condition heval hright hfreeRight) fun _ => .pure _
  | or =>
    refine .bind (sim_condition heval hleft hfreeLeft) fun _ => .ite (.pure _) ?_
    exact .bind (sim_condition heval hright hfreeRight) fun _ => .pure _
  | concat =>
    refine .bind hl fun a => .bind hr fun b => .machine fun m m' hm => ?_
    rw [← hm.heap, ← hdigits]
    exact .bind (.ofExcept _ _) fun _ => .bind (.ofExcept _ _) fun _ => .pure _
  | relation r =>
    exact .bind hl fun a => .bind hr fun b => .bind (.ofExcept _ _) fun _ => .pure _
  | arithmetic op =>
    have harithmetic : Step.arithmetic limits op = Step.arithmetic limits' op := by
      funext a b
      unfold Step.arithmetic Step.exact Step.operandExcess?
      rw [hexponent, hdigits]
    refine .bind hl fun a => .bind hr fun b => .bind (.ofExcept _ _) fun x => ?_
    rw [harithmetic]
    exact .bind (.ofExcept _ _) fun y => .bind (.ofExcept _ _) fun _ => .pure _

theorem sim_unary (heval : ExprsAlike eval eval') (op : UnaryOp) {operand : Expr}
    (hlead : Leading.inExpr operand = true) (hfree : ∀ n, Free.inExpr n operand = true → N n) :
    Sim t N N (Step.unary eval op operand) (Step.unary eval' op operand) := by
  refine .bind (heval t N operand hlead hfree) fun value => ?_
  cases op <;> exact .bind (.ofExcept _ _) fun _ => .pure _

theorem sim_element (maxDigits : Nat) (heap : Heap) (container key : Value)
    (targetSpan keySpan : Span) :
    Sim t N N (Step.element maxDigits heap container key targetSpan keySpan)
      (Step.element maxDigits heap container key targetSpan keySpan) := by
  cases container with
  | array ref =>
    refine .bind (.ofExcept _ _) fun index => ?_
    cases (heap.array ref)[index]? with
    | some value => exact .pure value
    | none => exact .fail _ _
  | dictionary ref =>
    unfold Step.element
    dsimp only
    cases (heap.dictionary ref).get? key with
    | some value => exact .pure value
    | none => exact .bind (.ofExcept _ _) fun _ => .fail _ _
  | number | string | boolean | function => exact .fail _ _

theorem sim_callee (heval : ExprsAlike eval eval') {e : Expr} (hlead : Leading.inExpr e = true)
    (hfree : ∀ n, Free.inExpr n e = true → N n) :
    Sim t N N (Step.callee eval e) (Step.callee eval' e) := by
  cases e with
  | name span x => exact sim_namedCallee (hfree x (beq_self_eq_true x)) span
  | _ => exact .bind (heval t N _ hlead hfree) fun _ => .pure _

end Expressions

/-! ### The two ways to capture -/

/-- Limits that differ only in what closures capture: what is used, or everything. -/
structure Limits.Rivals (limits limits' : Limits) : Prop where
  used : limits.capture = .used
  everything : limits'.capture = .everything
  exponent : limits.maxExponent = limits'.maxExponent
  depth : limits.maxCallDepth = limits'.maxCallDepth
  digits : limits.maxDigits = limits'.maxDigits

section Steps

variable {limits limits' : Limits} {eval eval' : Expr → Eval Value}
  {run run' : List Stmt → Eval (Option Value)} {exec exec' : Stmt → Eval (Option Value)}
  {t : TableRef} {N : String → Prop}

theorem sim_call (hlimits : limits.Rivals limits') (heval : ExprsAlike eval eval')
    (hrun : BodiesAlike run run') (span : Span) {target : Expr} {arguments : List Expr}
    (htarget : Leading.inExpr target = true) (harguments : Leading.inExprs arguments = true)
    (hfree : ∀ n, (Free.inExpr n target || Free.inExprs n arguments) = true → N n) :
    Sim t N N (Step.call limits eval run span target arguments)
      (Step.call limits' eval' run' span target arguments) := by
  obtain ⟨hfreeTarget, hfreeArguments⟩ := forall_of_or hfree
  refine .bind (sim_callee heval htarget hfreeTarget) fun ⟨function, name⟩ => ?_
  refine .ite (.fail _ _) (.bind (sim_exprs heval harguments hfreeArguments) fun args => ?_)
  exact sim_callValue hlimits.depth hlimits.digits heval hrun function args span name

/-- A step of an expression goes alike if its parts do. -/
theorem exprsAlike_step (hlimits : limits.Rivals limits') (heval : ExprsAlike eval eval')
    (hrun : BodiesAlike run run') :
    ExprsAlike (Step.expr limits eval run) (Step.expr limits' eval' run') := by
  intro t N e hlead hfree
  cases e with
  | number | string | boolean => exact .pure _
  | name span x => exact sim_readVariable (hfree x (beq_self_eq_true x)) span
  | lookup span target key =>
    obtain ⟨htarget, hkey⟩ := Bool.and_eq_true_iff.mp hlead
    obtain ⟨hfreeTarget, hfreeKey⟩ := forall_of_or hfree
    refine .bind (heval t N target htarget hfreeTarget) fun container => ?_
    refine .bind (heval t N key hkey hfreeKey) fun index => .machine fun m m' hm => ?_
    rw [← hm.heap]
    rw [← hlimits.digits]
    exact sim_element _ _ _ _ _ _
  | binary span op left right =>
    obtain ⟨hleft, hright⟩ := Bool.and_eq_true_iff.mp hlead
    obtain ⟨hfreeLeft, hfreeRight⟩ := forall_of_or hfree
    exact sim_binary hlimits.exponent hlimits.digits heval span op hleft hright hfreeLeft hfreeRight
  | unary span op operand => exact sim_unary heval op hlead hfree
  | array span elements =>
    refine .bind (sim_exprs heval hlead hfree) fun values m m' hm => ?_
    unfold Eval.newArray
    rw [← hm.heap]
    exact .done (hm.withHeap rfl rfl)
  | dictionary span es =>
    refine .bind (sim_entries heval hlead hfree) fun entries m m' hm => ?_
    unfold Eval.newDictionary
    rw [← hm.heap]
    exact .done (hm.withHeap rfl rfl)
  | function span parameters body =>
    obtain ⟨hparameters, hbody⟩ := Bool.and_eq_true_iff.mp hlead
    exact sim_makeFunction hlimits.used hlimits.everything none span hparameters hbody hfree
  -- A call without a value is a fault in an expression.
  | call span target arguments =>
    obtain ⟨htarget, harguments⟩ := Bool.and_eq_true_iff.mp hlead
    refine .bind (sim_call hlimits heval hrun span htarget harguments hfree) fun value => ?_
    cases value with
    | some value => exact .pure value
    | none => exact .fail _ _

/-! ### Statements -/

/-- Statements behind a declaration may use what it declares. -/
theorem sim_sequence (hexec : StmtsAlike exec exec') :
    ∀ {ss : List Stmt} {N : String → Prop} (last : Option Value), Leading.inStmts true ss = true →
      (∀ n, Free.inStmts n ss = true → N n) →
      Sim t N N (sequence exec last ss) (sequence exec' last ss)
  | [], _, last, _, _ => .pure last
  | s :: ss, N, _, hlead, hfree => by
    obtain ⟨hs, hss⟩ := Bool.and_eq_true_iff.mp hlead
    obtain ⟨hfreeHead, hfreeTail⟩ := forall_of_or hfree
    have hrest : ∀ n, Free.inStmts n ss = true → N n ∨ Free.declares n s = true := by
      intro n hn
      cases hdeclares : Free.declares n s with
      | true => exact .inr rfl
      | false => exact .inl (hfreeTail n (by rw [hdeclares, hn]; rfl))
    refine .bind (hexec t N s hs hfreeHead) fun result => .bind .pending fun p => ?_
    cases p with
    | some value => exact Sim.mono (.pure (some value)) fun n hn => .inl hn
    | none => exact (sim_sequence hexec result hss hrest).mono fun n hn => .inl hn

theorem sim_block (hexec : StmtsAlike exec exec') {b : Block} (hlead : Leading.inBlock true b = true)
    (hfree : ∀ n, Free.inBlock n b = true → N n) :
    Sim t N N (Step.block exec b) (Step.block exec' b) := by
  cases b
  exact sim_sequence hexec none hlead hfree

/-- An assignment goes alike, for the cell that it writes to is the same one. -/
theorem sim_assignVariable {name : String} (hname : N name) (value : Value) :
    Sim t N N (Step.assignVariable name value) (Step.assignVariable name value) := by
  refine .update fun m m' hm => ?_
  rw [← hm.toAlike.frame, hm.table]
  exact hm.withEnv (hm.env.set (hm.agree name hname) (some value))

/-- A function that is assigned to a variable is made under that name, and goes alike all the same.
-/
theorem sim_assignedValue (hlimits : limits.Rivals limits') (heval : ExprsAlike eval eval')
    (name : String) {e : Expr} (hlead : Leading.inExpr e = true)
    (hfree : ∀ n, Free.inExpr n e = true → N n) :
    Sim t N N (Step.assignedValue limits eval name e)
      (Step.assignedValue limits' eval' name e) := by
  cases e with
  | function span parameters body =>
    obtain ⟨hparameters, hbody⟩ := Bool.and_eq_true_iff.mp hlead
    exact sim_makeFunction hlimits.used hlimits.everything (some name) span hparameters hbody hfree
  | _ => exact heval t N _ hlead hfree

/-- Storing into a container changes the heap alone. -/
theorem sim_storeElement (container key value : Value) (targetSpan keySpan : Span) :
    Sim t N N (Step.storeElement container key value targetSpan keySpan)
      (Step.storeElement container key value targetSpan keySpan) := by
  cases container with
  | array ref =>
    refine .machine fun m m' hm => ?_
    rw [← hm.heap]
    refine .bind (.ofExcept _ _) fun index => .update fun m m' hm => ?_
    exact hm.withHeap (congrArg (Heap.modifyArray · ref _) hm.heap) rfl
  | dictionary ref =>
    refine .update fun m m' hm => ?_
    exact hm.withHeap (congrArg (Heap.modifyDictionary · ref _) hm.heap) rfl
  | number | string | boolean | function => exact .fail _ _

/-- A declaration makes the tables agree on the name: inside a call by an import, at top level
anyway. -/
theorem reach_declareGlobal {m m' : Machine} (hm : AlikeIn t N m m') (name : String) :
    Reach t (fun n => N n ∨ n = name) m m' (Step.declareGlobal m name)
      (Step.declareGlobal m' name) := by
  have hmark := hm.modifyFrame (f := fun frame =>
    { frame with globalNames := frame.globalNames.add name }) fun _ => rfl
  unfold Step.declareGlobal
  generalize m.modifyFrame _ = k, m'.modifyFrame _ = k' at hmark ⊢
  dsimp only
  have hk := hmark.alike
  rw [← hk.toAlike.frame, ← Env.isGlobal_eq_of_root (hk.env.roots _), hk.table]
  cases hglobal : k.env.isGlobal t with
  | true =>
    -- The table is the global one, on all of which the machines agree.
    have hzero : t = ⟨0⟩ := (hk.env.isGlobal t hk.index_lt).mp hglobal
    refine ⟨{ hk with agree := fun n _ => ?_ }, hmark.follow⟩
    rw [hzero]
    exact hk.env.global n
  | false =>
    have hlocal : t ≠ globalTable := by
      intro ht
      rw [(hk.env.isGlobal t hk.index_lt).mpr ht] at hglobal
      cases hglobal
    obtain ⟨himport, hagree⟩ := hk.importGlobal hk.index_lt hlocal name
    have hreach := hmark.trans (himport.trans (himport.alike.record
      (.globalImported k.frame.label name) (.globalImported k.frame.label name)))
    refine ⟨{ hreach.alike with agree := ?_ }, hreach.follow⟩
    rintro n (hn | rfl)
    · exact hreach.alike.agree n hn
    · exact hagree

/-- The names that are declared global are names on which the tables agree behind the declaration.
-/
theorem sim_declareGlobal (names : List String) :
    Sim t N (fun n => N n ∨ names.contains n = true)
      (update fun m => names.foldl Step.declareGlobal m)
      (update fun m => names.foldl Step.declareGlobal m) := by
  refine .update fun m m' hm => ?_
  induction names generalizing m m' N with
  | nil => exact hm.refl_reach.mono fun n hn => by simpa using hn
  | cons name names ih =>
    have hfirst := reach_declareGlobal hm name
    refine hfirst.trans ((ih _ _ hfirst.alike).mono fun n hn => ?_)
    simpa [or_assoc] using hn

theorem sim_otherwise (heval : ExprsAlike eval eval') (hexec : StmtsAlike exec exec') :
    ∀ {o : Otherwise}, Leading.inOtherwise true o = true →
      (∀ n, Free.inOtherwise n o = true → N n) →
      Sim t N N (Step.otherwise eval exec o) (Step.otherwise eval' exec' o)
  | .nothing, _, _ => .pure _
  | .block b, hlead, hfree => sim_block hexec hlead hfree
  | .branch _ test body later, hlead, hfree => by
    obtain ⟨hlead, hlater⟩ := Bool.and_eq_true_iff.mp hlead
    obtain ⟨htest, hbody⟩ := Bool.and_eq_true_iff.mp hlead
    obtain ⟨hfree, hfreeLater⟩ := forall_of_or hfree
    obtain ⟨hfreeTest, hfreeBody⟩ := forall_of_or hfree
    refine .bind (sim_condition heval htest hfreeTest) fun holds => .ite ?_ ?_
    · exact sim_block hexec hbody hfreeBody
    · exact sim_otherwise heval hexec hlater hfreeLater

/-- A loop goes over the same elements, for the heaps are the same. -/
theorem sim_each (hexec : StmtsAlike exec exec') (source : Value) (span : Span)
    {key : Option String} {value : String} {body : Block} (hkey : ∀ k ∈ key, N k)
    (hvalue : N value) (hlead : Leading.inBlock true body = true)
    (hfree : ∀ n, Free.inBlock n body = true → N n) :
    Sim t N N (Step.each exec source span key value body)
      (Step.each exec' source span key value body) := by
  have hbody := sim_block (t := t) hexec hlead hfree
  refine .machine fun m m' hm => ?_
  rw [← hm.heap]
  cases source with
  | array ref =>
    cases key with
    | none =>
      -- A round assigns the variables and then runs the block.
      have hround : ∀ v, Sim t N N (do Step.assignVariable value v; Step.block exec body)
          (do Step.assignVariable value v; Step.block exec' body) :=
        fun v => .bind (sim_assignVariable hvalue v) fun _ => hbody
      exact .forEach hround _ none
    | some key => exact .fail _ _
  | dictionary ref =>
    cases key with
    | none => exact .fail _ _
    | some key =>
      have hround : ∀ entry : Value × Value,
          Sim t N N
            (do
              Step.assignVariable key entry.1
              Step.assignVariable value entry.2
              Step.block exec body)
            (do
              Step.assignVariable key entry.1
              Step.assignVariable value entry.2
              Step.block exec' body) :=
        fun entry => .bind (sim_assignVariable (hkey key rfl) entry.1) fun _ =>
          .bind (sim_assignVariable hvalue entry.2) fun _ => hbody
      exact .forEach hround _ none
  | number | string | boolean | function => cases key <;> exact .fail _ _

/-- A step of a statement goes alike if its parts do. -/
theorem stmtsAlike_step (hlimits : limits.Rivals limits') (budget : Nat)
    (heval : ExprsAlike eval eval') (hexec : StmtsAlike exec exec') :
    StmtsAlike (Step.stmt limits budget eval exec) (Step.stmt limits' budget eval' exec') := by
  intro t N s hlead hfree
  -- Only a declaration adds to the names on which the tables agree.
  have hnothing : ∀ n, (N n ∨ false = true) → N n := by
    rintro n (hn | hn)
    · exact hn
    · cases hn
  cases s with
  | assignVariable span nameSpan name value =>
    obtain ⟨hfreeValue, hfreeName⟩ := forall_of_or hfree
    refine Sim.mono ?_ hnothing
    refine .bind (sim_assignedValue hlimits heval name hlead hfreeValue) fun v => ?_
    exact .bind (sim_assignVariable (hfreeName name (beq_self_eq_true name)) v) fun _ => .pure _
  | assignElement span lookupSpan target key value =>
    obtain ⟨hlead, hkey⟩ := Bool.and_eq_true_iff.mp hlead
    obtain ⟨hvalue, htarget⟩ := Bool.and_eq_true_iff.mp hlead
    obtain ⟨hfree, hfreeKey⟩ := forall_of_or hfree
    obtain ⟨hfreeValue, hfreeTarget⟩ := forall_of_or hfree
    refine Sim.mono ?_ hnothing
    refine .bind (heval t N value hvalue hfreeValue) fun v => ?_
    refine .bind (heval t N target htarget hfreeTarget) fun container => ?_
    refine .bind (heval t N key hkey hfreeKey) fun index => ?_
    exact .bind (sim_storeElement container index v _ _) fun _ => .pure _
  | call span callSpan target arguments =>
    obtain ⟨htarget, harguments⟩ := Bool.and_eq_true_iff.mp hlead
    have hrun : BodiesAlike (sequence exec none) (sequence exec' none) :=
      fun _ _ _ hss hfreeBody => sim_sequence hexec none hss hfreeBody
    exact (sim_call hlimits heval hrun callSpan htarget harguments hfree).mono hnothing
  | ret span value =>
    refine Sim.mono ?_ hnothing
    refine .bind (heval t N value hlead hfree) fun v => ?_
    exact .bind (.update fun m m' hm => hm.modifyFrame fun _ => rfl) fun _ => .pure _
  | declareGlobal span names => exact .bind (sim_declareGlobal names) fun _ => .pure _
  | branch span test body later =>
    obtain ⟨hlead, hlater⟩ := Bool.and_eq_true_iff.mp hlead
    obtain ⟨htest, hbody⟩ := Bool.and_eq_true_iff.mp hlead
    obtain ⟨hfree, hfreeLater⟩ := forall_of_or hfree
    obtain ⟨hfreeTest, hfreeBody⟩ := forall_of_or hfree
    refine Sim.mono (.bind (sim_condition heval htest hfreeTest) fun holds => ?_) hnothing
    exact .ite (sim_block hexec hbody hfreeBody) (sim_otherwise heval hexec hlater hfreeLater)
  | loop span test body =>
    obtain ⟨htest, hbody⟩ := Bool.and_eq_true_iff.mp hlead
    obtain ⟨hfreeTest, hfreeBody⟩ := forall_of_or hfree
    exact (Sim.whileTrue (sim_condition heval htest hfreeTest)
      (sim_block hexec hbody hfreeBody) budget none).mono hnothing
  | each span source key value body =>
    obtain ⟨hsource, hbody⟩ := Bool.and_eq_true_iff.mp hlead
    cases key with
    | none =>
      obtain ⟨hfree, hfreeBody⟩ := forall_of_or hfree
      obtain ⟨hfreeSource, hfreeValue⟩ := forall_of_or hfree
      refine Sim.mono (.bind (heval t N source hsource hfreeSource) fun v => ?_) hnothing
      exact sim_each hexec v _ (fun _ hk => by cases hk)
        (hfreeValue value (beq_self_eq_true value)) hbody hfreeBody
    | some key =>
      obtain ⟨hfree, hfreeBody⟩ := forall_of_or hfree
      obtain ⟨hfree, hfreeValue⟩ := forall_of_or hfree
      obtain ⟨hfreeSource, hfreeKey⟩ := forall_of_or hfree
      refine Sim.mono (.bind (heval t N source hsource hfreeSource) fun v => ?_) hnothing
      exact sim_each hexec v _ (fun _ hk => by cases hk; exact hfreeKey key (beq_self_eq_true key))
        (hfreeValue value (beq_self_eq_true value)) hbody hfreeBody

end Steps

/-- Both ways to capture make every expression and every statement go alike: by induction on the
budget. -/
theorem evaluation_alike {limits limits' : Limits} (hlimits : limits.Rivals limits') :
    ∀ budget, ExprsAlike (evalExpr limits budget) (evalExpr limits' budget) ∧
      StmtsAlike (execStmt limits budget) (execStmt limits' budget)
  | 0 => ⟨fun _ _ _ _ _ => .exhaust, fun _ _ _ _ _ => .exhaust⟩
  | budget + 1 => by
    obtain ⟨heval, hexec⟩ := evaluation_alike hlimits budget
    have hrun : BodiesAlike (sequence (execStmt limits budget) none)
        (sequence (execStmt limits' budget) none) :=
      fun _ _ _ hss hfree => sim_sequence hexec none hss hfree
    exact ⟨exprsAlike_step hlimits heval hrun, stmtsAlike_step hlimits budget heval hexec⟩

/-! ### Whole runs -/

/-- What can be seen of a run from outside: the kind and the text of its value, or its failure, or
that it is still running, each with what has been printed. -/
inductive Observation where
  | value (shown : Option (Kind × Except RuntimeFault String)) (output : String)
  | failure (failure : Failure) (output : String)
  | running (output : String)

/-- What can be seen of an outcome on a host. -/
def Outcome.observation (outcome : Outcome (Option Value)) (host : Host := {}) : Observation :=
  match outcome with
  | done value m => .value (value.map fun v => (v.kind, m.heap.write host.maxDigits v)) m.output
  | failed failure m => .failure failure m.output
  | exhausted m => .running m.output

namespace Machine

/-- The condition at the start of a session: nothing in the heap is a function of a script, and the
one table is the global one. -/
theorem alikeIn_empty (arrays : Array (Array Value)) (dictionaries : Array Dictionary) :
    AlikeIn globalTable (fun _ => True) (empty { arrays, dictionaries })
      (empty { arrays, dictionaries }) := by
  -- There is one table, and it is the global one.
  have hroot : ∀ t, ((empty { arrays, dictionaries }).env.table t).root = none := by
    intro t
    show ((Env.addTable {} { root := none }).2.table t).root = none
    rw [Env.table_addTable]
    split
    · rfl
    · simp [Env.table]
  exact
    { env :=
        { cells := rfl
          size := rfl
          roots := fun _ => rfl
          root := fun t r hr => by
            rw [hroot] at hr
            cases hr
          nonempty := Nat.zero_lt_one
          isGlobal := fun t ht => by
            rw [Env.isGlobal, hroot]
            refine ⟨fun _ => ?_, fun _ => rfl⟩
            obtain ⟨index⟩ := t
            exact congrArg TableRef.mk (Nat.lt_one_iff.mp ht)
          global := fun _ => rfl }
      heap := rfl
      root := rfl
      calls := rfl
      output := rfl
      tables := fun t ht => by
        rw [List.mem_singleton.mp ht]
        exact Nat.zero_lt_one
      functions := fun f hf => by cases Array.not_mem_empty _ hf
      table := rfl
      agree := fun _ _ => rfl }

theorem alikeIn_bindNative {m : Machine} (h : AlikeIn globalTable (fun _ => True) m m)
    (f : NativeFunction) :
    AlikeIn globalTable (fun _ => True) (m.bindNative f) (m.bindNative f) := by
  have hheap : AlikeIn globalTable (fun _ => True)
      { m with heap := (m.heap.addFunction (.native f)).2 }
      { m with heap := (m.heap.addFunction (.native f)).2 } :=
    { h with
      heap := rfl
      functions := fun g hg => by
        rcases Array.mem_push.mp hg with hg | hg
        · exact h.functions g hg
        · cases hg }
  exact (hheap.withEnv (hheap.env.set (hheap.agree f.name trivial) _)).alike

/-- A new session is alike itself, with all of its built-in functions bound. -/
theorem alikeIn_start (config : Config) (registry : Registry) (arrays : Array (Array Value))
    (dictionaries : Array Dictionary) :
    AlikeIn globalTable (fun _ => True) (Session.start config registry { arrays, dictionaries })
      (Session.start config registry { arrays, dictionaries }) := by
  have hbind : ∀ (fs : List NativeFunction) (m : Machine),
      AlikeIn globalTable (fun _ => True) m m →
      AlikeIn globalTable (fun _ => True) (fs.foldl bindNative m) (fs.foldl bindNative m) := by
    intro fs
    induction fs with
    | nil => exact fun _ hm => hm
    | cons f fs ih => exact fun m hm => ih _ (alikeIn_bindNative hm f)
  unfold Session.start
  split
  · exact hbind registry.functions _ (alikeIn_empty arrays dictionaries)
  · exact alikeIn_empty arrays dictionaries

end Machine

/-- A session starts with the bottom frame alone. -/
theorem Session.resetFrames_start (config : Config) (registry : Registry) (heap : Heap) :
    (Session.start config registry heap).resetFrames = Session.start config registry heap := by
  have hbind : ∀ (fs : List NativeFunction) (m : Machine), m.resetFrames = m →
      (fs.foldl bindNative m).resetFrames = fs.foldl bindNative m := by
    intro fs
    induction fs with
    | nil => exact fun _ hm => hm
    | cons f fs ih => exact fun m hm => ih _ (congrArg (bindNative · f) hm)
  unfold Session.start
  split
  · exact hbind registry.functions _ rfl
  · rfl

/-- **Capturing what is used is as good as capturing everything.** Where function literals declare
global names at the start of their bodies only, a program run with closures of the captured names
shows the same value, output and failure, or runs on just the same, as with closures of every name,
for every configuration, registry and budget, on every host. -/
theorem capture_used_eq_everything (config : Config) (host : Host) (registry : Registry)
    (arrays : Array (Array Value)) (dictionaries : Array Dictionary) (budget : Nat)
    (program : Program) (source : String) (h : program.GlobalsLead) :
    let start := Session.start config registry { arrays, dictionaries }
    (Session.run (config.limits host) budget program source start).observation host =
      (Session.run { config.limits host with capture := .everything } budget program source
        start).observation host := by
  intro start
  let limits := config.limits host
  have hlimits : limits.Rivals { limits with capture := .everything } :=
    ⟨rfl, rfl, rfl, rfl, rfl⟩
  have hstart : AlikeIn globalTable (fun _ => True) start start :=
    alikeIn_start config registry arrays dictionaries
  -- The declarations lead their bodies, so the simulation applies to the program as it stands.
  have hrun := sim_sequence (evaluation_alike hlimits budget).2 none h (fun _ _ => trivial)
    start start hstart
  unfold Session.run Session.evaluateProgram
  rw [show start.resetFrames = start from Session.resetFrames_start config registry _]
  generalize sequence (execStmt (config.limits host) budget) none program.statements start = o,
    sequence (execStmt { config.limits host with capture := .everything } budget) none
      program.statements start = o' at hrun ⊢
  -- Only what can be observed is left to compare.
  cases hrun with
  | @done value later later' hreach =>
    let shown (heap : Heap) := value.map fun v => (v.kind, heap.write host.maxDigits v)
    show Observation.value (shown later.heap) later.output =
      .value (shown later'.heap) later'.output
    rw [hreach.alike.heap, hreach.alike.output]
  | failed houtput => exact congrArg (Observation.failure _) houtput
  | exhausted houtput => exact congrArg Observation.running houtput

/-- A function that counts its calls in a global variable and makes a function that uses its
parameter. -/
theorem capture_used_eq_everything_counter :
    let span : Span := ⟨none, .start, .start⟩
    let inner : Expr := .function span [] (.mk span [.ret span (.name span "x")])
    let body : List Stmt :=
      [.declareGlobal span ["calls"],
        .assignVariable span span "calls" (.binary span (.arithmetic .add) (.name span "calls")
          (.number span (.ofNat 1) "1")),
        .ret span inner]
    let program : Program :=
      { span
        statements :=
          [.assignVariable span span "calls" (.number span (.ofNat 0) "0"),
            .assignVariable span span "make"
              (.function span [.mk span "x" none] (.mk span body)),
            .call span span (.call span (.name span "make") [.string span "kept"]) []] }
    let start := Session.start {} .standard
    program.GlobalsLead ∧
      (Session.run {} 9 program "" start).observation =
        (Session.run { capture := .everything } 9 program "" start).observation := by
  intro span inner body program start
  have hlead : program.GlobalsLead := by rfl
  exact ⟨hlead, capture_used_eq_everything {} {} .standard #[] #[] 9 program "" hlead⟩

end DecimalScript
