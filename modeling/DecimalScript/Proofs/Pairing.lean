import DecimalScript.Proofs.EvaluationCourse
import DecimalScript.Proofs.Relocation
import DecimalScript.Proofs.ShallowFaults
import DecimalScript.Proofs.SoundSituations

/-!
# Two evaluations side by side

Some properties compare two evaluations that take the same way: of the same code at other places,
under other limits, or within another budget. A `Pairing` says what may differ between them. Apart
from the places of functions and from the log, the machines of both are the same at every moment;
the logs are related as the pairing says. Certain failures of the left evaluation end the
comparison, and so does the end of its budget, if the right one may have a larger budget.

- `Eval.Paired P x y`: started on machines that `P` pairs, `x` and `y` end alike.
- `Pairing.Budgets`: the budgets that both may have.
- `Pairing.Sound`: what a pairing has to allow so that every step keeps it.
- `Pairing.Sound.evaluation`: the induction over all steps, done once.
-/

namespace DecimalScript

open Eval

/-- How two evaluations may differ. -/
structure Pairing where
  /-- Where the spans of the left code are in the right code. -/
  relocation : Relocation
  /-- How the logs are related while a number of calls is in progress. -/
  logs : (depth : Nat) → Array LogEvent → Array LogEvent → Prop
  /-- The faults with which both may fail. -/
  fault : RuntimeFault → Prop
  /-- The left one may fail in this way, having logged this, whatever the right one does. -/
  escape : Failure → Array LogEvent → Prop
  /-- The right one may have the larger budget. -/
  outlasts : Prop := False

/-- The budgets that both evaluations may have. -/
def Pairing.Budgets (P : Pairing) (budget budget' : Nat) : Prop :=
  budget' = budget ∨ P.outlasts ∧ budget ≤ budget'

/-- The machine beside another one: with the functions at other places, and with another log. -/
def Machine.beside (m : Machine) (r : Relocation) (log : Array LogEvent) : Machine :=
  { m with heap := m.heap.relocate r, log }

variable {P : Pairing} {limits limits' : Limits} {α β : Type}

/-- Two outcomes that a pairing allows beside each other. -/
inductive Outcome.Paired (P : Pairing) : Outcome α → Outcome α → Prop
  /-- Both give the same value. -/
  | done (a : α) (k : Machine) (log : Array LogEvent) (hlogs : P.logs k.depth k.log log) :
    Paired P (.done a k) (.done a (k.beside P.relocation log))
  /-- Both fail for the same reason, at corresponding places. -/
  | failed (fault : RuntimeFault) (span : Span) (k : Machine) (log : Array LogEvent)
    (hfault : P.fault fault) (hlogs : P.logs k.depth k.log log) :
    Paired P (.failed (.ofRuntime fault span) k)
      (.failed (.ofRuntime fault (P.relocation.expr span)) (k.beside P.relocation log))
  /-- Both run out of budget. -/
  | exhausted (k : Machine) (log : Array LogEvent) (hlogs : P.logs k.depth k.log log) :
    Paired P (.exhausted k) (.exhausted (k.beside P.relocation log))
  /-- The left one fails in a way that ends the comparison. -/
  | escaped (failure : Failure) (k : Machine) (o : Outcome α) (h : P.escape failure k.log) :
    Paired P (.failed failure k) o
  /-- The left one runs out of the smaller budget. -/
  | outlasted (h : P.outlasts) (k : Machine) (o : Outcome α) : Paired P (.exhausted k) o

/-- From machines that the pairing allows beside each other, two evaluations end beside each
other. -/
def Eval.Paired (P : Pairing) (x y : Eval α) : Prop :=
  ∀ m log, P.logs m.depth m.log log → (x m).Paired P (y (m.beside P.relocation log))

/-- Two evaluations of expressions, beside each other on all code. -/
def Pairing.Exprs (P : Pairing) (eval eval' : Expr → Eval Value) : Prop :=
  ∀ e, Eval.Paired P (eval e) (eval' (e.relocate P.relocation))

/-- Two executions of statements, beside each other on all code. -/
def Pairing.Stmts (P : Pairing) (exec exec' : Stmt → Eval (Option Value)) : Prop :=
  ∀ s, Eval.Paired P (exec s) (exec' (s.relocate P.relocation))

/-- Two executions of lists of statements, beside each other on all code. -/
def Pairing.Bodies (P : Pairing) (run run' : List Stmt → Eval (Option Value)) : Prop :=
  ∀ ss, Eval.Paired P (run ss) (run' (relocateStmts P.relocation ss))

namespace Pairing.Budgets

/-- One run for each of the two budgets that are the same. -/
theorem same (budget : Nat) : P.Budgets budget budget :=
  .inl rfl

/-- What is left of two budgets after a step. -/
theorem succ {budget budget' : Nat} (h : P.Budgets (budget + 1) budget') :
    ∃ later, budget' = later + 1 ∧ P.Budgets budget later := by
  rcases h with rfl | ⟨houtlasts, hle⟩
  · exact ⟨budget, rfl, .same budget⟩
  · exact ⟨budget' - 1, by omega, .inr ⟨houtlasts, by omega⟩⟩

end Pairing.Budgets

/-! ### What built-in functions make of the places of functions -/

namespace Builtin

variable {r : Relocation}

/-- What is printed has no places. -/
theorem concatenated_relocate (maxDigits : Nat) (heap : Heap) (args : List Value) :
    concatenated maxDigits (heap.relocate r) args = concatenated maxDigits heap args := by
  unfold concatenated
  rw [Heap.write_relocate]

/-- What is removed has no places, nor has the reason why nothing is. -/
theorem removal_relocate (maxDigits : Nat) (heap : Heap) (container key : Value) :
    removal maxDigits (heap.relocate r) container key = removal maxDigits heap container key := by
  unfold removal
  rw [Heap.write_relocate]
  rfl

/-- No built-in function looks at the places of functions. -/
theorem effect_relocate (maxDigits : Nat) (b : Builtin) (name : String) (arity : Nat) (heap : Heap)
    (args : List Value) :
    b.effect maxDigits name arity (heap.relocate r) args = b.effect maxDigits name arity heap args := by
  unfold effect
  simp only [concatenated_relocate, removal_relocate, Heap.write_relocate]
  rfl

end Builtin

theorem NativeFunction.effect_relocate {r : Relocation} (maxDigits : Nat) (f : NativeFunction)
    (heap : Heap) (args : List Value) :
    f.effect maxDigits (heap.relocate r) args = f.effect maxDigits heap args := by
  unfold NativeFunction.effect
  simp only [Builtin.effect_relocate]

/-- Effects are performed alike beside a relocation. -/
theorem Machine.perform_beside {r : Relocation} (m : Machine) (log : Array LogEvent)
    (effect : Effect) : (m.beside r log).perform effect = (m.perform effect).beside r log := by
  cases effect <;> rfl

/-- The value of an effect does not depend on places. -/
theorem Effect.value_relocate {r : Relocation} (heap : Heap) (effect : Effect) :
    effect.value (heap.relocate r) = effect.value heap := by
  cases effect <;> rfl

/-! ### Combinators -/

namespace Eval.Paired

theorem pure (a : α) : Paired P (pure a : Eval α) (Pure.pure a) :=
  fun m log h => .done a m log h

/-- The second evaluations start with what the first ones gave, which is the same. -/
theorem bind {x y : Eval α} {f g : α → Eval β} (hx : Paired P x y)
    (hf : ∀ a, Paired P (f a) (g a)) : Paired P (x >>= f) (y >>= g) := by
  intro m log h
  have hm := hx m log h
  rw [bind_apply, bind_apply]
  generalize x m = o, y (m.beside P.relocation log) = o' at hm ⊢
  -- Only where both have given a value does anything follow, and it starts on paired machines.
  cases hm with
  | done a k log' hlogs => exact hf a k log' hlogs
  | failed fault span k log' hfault hlogs => exact .failed fault span k log' hfault hlogs
  | exhausted k log' hlogs => exact .exhausted k log' hlogs
  | escaped failure k o hescape => exact .escaped failure k _ hescape
  | outlasted houtlasts k o => exact .outlasted houtlasts k _

theorem map {x y : Eval α} (f : α → β) (hx : Paired P x y) : Paired P (f <$> x) (f <$> y) :=
  .bind hx fun a => .pure (f a)

/-- A failure that the pairing knows of is paired with itself, moved. -/
theorem fail {fault : RuntimeFault} (hfault : P.fault fault) (span : Span) :
    Paired P (fail fault span : Eval α) (Eval.fail fault (P.relocation.expr span)) :=
  fun m log h => .failed fault span m log hfault h

theorem exhaust : Paired P (exhaust : Eval α) Eval.exhaust :=
  fun m log h => .exhausted m log h

/-- Where the left budget is used up, the right one is, too, or it may be the larger one. -/
theorem exhausted {budget' : Nat} (h : P.Budgets 0 budget') {y : Nat → Eval α}
    (hy : y 0 = Eval.exhaust) : Paired P Eval.exhaust (y budget') := by
  rcases h with rfl | ⟨houtlasts, -⟩
  · rw [hy]
    exact exhaust
  · exact fun m _ _ => .outlasted houtlasts m _

/-- A result or a failure that the pairing knows of is paired with itself. -/
theorem ofExcept {x : Except RuntimeFault α} (hx : ∀ fault, x = .error fault → P.fault fault)
    (span : Span) : Paired P (ofExcept span x) (Eval.ofExcept (P.relocation.expr span) x) := by
  cases x with
  | ok a => exact .pure a
  | error fault => exact .fail (hx fault rfl) span

theorem ite {p : Prop} [Decidable p] {x y x' y' : Eval α} (hx : Paired P x x')
    (hy : Paired P y y') : Paired P (if p then x else y) (if p then x' else y') := by
  split
  · exact hx
  · exact hy

/-- What follows may look at the machine. -/
theorem machine_bind {f g : Machine → Eval α}
    (h : ∀ m log, Paired P (f m) (g (m.beside P.relocation log))) :
    Paired P (machine >>= f) (machine >>= g) :=
  fun m log hlogs => h m log m log hlogs

/-- A pending return is pending on both sides. -/
theorem pending_bind {f g : Option Value → Eval α} (h : ∀ p, Paired P (f p) (g p)) :
    Paired P (pending >>= f) (pending >>= g) :=
  fun m log hlogs => h m.frame.pending m log hlogs

/-- A change that neither logs nor enters or leaves a call. -/
theorem update {f g : Machine → Machine} (hdepth : ∀ m, (f m).depth = m.depth)
    (hlog : ∀ m, (f m).log = m.log)
    (h : ∀ m log, g (m.beside P.relocation log) = (f m).beside P.relocation log) :
    Paired P (update f) (Eval.update g) := by
  intro m log hlogs
  unfold Eval.update
  rw [h]
  refine .done () (f m) log ?_
  rw [hdepth, hlog]
  exact hlogs

/-- Rounds over the same elements are paired one by one. -/
theorem forEach {f g : α → Eval (Option Value)} (h : ∀ a, Paired P (f a) (g a)) :
    ∀ as last, Paired P (forEach f last as) (Eval.forEach g last as)
  | [], last => .pure last
  | a :: as, _ => by
    refine .bind (h a) fun result => .pending_bind fun p => ?_
    cases p with
    | some _ => exact .pure result
    | none => exact forEach h as result

/-- Loops are paired round by round. With a larger budget on one side, the other side may end first
only where the pairing lets it. -/
theorem whileTrue {test test' : Eval Bool} {body body' : Eval (Option Value)}
    (htest : Paired P test test') (hbody : Paired P body body') :
    ∀ {budget budget' : Nat}, P.Budgets budget budget' → ∀ last,
      Paired P (whileTrue test body budget last) (Eval.whileTrue test' body' budget' last)
  | 0, _, hbudget, last =>
    .exhausted (y := fun budget => Eval.whileTrue test' body' budget last) hbudget rfl
  | budget + 1, _, hbudget, last => by
    obtain ⟨later, rfl, hlater⟩ := hbudget.succ
    refine .bind htest fun holds => .ite ?_ (.pure last)
    refine .bind hbody fun result => .pending_bind fun p => ?_
    cases p with
    | some _ => exact .pure result
    | none => exact whileTrue htest hbody hlater result

end Eval.Paired

/-! ### Sound pairings -/

/-- Whether an event is the same wherever the code stands, and says nothing about the depth of
calls. -/
def LogEvent.isPlain : LogEvent → Bool
  | .captureAnalysis _ _ | .call _ _ _ => false
  | .closureMade _ _ _ | .nativeCall _ _ | .globalImported _ _ => true

/-- What a pairing of evaluations under two limits has to allow. -/
structure Pairing.Sound (P : Pairing) (limits limits' : Limits) : Prop where
  capture : limits'.capture = limits.capture
  maxCallDepth : limits.maxCallDepth ≤ limits'.maxCallDepth
  maxDigits : limits'.maxDigits = limits.maxDigits
  fault : ∀ fault, fault.isCallDepth = false → P.fault fault
  record : ∀ {d l l'} event, event.isPlain = true → P.logs d l l' →
    P.logs d (l.push event) (l'.push event)
  captureAnalysis : ∀ {d l l'} span scope, P.logs d l l' →
    P.logs d (l.push (.captureAnalysis span scope))
      (l'.push (.captureAnalysis (P.relocation.expr span) scope))
  enter : ∀ {d l l'} label arguments, d < limits.maxCallDepth → P.logs d l l' →
    P.logs (d + 1) (l.push (.call label arguments (d + 1)))
      (l'.push (.call label arguments (d + 1)))
  leave : ∀ {d d' l l'}, d' ≤ d → P.logs d l l' → P.logs d' l l'
  /-- A refused call ends the comparison, unless both sides refuse it. -/
  refuse : ∀ {d l l'} label arguments span, limits.maxCallDepth ≤ d → P.logs d l l' →
    let event := LogEvent.call label arguments (d + 1)
    P.escape (.ofRuntime (.callDepth limits.maxCallDepth) span) (l.push event) ∨
      limits'.maxCallDepth = limits.maxCallDepth ∧ P.fault (.callDepth limits.maxCallDepth) ∧
        P.logs d (l.push event) (l'.push event)
  /-- Where arithmetic differs, the left side ends the comparison. -/
  arithmetic : ∀ op x y, Step.arithmetic limits' op x y = Step.arithmetic limits op x y ∨
    ∃ fault, Step.arithmetic limits op x y = .error fault ∧
      ∀ span l, P.escape (.ofRuntime fault span) l

namespace Pairing.Sound

theorem shallow (h : P.Sound limits limits') {x : Except RuntimeFault α} (hx : Shallow x)
    (span : Span) :
    Eval.Paired P (Eval.ofExcept span x) (Eval.ofExcept (P.relocation.expr span) x) :=
  .ofExcept (fun fault hfault => h.fault fault (hx fault hfault)) span

/-- Taking a frame away keeps outcomes beside each other. -/
theorem mapMachine_leave (h : P.Sound limits limits') {o o' : Outcome α} (ho : o.Paired P o') :
    (o.mapMachine Machine.leave).Paired P (o'.mapMachine Machine.leave) := by
  have hlogs : ∀ {k : Machine} {log}, P.logs k.depth k.log log →
      P.logs k.leave.depth k.leave.log log := by
    intro k log hk
    refine h.leave ?_ hk
    show k.calls.tail.length ≤ k.calls.length
    rw [List.length_tail]
    exact Nat.sub_le _ _
  cases ho with
  | done a k log hk => exact .done a k.leave log (hlogs hk)
  | failed fault span k log hfault hk => exact .failed fault span k.leave log hfault (hlogs hk)
  | exhausted k log hk => exact .exhausted k.leave log (hlogs hk)
  | escaped failure k o hescape => exact .escaped failure k.leave _ hescape
  | outlasted houtlasts k o => exact .outlasted houtlasts k.leave _

section Steps

variable {eval eval' : Expr → Eval Value} {run run' : List Stmt → Eval (Option Value)}
  {exec exec' : Stmt → Eval (Option Value)}

/-! ### Functions -/

/-- The closure is made on both sides, of the same cells. -/
theorem closeFunction (h : P.Sound limits limits') (name : Option String)
    (parameters : List Parameter) (body : Block) (scope : Tracker) (closure : TableRef) :
    Eval.Paired P (Step.closeFunction name parameters body scope closure)
      (Step.closeFunction name (relocateParameters P.relocation parameters)
        (body.relocate P.relocation) scope closure) := by
  intro m log hlogs
  let f : UserFunction := { name, parameters, body, closure, globalNames := scope.globals }
  have hadd : (m.heap.relocate P.relocation).addFunction (.user (f.relocate P.relocation)) = _ :=
    Heap.addFunction_relocate m.heap (.user f)
  have hlogs' := h.record (.closureMade name scope.upvalues scope.globals) rfl hlogs
  unfold Step.closeFunction
  -- The import of global names changes the environment alone, which both sides have in common.
  simp only [importGlobals_eq]
  change Outcome.Paired P (.done (m.heap.addFunction (.user f)).1 _)
    (.done ((m.heap.relocate P.relocation).addFunction (.user (f.relocate P.relocation))).1
      { m.beside P.relocation log with
        env := _
        heap := ((m.heap.relocate P.relocation).addFunction (.user (f.relocate P.relocation))).2
        log := _ })
  rw [hadd]
  exact .done _ _ _ hlogs'

/-- A function that is made is moved like its literal. -/
theorem makeFunction (h : P.Sound limits limits') (name : Option String) (span : Span)
    (parameters : List Parameter) (body : Block) :
    Eval.Paired P (Step.makeFunction limits name span parameters body)
      (Step.makeFunction limits' name (P.relocation.expr span)
        (relocateParameters P.relocation parameters) (body.relocate P.relocation)) := by
  intro m log hlogs
  let scope := Step.literalScope m parameters body
  have hscope : Step.literalScope (m.beside P.relocation log)
      (relocateParameters P.relocation parameters) (body.relocate P.relocation) = scope :=
    Capture.ofFunction_relocate parameters body _ _
  unfold Step.makeFunction
  rw [hscope, h.capture]
  let captured := Step.capture m.env m.frame.table scope.upvalues limits.capture
  exact h.closeFunction name parameters body scope captured.1
    { m.record (.captureAnalysis span scope) with env := captured.2 } _
    (h.captureAnalysis span scope hlogs)

theorem defaultValue (heval : P.Exprs eval eval') (span span' : Span) (name : String) :
    ∀ default : Option Expr, Eval.Paired P (Step.defaultValue eval (.mk span name default))
      (Step.defaultValue eval' (.mk span' name (default.map (·.relocate P.relocation))))
  | none => .pure none
  | some e => .map some (heval e)

theorem define (table : TableRef) (name : String) (value : Option Value) :
    Eval.Paired P (Eval.update (·.define table name value))
      (Eval.update (·.define table name value)) :=
  .update (fun _ => rfl) (fun _ => rfl) fun _ _ => rfl

/-- Parameters are bound to the same values, from arguments or from defaults. -/
theorem bindParameters (heval : P.Exprs eval eval') (table : TableRef) :
    ∀ (ps : List Parameter) (args : List Value),
      Eval.Paired P (Step.bindParameters eval table ps args)
        (Step.bindParameters eval' table (relocateParameters P.relocation ps) args)
  | [], _ => .pure ()
  -- An argument is bound whether or not there is a default; the default matters to the moved code.
  | .mk _ name none :: ps, a :: as =>
    .bind (define table name (some a)) fun _ => bindParameters heval table ps as
  | .mk _ name (some _) :: ps, a :: as =>
    .bind (define table name (some a)) fun _ => bindParameters heval table ps as
  | .mk span name none :: ps, [] =>
    .bind (defaultValue heval span _ name none) fun value =>
      .bind (define table name value) fun _ => bindParameters heval table ps []
  | .mk span name (some e) :: ps, [] =>
    .bind (defaultValue heval span _ name (some e)) fun value =>
      .bind (define table name value) fun _ => bindParameters heval table ps []

/-- Plain events are on record on both sides. -/
theorem recording (h : P.Sound limits limits') {event : LogEvent} (hplain : event.isPlain = true) :
    Eval.Paired P (Eval.update (·.record event)) (Eval.update (·.record event)) :=
  fun m log hlogs => .done () (m.record event) (log.push event) (h.record event hplain hlogs)

/-- Built-in functions do the same on both sides, and fail alike. -/
theorem callNative (h : P.Sound limits limits') (f : NativeFunction) (label : String)
    (args : List Value) (span : Span) :
    Eval.Paired P (Step.callNative limits.maxDigits f label args span)
      (Step.callNative limits'.maxDigits f label args (P.relocation.expr span)) := by
  refine .bind (h.recording rfl) fun _ m log hlogs => ?_
  have heffect : f.effect limits.maxDigits (m.beside P.relocation log).heap args =
      f.effect limits.maxDigits m.heap args := f.effect_relocate limits.maxDigits m.heap args
  rw [f.run_eq_effect, f.run_eq_effect, h.maxDigits, heffect]
  cases hresult : f.effect limits.maxDigits m.heap args with
  | error fault =>
    have hshallow := Shallow.native limits.maxDigits f m.heap args fault hresult
    exact .failed fault span m log (h.fault fault hshallow) hlogs
  | ok effect =>
    have hvalue : effect.value (m.beside P.relocation log).heap = effect.value m.heap :=
      effect.value_relocate m.heap
    unfold Effect.outcome
    dsimp only
    rw [Machine.perform_beside, hvalue]
    exact .done _ (m.perform effect) log hlogs

/-- A call runs on both sides in a frame of its own. -/
theorem runCall (h : P.Sound limits limits') (heval : P.Exprs eval eval') (hrun : P.Bodies run run')
    (f : UserFunction) (table : TableRef) (label : String) (args : List Value) {m : Machine}
    {log : Array LogEvent} (hlogs : P.logs (m.depth + 1) m.log log) :
    (Step.runCall eval run f table label args m).Paired P
      (Step.runCall eval' run' (f.relocate P.relocation) table label args
        (m.beside P.relocation log)) := by
  have hbody : Eval.Paired P
      (do Step.bindParameters eval table f.parameters args; run f.body.statements)
      (do Step.bindParameters eval' table (relocateParameters P.relocation f.parameters) args
          run' (f.body.relocate P.relocation).statements) := by
    refine .bind (bindParameters heval table f.parameters args) fun _ => ?_
    rw [Block.statements_relocate]
    exact hrun f.body.statements
  exact h.mapMachine_leave
    (hbody (m.enter { table, globalNames := f.globalNames, label := some label }) log hlogs)

/-- A call is refused on both sides or on neither, unless the limits may differ. -/
theorem callUser (h : P.Sound limits limits') (heval : P.Exprs eval eval')
    (hrun : P.Bodies run run') (f : UserFunction) (label : String) (args : List Value)
    (span : Span) :
    Eval.Paired P (Step.callUser limits eval run f label args span)
      (Step.callUser limits' eval' run' (f.relocate P.relocation) label args
        (P.relocation.expr span)) := by
  intro m log hlogs
  have hlength : (f.relocate P.relocation).parameters.length = f.parameters.length :=
    length_relocateParameters f.parameters
  let event := LogEvent.call label args.length (m.depth + 1)
  have hprepared : (m.beside P.relocation log).prepared (f.relocate P.relocation) label
      args.length = (m.prepared f label args.length).beside P.relocation (log.push event) := rfl
  rw [callUser_apply, callUser_apply, hlength, hprepared]
  by_cases hargs : f.parameters.length < args.length
  · rw [if_pos hargs, if_pos hargs]
    exact .failed _ span m log (h.fault _ rfl) hlogs
  · rw [if_neg hargs, if_neg hargs]
    by_cases hdepth : limits.maxCallDepth ≤ m.depth
    -- At the limit of the left side the right one may go on, unless its limit is the same.
    · rw [if_pos hdepth]
      rcases h.refuse label args.length span hdepth hlogs with hescape | ⟨hsame, hfault, hlogs'⟩
      · exact .escaped _ (m.prepared f label args.length) _ hescape
      · have hdepth' : limits'.maxCallDepth ≤ (m.beside P.relocation log).depth :=
          hsame.symm ▸ hdepth
        rw [if_pos hdepth', hsame]
        exact .failed _ span (m.prepared f label args.length) _ hfault hlogs'
    · have hbelow : m.depth < limits.maxCallDepth := Nat.lt_of_not_le hdepth
      have hdepth' : ¬limits'.maxCallDepth ≤ (m.beside P.relocation log).depth :=
        Nat.not_le_of_lt (Nat.lt_of_lt_of_le hbelow h.maxCallDepth)
      rw [if_neg hdepth, if_neg hdepth']
      exact h.runCall heval hrun f _ label args (h.enter label args.length hbelow hlogs)

/-- The same value is called on both sides. -/
theorem callValue (h : P.Sound limits limits') (heval : P.Exprs eval eval')
    (hrun : P.Bodies run run') (callee : Value) (args : List Value) (span : Span)
    (name : Option String) :
    Eval.Paired P (Step.callValue limits eval run callee args span name)
      (Step.callValue limits' eval' run' callee args (P.relocation.expr span) name) := by
  cases callee with
  | function ref =>
    refine .machine_bind fun m log => ?_
    have hfunction : (m.beside P.relocation log).heap.function? ref =
        (m.heap.function? ref).map (Function.relocate P.relocation) :=
      m.heap.function?_relocate ref
    rw [hfunction]
    cases m.heap.function? ref with
    | none => exact .fail (h.fault _ rfl) span
    | some function =>
      cases function with
      | native f => exact h.callNative f _ args span
      | user f => exact h.callUser heval hrun f _ args span
  | number | string | boolean | array | dictionary => exact .fail (h.fault _ rfl) span

/-! ### Expressions -/

theorem readVariable (h : P.Sound limits limits') (name : String) (span : Span) :
    Eval.Paired P (Step.readVariable name span)
      (Step.readVariable name (P.relocation.expr span)) := by
  intro m log hlogs
  have hlookup : (m.beside P.relocation log).lookup? name = m.lookup? name := rfl
  unfold Step.readVariable
  rw [hlookup]
  cases m.lookup? name with
  | some value => exact .done value m log hlogs
  | none => exact .failed _ span m log (h.fault _ rfl) hlogs

theorem condition (h : P.Sound limits limits') (heval : P.Exprs eval eval') (e : Expr) :
    Eval.Paired P (Step.condition eval e) (Step.condition eval' (e.relocate P.relocation)) := by
  refine .bind (heval e) fun v => ?_
  rw [e.span_relocate]
  exact h.shallow (.toBoolean v) e.span

/-- Arithmetic gives the same on both sides, up to what the pairing says about its limits. -/
theorem arithmeticResult (h : P.Sound limits limits') (op : ArithmeticOp) (x y : Decimal)
    (span : Span) :
    Eval.Paired P (Eval.ofExcept span (Step.arithmetic limits op x y))
      (Eval.ofExcept (P.relocation.expr span) (Step.arithmetic limits' op x y)) := by
  rcases h.arithmetic op x y with heq | ⟨fault, hfault, hescape⟩
  · rw [heq]
    exact h.shallow (.arithmetic limits op x y) span
  · rw [hfault]
    exact fun m log _ => .escaped _ m _ (hescape span m.log)

/-- Operations are paired with their operands, of which the right one may not be reached. -/
theorem binary (h : P.Sound limits limits') (heval : P.Exprs eval eval') (span : Span)
    (op : BinaryOp) (left right : Expr) :
    Eval.Paired P (Step.binary limits eval span op left right)
      (Step.binary limits' eval' (P.relocation.expr span) op (left.relocate P.relocation)
        (right.relocate P.relocation)) := by
  cases op with
  | and =>
    refine .bind (h.condition heval left) fun _ => .ite ?_ (.pure _)
    exact .bind (h.condition heval right) fun _ => .pure _
  | or =>
    refine .bind (h.condition heval left) fun _ => .ite (.pure _) ?_
    exact .bind (h.condition heval right) fun _ => .pure _
  | concat =>
    -- The text of a value does not mention places, so both heaps write it alike.
    refine .bind (heval left) fun a => .bind (heval right) fun b => .machine_bind fun m log => ?_
    have hwrite : (m.beside P.relocation log).heap.write = m.heap.write := m.heap.write_relocate
    dsimp only
    rw [hwrite, h.maxDigits, left.span_relocate, right.span_relocate]
    refine .bind (h.shallow (.write m.heap _ a) left.span) fun text => ?_
    exact .bind (h.shallow (.write m.heap _ b) right.span) fun _ => .pure _
  | relation r =>
    refine .bind (heval left) fun a => .bind (heval right) fun b => ?_
    exact .bind (h.shallow (.relation r a b) span) fun _ => .pure _
  | arithmetic op =>
    refine .bind (heval left) fun a => .bind (heval right) fun b => ?_
    rw [left.span_relocate, right.span_relocate]
    refine .bind (h.shallow (.toNumber a) left.span) fun x => ?_
    refine .bind (h.shallow (.toNumber b) right.span) fun y => ?_
    exact .bind (h.arithmeticResult op x y span) fun _ => .pure _

theorem unary (h : P.Sound limits limits') (heval : P.Exprs eval eval') (op : UnaryOp)
    (operand : Expr) :
    Eval.Paired P (Step.unary eval op operand)
      (Step.unary eval' op (operand.relocate P.relocation)) := by
  refine .bind (heval operand) fun v => ?_
  rw [operand.span_relocate]
  cases op with
  | negate => exact .bind (h.shallow (.toNumber v) operand.span) fun _ => .pure _
  | not => exact .bind (h.shallow (.toBoolean v) operand.span) fun _ => .pure _

/-- Lookups find the same elements. -/
theorem element (h : P.Sound limits limits') (heap : Heap) (container key : Value)
    (targetSpan keySpan : Span) :
    Eval.Paired P (Step.element limits.maxDigits heap container key targetSpan keySpan)
      (Step.element limits'.maxDigits (heap.relocate P.relocation) container key
        (P.relocation.expr targetSpan) (P.relocation.expr keySpan)) := by
  cases container with
  | array ref =>
    have harray : (heap.relocate P.relocation).array ref = heap.array ref := rfl
    unfold Step.element
    dsimp only
    rw [harray]
    refine .bind (h.shallow (.toIndex _ key) keySpan) fun index => ?_
    cases (heap.array ref)[index]? with
    | some value => exact .pure value
    | none => exact .fail (h.fault _ rfl) targetSpan
  | dictionary ref =>
    have hdictionary : (heap.relocate P.relocation).dictionary ref = heap.dictionary ref := rfl
    unfold Step.element
    dsimp only
    -- The key is only written for the message, where both sides spell it the same.
    rw [hdictionary, heap.write_relocate, h.maxDigits]
    cases (heap.dictionary ref).get? key with
    | some value => exact .pure value
    | none =>
      exact .bind (h.shallow (.write heap _ key) keySpan) fun _ => .fail (h.fault _ rfl) keySpan
  | number | string | boolean | function => exact .fail (h.fault _ rfl) targetSpan

theorem exprs (heval : P.Exprs eval eval') (es : List Expr) :
    Eval.Paired P (all eval es) (all eval' (relocateExprs P.relocation es)) := by
  induction es with
  | nil => exact .pure []
  | cons e es ih => exact .bind (heval e) fun _ => .bind ih fun _ => .pure _

theorem entries (heval : P.Exprs eval eval') (es : List Entry) :
    Eval.Paired P (Step.entries eval es)
      (Step.entries eval' (relocateEntries P.relocation es)) := by
  induction es with
  | nil => exact .pure []
  | cons entry es ih =>
    obtain ⟨key, value⟩ := entry
    refine .bind (.bind (heval key) fun _ => .bind (heval value) fun _ => .pure _) fun _ => ?_
    exact .bind ih fun _ => .pure _

theorem callee (h : P.Sound limits limits') (heval : P.Exprs eval eval') (e : Expr) :
    Eval.Paired P (Step.callee eval e) (Step.callee eval' (e.relocate P.relocation)) := by
  cases e with
  | name span name =>
    intro m log hlogs
    have hlookup : (m.beside P.relocation log).lookup? name = m.lookup? name := rfl
    simp only [Expr.relocate, Step.callee, Step.namedCallee, hlookup]
    cases m.lookup? name with
    | some value => exact .done (value, some name) m log hlogs
    | none => exact .failed _ span m log (h.fault _ rfl) hlogs
  | _ => exact .bind (heval _) fun _ => .pure _

/-- Calls are paired with their targets and arguments. -/
theorem call (h : P.Sound limits limits') (heval : P.Exprs eval eval') (hrun : P.Bodies run run')
    (span : Span) (target : Expr) (arguments : List Expr) :
    Eval.Paired P (Step.call limits eval run span target arguments)
      (Step.call limits' eval' run' (P.relocation.expr span) (target.relocate P.relocation)
        (relocateExprs P.relocation arguments)) := by
  refine .bind (h.callee heval target) fun ⟨function, name⟩ => ?_
  dsimp only
  rw [target.span_relocate]
  refine .ite (.fail (h.fault _ rfl) target.span) ?_
  exact .bind (exprs heval arguments) fun args => h.callValue heval hrun function args span name

theorem newArray (elements : List Value) :
    Eval.Paired P (Eval.newArray elements) (Eval.newArray elements) :=
  fun m log hlogs => .done _ { m with heap := (m.heap.addArray elements.toArray).2 } log hlogs

theorem newDictionary (dictionary : Dictionary) :
    Eval.Paired P (Eval.newDictionary dictionary) (Eval.newDictionary dictionary) :=
  fun m log hlogs => .done _ { m with heap := (m.heap.addDictionary dictionary).2 } log hlogs

/-- A step of an expression keeps evaluations beside each other if its parts do. -/
theorem exprStep (h : P.Sound limits limits') (heval : P.Exprs eval eval')
    (hrun : P.Bodies run run') (e : Expr) :
    Eval.Paired P (Step.expr limits eval run e)
      (Step.expr limits' eval' run' (e.relocate P.relocation)) := by
  -- One case a construct: the evaluations of its parts are paired by hypothesis, and what it does
  -- between them reads no place except to report it.
  cases e with
  | number | string | boolean => exact .pure _
  | name span name => exact h.readVariable name span
  | lookup span target key =>
    refine .bind (heval target) fun container => .bind (heval key) fun index => ?_
    refine .machine_bind fun m log => ?_
    rw [target.span_relocate, key.span_relocate]
    exact h.element m.heap container index target.span key.span
  | binary span op left right => exact h.binary heval span op left right
  | unary span op operand => exact h.unary heval op operand
  | array span elements => exact .bind (exprs heval elements) fun _ => newArray _
  | dictionary span es => exact .bind (entries heval es) fun _ => newDictionary _
  | function span parameters body => exact h.makeFunction none span parameters body
  | call span target arguments =>
    refine .bind (h.call heval hrun span target arguments) fun value => ?_
    cases value with
    | some value => exact .pure value
    | none => exact .fail (h.fault _ rfl) span

/-! ### Statements -/

theorem sequence (hexec : P.Stmts exec exec') :
    ∀ ss last, Eval.Paired P (Eval.sequence exec last ss)
      (Eval.sequence exec' last (relocateStmts P.relocation ss))
  | [], last => .pure last
  | s :: ss, _ => by
    refine .bind (hexec s) fun result => .pending_bind fun p => ?_
    cases p with
    | some value => exact .pure (some value)
    | none => exact sequence hexec ss result

theorem block (hexec : P.Stmts exec exec') (b : Block) :
    Eval.Paired P (Step.block exec b) (Step.block exec' (b.relocate P.relocation)) := by
  unfold Step.block
  rw [b.statements_relocate]
  exact sequence hexec b.statements none

theorem assignVariable (name : String) (value : Value) :
    Eval.Paired P (Step.assignVariable name value) (Step.assignVariable name value) :=
  .update (fun _ => rfl) (fun _ => rfl) fun _ _ => rfl

theorem assignedValue (h : P.Sound limits limits') (heval : P.Exprs eval eval') (name : String)
    (e : Expr) : Eval.Paired P (Step.assignedValue limits eval name e)
      (Step.assignedValue limits' eval' name (e.relocate P.relocation)) := by
  cases e with
  | function span parameters body => exact h.makeFunction (some name) span parameters body
  | _ => exact heval _

/-- Stores change the same elements. -/
theorem storeElement (h : P.Sound limits limits') (container key value : Value)
    (targetSpan keySpan : Span) :
    Eval.Paired P (Step.storeElement container key value targetSpan keySpan)
      (Step.storeElement container key value (P.relocation.expr targetSpan)
        (P.relocation.expr keySpan)) := by
  cases container with
  | array ref =>
    refine .machine_bind fun m log => .bind (h.shallow (.toIndex _ key) keySpan) fun index => ?_
    exact .update (fun _ => rfl) (fun _ => rfl) fun _ _ => rfl
  | dictionary ref => exact .update (fun _ => rfl) (fun _ => rfl) fun _ _ => rfl
  | number | string | boolean | function => exact .fail (h.fault _ rfl) targetSpan

/-- Changing the active frame enters and leaves no call. -/
theorem modifyFrame (g : Frame → Frame) :
    Eval.Paired P (Eval.update (·.modifyFrame g)) (Eval.update (·.modifyFrame g)) := by
  refine .update ?_ ?_ ?_
  -- The active frame is that of the innermost call, or else the bottom frame.
  all_goals
    rintro ⟨env, heap, root, calls, output, log⟩
    cases calls <;> intros <;> rfl

theorem declareGlobal (h : P.Sound limits limits') (name : String) :
    Eval.Paired P (Eval.update (Step.declareGlobal · name))
      (Eval.update (Step.declareGlobal · name)) := by
  have himport : Eval.Paired P
      (Eval.update fun m =>
        if m.env.isGlobal m.frame.table then m
        else (m.importGlobal m.frame.table name).record (.globalImported m.frame.label name))
      (Eval.update fun m =>
        if m.env.isGlobal m.frame.table then m
        else (m.importGlobal m.frame.table name).record (.globalImported m.frame.label name)) := by
    intro m log hlogs
    have hglobal : (m.beside P.relocation log).env.isGlobal
        (m.beside P.relocation log).frame.table = m.env.isGlobal m.frame.table := rfl
    unfold Eval.update
    dsimp only
    rw [hglobal]
    split
    · exact .done () m log hlogs
    · exact .done () ((m.importGlobal m.frame.table name).record _) _ (h.record _ rfl hlogs)
  exact .bind (modifyFrame fun frame => { frame with globalNames := frame.globalNames.add name })
    fun _ => himport

theorem declareGlobals (h : P.Sound limits limits') :
    ∀ names : List String, Eval.Paired P (Eval.update fun m => names.foldl Step.declareGlobal m)
      (Eval.update fun m => names.foldl Step.declareGlobal m)
  | [] => .pure ()
  | name :: names => .bind (h.declareGlobal name) fun _ => declareGlobals h names

theorem otherwise (h : P.Sound limits limits') (heval : P.Exprs eval eval')
    (hexec : P.Stmts exec exec') :
    ∀ o, Eval.Paired P (Step.otherwise eval exec o)
      (Step.otherwise eval' exec' (o.relocate P.relocation))
  | .nothing => .pure _
  | .block b => block hexec b
  | .branch _ test body later =>
    .bind (h.condition heval test) fun _ => .ite (block hexec body) (otherwise h heval hexec later)

theorem each (h : P.Sound limits limits') (hexec : P.Stmts exec exec') (source : Value)
    (span : Span) (key : Option String) (value : String) (body : Block) :
    Eval.Paired P (Step.each exec source span key value body)
      (Step.each exec' source (P.relocation.expr span) key value (body.relocate P.relocation)) := by
  -- The rounds go over the entries as they stand when the loop starts, which both sides share.
  refine .machine_bind fun m log => ?_
  have hbody := block hexec body
  cases source with
  | array ref =>
    cases key with
    | none =>
      have hround : ∀ v, Eval.Paired P (do Step.assignVariable value v; Step.block exec body)
          (do Step.assignVariable value v; Step.block exec' (body.relocate P.relocation)) :=
        fun v => .bind (assignVariable value v) fun _ => hbody
      exact .forEach hround (m.heap.array ref).toList none
    | some key => exact .fail (h.fault _ rfl) span
  | dictionary ref =>
    cases key with
    | none => exact .fail (h.fault _ rfl) span
    | some key =>
      have hround : ∀ entry : Value × Value,
          Eval.Paired P
            (do Step.assignVariable key entry.1
                Step.assignVariable value entry.2
                Step.block exec body)
            (do Step.assignVariable key entry.1
                Step.assignVariable value entry.2
                Step.block exec' (body.relocate P.relocation)) :=
        fun entry => .bind (assignVariable key entry.1) fun _ =>
          .bind (assignVariable value entry.2) fun _ => hbody
      exact .forEach hround (m.heap.dictionary ref).entries none
  | number | string | boolean | function => exact .fail (h.fault _ rfl) span

/-- A step of a statement keeps evaluations beside each other if its parts do. -/
theorem stmtStep (h : P.Sound limits limits') {budget budget' : Nat}
    (hbudget : P.Budgets budget budget') (heval : P.Exprs eval eval') (hexec : P.Stmts exec exec')
    (s : Stmt) :
    Eval.Paired P (Step.stmt limits budget eval exec s)
      (Step.stmt limits' budget' eval' exec' (s.relocate P.relocation)) := by
  cases s with
  | assignVariable span nameSpan name value =>
    refine .bind (h.assignedValue heval name value) fun v => ?_
    exact .bind (assignVariable name v) fun _ => .pure _
  | assignElement span lookupSpan target key value =>
    refine .bind (heval value) fun v => .bind (heval target) fun container => ?_
    refine .bind (heval key) fun index => ?_
    rw [target.span_relocate, key.span_relocate]
    exact .bind (h.storeElement container index v target.span key.span) fun _ => .pure _
  | call span callSpan target arguments =>
    exact h.call heval (fun ss => sequence hexec ss none) callSpan target arguments
  | ret span value =>
    exact .bind (heval value) fun v => .bind (modifyFrame _) fun _ => .pure _
  | declareGlobal span names => exact .bind (h.declareGlobals names) fun _ => .pure _
  | branch span test body later =>
    refine .bind (h.condition heval test) fun _ => .ite (block hexec body) ?_
    exact h.otherwise heval hexec later
  | loop span test body =>
    -- The budget is the one number in which the two runs may differ.
    exact .whileTrue (h.condition heval test) (block hexec body) hbudget none
  | each span source key value body =>
    refine .bind (heval source) fun v => ?_
    rw [source.span_relocate]
    exact h.each hexec v source.span key value body

end Steps

/-- **Evaluation keeps what a sound pairing allows**: code and the same code at its other places end
beside each other. By induction on the left budget. -/
theorem evaluation (h : P.Sound limits limits') :
    ∀ {budget budget' : Nat}, P.Budgets budget budget' →
      P.Exprs (evalExpr limits budget) (evalExpr limits' budget') ∧
        P.Stmts (execStmt limits budget) (execStmt limits' budget')
  | 0, _, hbudget =>
    ⟨fun e => .exhausted (y := fun budget => evalExpr limits' budget (e.relocate P.relocation))
        hbudget rfl,
      fun s => .exhausted (y := fun budget => execStmt limits' budget (s.relocate P.relocation))
        hbudget rfl⟩
  | budget + 1, _, hbudget => by
    obtain ⟨later, rfl, hlater⟩ := hbudget.succ
    obtain ⟨heval, hexec⟩ := evaluation h hlater
    refine ⟨fun e => ?_, fun s => ?_⟩
    · exact h.exprStep heval (fun ss => sequence hexec ss none) e
    · exact h.stmtStep hlater heval hexec s

/-- Programs and bodies end beside each other. -/
theorem bodies (h : P.Sound limits limits') {budget budget' : Nat}
    (hbudget : P.Budgets budget budget') (last : Option Value) :
    P.Bodies (Eval.sequence (execStmt limits budget) last)
      (Eval.sequence (execStmt limits' budget') last) :=
  fun ss => sequence (h.evaluation hbudget).2 ss last

end Pairing.Sound

end DecimalScript
