import DecimalScript.Proofs.Transitions

/-!
# Every evaluation is made of transitions

`Follows limits script R calls x x'` says of two evaluations, one plain and one with breakpoints,
that from every machine which forms a situation in `R` with the calls in progress they have the same
outcome, and that transitions lead from that machine to the one at the end with the same calls in
progress. If no breakpoint is for a machine in `R`, and no transition leaves `R`, this holds of
every expression and every statement: by induction on the budget, with one lemma per construct.

- `exprsFollow_step`, `stmtsFollow_step`: one more unit of budget.
- `evaluation_follows`: the induction.

What a session passes through is read off from this in `SessionCourse`.
-/

namespace DecimalScript

open Eval

/-- No transition leaves the situations in `R`. -/
def Closed (limits : Limits) (script : Code) (R : Situation → Prop) : Prop :=
  ∀ {c c'}, R c → Transition limits script c c' → R c'

theorem Closed.course {limits : Limits} {script : Code} {R : Situation → Prop}
    (hR : Closed limits script R) {depth : Nat} {c c' : Situation} (hc : R c)
    (h : Course limits script depth c c') : R c' :=
  h.invariant (fun _ hstep hc => hR hc hstep) hc

/-- What is reachable is not left. -/
theorem closed_reachable (limits : Limits) (script : Code) (start : Machine) :
    Closed limits script (Situation.Reachable limits script start) :=
  fun hc hstep => hc.course (.single (Nat.zero_le _) hstep)

/-- Some code does no more than `code` says. -/
structure Code.Covers (code : Code) (literals : List Literal) (declares : String → Bool) : Prop where
  literal : ∀ l ∈ literals, code.literal l
  declared : ∀ n, declares n = true → code.declares n

namespace Code.Covers

variable {code : Code} {as bs : List Literal} {p q : String → Bool}

/-- Code that covers statements in a row covers both halves. -/
theorem append (h : code.Covers (as ++ bs) fun n => p n || q n) :
    code.Covers as p ∧ code.Covers bs q := by
  obtain ⟨has, hbs⟩ := List.forall_mem_append.mp h.literal
  exact ⟨⟨has, fun n hn => h.declared n (Bool.or_eq_true_iff.mpr (.inl hn))⟩,
    ⟨hbs, fun n hn => h.declared n (Bool.or_eq_true_iff.mpr (.inr hn))⟩⟩

/-- Expressions declare nothing. -/
theorem append_expr (h : code.Covers (as ++ bs) q) :
    (∀ l ∈ as, code.literal l) ∧ code.Covers bs q := by
  obtain ⟨has, hbs⟩ := List.forall_mem_append.mp h.literal
  exact ⟨has, ⟨hbs, h.declared⟩⟩

end Code.Covers

/-- From situations in `R`, two evaluations have the same outcome, and transitions lead to its
machine without leaving the calls in progress. -/
def Follows {α : Type} (limits : Limits) (script : Code) (R : Situation → Prop)
    (calls : List Activation) (x x' : Eval α) : Prop :=
  ∀ m, R ⟨m, calls⟩ →
    x' m = x m ∧ Course limits script calls.length ⟨m, calls⟩ ⟨(x m).machine, calls⟩

namespace Follows

variable {α β : Type} {limits : Limits} {script : Code} {R : Situation → Prop}
  {calls : List Activation}

theorem pure (a : α) : Follows limits script R calls (pure a : Eval α) (Pure.pure a) :=
  fun _ _ => ⟨rfl, .refl _⟩

/-- A course goes on where the first evaluation left it. -/
theorem bind (hR : Closed limits script R) {x x' : Eval α} {f f' : α → Eval β}
    (hx : Follows limits script R calls x x')
    (hf : ∀ a, Follows limits script R calls (f a) (f' a)) :
    Follows limits script R calls (x >>= f) (x' >>= f') := by
  intro m hm
  obtain ⟨heq, hcourse⟩ := hx m hm
  rw [bind_apply, bind_apply, heq]
  cases hend : x m with
  | done a later =>
    rw [hend] at hcourse
    obtain ⟨heq', hcourse'⟩ := hf a later (hR.course hm hcourse)
    exact ⟨heq', hcourse.trans hcourse'⟩
  | failed failure later =>
    rw [hend] at hcourse
    exact ⟨rfl, hcourse⟩
  | exhausted later =>
    rw [hend] at hcourse
    exact ⟨rfl, hcourse⟩

theorem map (hR : Closed limits script R) {x x' : Eval α} (f : α → β)
    (hx : Follows limits script R calls x x') :
    Follows limits script R calls (f <$> x) (f <$> x') :=
  .bind hR hx fun a => .pure (f a)

/-- What does not change the machine needs no transition. -/
theorem of_machine_eq {x : Eval α} (h : ∀ m, (x m).machine = m) :
    Follows limits script R calls x x :=
  fun m _ => ⟨rfl, by rw [h m]; exact .refl _⟩

theorem machine : Follows limits script R calls Eval.machine Eval.machine :=
  .of_machine_eq fun _ => rfl

theorem pending : Follows limits script R calls Eval.pending Eval.pending :=
  .of_machine_eq fun _ => rfl

theorem fail (fault : RuntimeFault) (span : Span) :
    Follows limits script R calls (Eval.fail fault span : Eval α) (Eval.fail fault span) :=
  .of_machine_eq fun _ => rfl

theorem exhaust : Follows limits script R calls (Eval.exhaust : Eval α) Eval.exhaust :=
  .of_machine_eq fun _ => rfl

theorem ofExcept (span : Span) (x : Except RuntimeFault α) :
    Follows limits script R calls (Eval.ofExcept span x) (Eval.ofExcept span x) :=
  .of_machine_eq fun _ => by cases x <;> rfl

/-- One transition. -/
theorem step {x : Eval α} (h : ∀ m, Transition limits script ⟨m, calls⟩ ⟨(x m).machine, calls⟩) :
    Follows limits script R calls x x :=
  fun m _ => ⟨rfl, .single (Nat.le_refl _) (h m)⟩

theorem ite {p : Prop} [Decidable p] {x x' y y' : Eval α}
    (hx : Follows limits script R calls x x') (hy : Follows limits script R calls y y') :
    Follows limits script R calls (if p then x else y) (if p then x' else y') := by
  split
  · exact hx
  · exact hy

/-- Without a breakpoint for the machines in `R`, looking for one changes nothing. -/
theorem stopping {stop : Machine → Option Failure} (hstop : ∀ c, R c → stop c.machine = none)
    {x x' : Eval α} (hx : Follows limits script R calls x x') :
    Follows limits script R calls x (Eval.stopping stop x') := by
  intro m hm
  have hnone : stop m = none := hstop _ hm
  obtain ⟨heq, hcourse⟩ := hx m hm
  refine ⟨?_, hcourse⟩
  unfold Eval.stopping
  rw [hnone]
  exact heq

/-! ### Repetition -/

/-- The rounds of a loop are steps of one course. -/
theorem forEach (hR : Closed limits script R) {body body' : α → Eval (Option Value)}
    (h : ∀ a, Follows limits script R calls (body a) (body' a)) :
    ∀ as last, Follows limits script R calls (Eval.forEach body last as)
      (Eval.forEach body' last as)
  | [], last => .pure last
  | a :: as, _ => by
    refine .bind hR (h a) fun result => .bind hR .pending fun p => ?_
    cases p with
    | some _ => exact .pure result
    | none => exact Follows.forEach hR h as result

/-- The tests and rounds of a loop are steps of one course, for every budget. -/
theorem whileTrue (hR : Closed limits script R) {test test' : Eval Bool}
    {body body' : Eval (Option Value)} (htest : Follows limits script R calls test test')
    (hbody : Follows limits script R calls body body') :
    ∀ budget last, Follows limits script R calls (Eval.whileTrue test body budget last)
      (Eval.whileTrue test' body' budget last)
  | 0, _ => .exhaust
  | budget + 1, last => by
    refine .bind hR htest fun holds => .ite ?_ (.pure last)
    refine .bind hR hbody fun result => .bind hR .pending fun p => ?_
    cases p with
    | some _ => exact .pure result
    | none => exact Follows.whileTrue hR htest hbody budget result

end Follows

section Steps

variable {limits : Limits} {script : Code} {R : Situation → Prop} {calls : List Activation}
  {eval eval' : Expr → Eval Value} {run run' : List Stmt → Eval (Option Value)}
  {exec exec' : Stmt → Eval (Option Value)}

/-- Two evaluations of expressions follow the same courses, whatever calls are in progress. -/
def ExprsFollow (limits : Limits) (script : Code) (R : Situation → Prop)
    (eval eval' : Expr → Eval Value) : Prop :=
  ∀ calls e, (∀ l ∈ Literals.inExpr e, (script.active calls).literal l) →
    Follows limits script R calls (eval e) (eval' e)

/-- Two executions of statements follow the same courses where statements run. -/
def StmtsFollow (limits : Limits) (script : Code) (R : Situation → Prop)
    (exec exec' : Stmt → Eval (Option Value)) : Prop :=
  ∀ calls s, Settled calls →
    (script.active calls).Covers (Literals.inStmt s) (fun n => Declares.inStmt n s) →
    Follows limits script R calls (exec s) (exec' s)

/-- Two executions of lists of statements follow the same courses where statements run. -/
def BodiesFollow (limits : Limits) (script : Code) (R : Situation → Prop)
    (run run' : List Stmt → Eval (Option Value)) : Prop :=
  ∀ calls ss, Settled calls →
    (script.active calls).Covers (Literals.inStmts ss) (fun n => Declares.inStmts n ss) →
    Follows limits script R calls (run ss) (run' ss)

/-- Statements in a row are steps of one course, while no return is pending outside. -/
theorem follows_sequence (hR : Closed limits script R)
    (hexec : StmtsFollow limits script R exec exec') (hsettled : Settled calls) :
    ∀ ss last, (script.active calls).Covers (Literals.inStmts ss) (fun n => Declares.inStmts n ss) →
      Follows limits script R calls (sequence exec last ss) (sequence exec' last ss)
  | [], last, _ => .pure last
  | s :: ss, _, hcode => by
    obtain ⟨hs, hss⟩ := hcode.append
    refine .bind hR (hexec calls s hsettled hs) fun result => .bind hR .pending fun p => ?_
    cases p with
    | some value => exact .pure (some value)
    | none => exact follows_sequence hR hexec hsettled ss result hss

/-! ### Calls -/

/-- A default is evaluated on the way to the body, or there is nothing to evaluate. -/
theorem follows_defaultValue (hR : Closed limits script R)
    (heval : ExprsFollow limits script R eval eval') (span : Span) (name : String) :
    ∀ default : Option Expr,
      (∀ l ∈ Literals.inDefault default, (script.active calls).literal l) →
      Follows limits script R calls (Step.defaultValue eval (.mk span name default))
        (Step.defaultValue eval' (.mk span name default))
  | none, _ => .pure none
  | some e, hcode => .map hR some (heval calls e hcode)

/-- Binding parameters is a course that binds them one after the other; defaults run with the calls
that are in progress then. -/
theorem follows_bindParameters (hR : Closed limits script R)
    (heval : ExprsFollow limits script R eval eval')
    (hframes : ∀ e, Keeps Machine.FramesKept (eval e)) (f : UserFunction) (table : TableRef) :
    ∀ (ps : List Parameter) (args : List Value) (m : Machine), R ⟨m, ⟨f, ps⟩ :: calls⟩ →
      m.frame.table = table → (∀ l ∈ Literals.inParameters ps, f.code.literal l) →
      Step.bindParameters eval' table ps args m = Step.bindParameters eval table ps args m ∧
        ∃ rest, Course limits script (calls.length + 1) ⟨m, ⟨f, ps⟩ :: calls⟩
            ⟨(Step.bindParameters eval table ps args m).machine, ⟨f, rest⟩ :: calls⟩ ∧
          ∀ later, Step.bindParameters eval table ps args m = .done () later → rest = []
  | [], _, m, _, _, _ => ⟨rfl, [], .refl _, fun _ _ => rfl⟩
  | p :: ps, a :: as, m, hm, htable, hcode => by
    obtain ⟨span, name, default⟩ := p
    have hbind : Transition limits script ⟨m, ⟨f, .mk span name default :: ps⟩ :: calls⟩
        ⟨m.define table name (some a), ⟨f, ps⟩ :: calls⟩ :=
      htable ▸ .bindParameter m calls f (.mk span name default) ps (some a)
    obtain ⟨heq, rest, hcourse, hdone⟩ := follows_bindParameters hR heval hframes f table ps as
      (m.define table name (some a)) (hR hm hbind) htable
      (List.forall_mem_append.mp hcode).2
    exact ⟨heq, rest, (Course.single (Nat.le_refl _) hbind).trans hcourse, hdone⟩
  | p :: ps, [], m, hm, htable, hcode => by
    obtain ⟨span, name, default⟩ := p
    obtain ⟨hdefault, hcode⟩ := List.forall_mem_append.mp hcode
    have hfollows : Follows limits script R (⟨f, .mk span name default :: ps⟩ :: calls)
        (Step.defaultValue eval (.mk span name default))
        (Step.defaultValue eval' (.mk span name default)) :=
      follows_defaultValue hR heval span name default hdefault
    obtain ⟨heq, hcourse⟩ := hfollows m hm
    have hkept := (stable_continues limits).defaultValue hframes (.mk span name default) m
    unfold Step.bindParameters
    rw [bind_apply, bind_apply, heq]
    -- If the default gives no value, its parameter and those behind it stay unbound.
    cases hvalue : Step.defaultValue eval (.mk span name default) m with
    | failed failure later =>
      rw [hvalue] at hcourse
      exact ⟨rfl, _, hcourse, fun _ h => by cases h⟩
    | exhausted later =>
      rw [hvalue] at hcourse
      exact ⟨rfl, _, hcourse, fun _ h => by cases h⟩
    | done value later =>
      rw [hvalue] at hcourse hkept
      have htable' : later.frame.table = table :=
        (congrArg Frame.table (Machine.frame_eq_of_frames hkept)).trans htable
      have hbind : Transition limits script ⟨later, ⟨f, .mk span name default :: ps⟩ :: calls⟩
          ⟨later.define table name value, ⟨f, ps⟩ :: calls⟩ :=
        htable' ▸ .bindParameter later calls f (.mk span name default) ps value
      obtain ⟨heq', rest, hcourse', hdone⟩ := follows_bindParameters hR heval hframes f table ps []
        (later.define table name value) (hR (hR.course hm hcourse) hbind) htable' hcode
      exact ⟨heq', rest, hcourse.trans ((Course.single (Nat.le_refl _) hbind).trans hcourse'),
        hdone⟩

/-- A run of a function, from the machine in which its frame is on top, with the parameters and then
the body. -/
theorem follows_body (hR : Closed limits script R)
    (heval : ExprsFollow limits script R eval eval')
    (hframes : ∀ e, Keeps Machine.FramesKept (eval e))
    (hrun : BodiesFollow limits script R run run') (f : UserFunction) (args : List Value)
    {m : Machine} (hm : R ⟨m, ⟨f, f.parameters⟩ :: calls⟩) :
    let body := do
      Step.bindParameters eval m.frame.table f.parameters args
      run f.body.statements
    let body' := do
      Step.bindParameters eval' m.frame.table f.parameters args
      run' f.body.statements
    body' m = body m ∧ ∃ rest, Course limits script (calls.length + 1)
      ⟨m, ⟨f, f.parameters⟩ :: calls⟩ ⟨(body m).machine, ⟨f, rest⟩ :: calls⟩ := by
  obtain ⟨heq, rest, hcourse, hdone⟩ := follows_bindParameters hR heval hframes f m.frame.table
    f.parameters args m hm rfl fun l hl => List.mem_append_left _ hl
  dsimp only
  rw [bind_apply, bind_apply, heq]
  cases hend : Step.bindParameters eval m.frame.table f.parameters args m with
  | failed failure later =>
    rw [hend] at hcourse
    exact ⟨rfl, rest, hcourse⟩
  | exhausted later =>
    rw [hend] at hcourse
    exact ⟨rfl, rest, hcourse⟩
  | done u later =>
    rw [hend] at hcourse
    -- All defaults have been evaluated, so what is left of the code is the body alone.
    obtain rfl := hdone later hend
    have hcode : f.code.Covers (Literals.inStmts f.body.statements)
        (fun n => Declares.inStmts n f.body.statements) := by
      refine ⟨fun l hl => List.mem_append_right _ ?_, fun n hn => ?_⟩
      · rw [Literals.inBlock_eq]
        exact hl
      · show Declares.inBlock n f.body = true
        rw [Declares.inBlock_eq]
        exact hn
    obtain ⟨heq', hcourse'⟩ := hrun (⟨f, []⟩ :: calls) f.body.statements rfl hcode later
      (hR.course hm hcourse)
    exact ⟨heq', [], hcourse.trans hcourse'⟩

/-- A call enters its frame, runs the function there and leaves, however the run ends. -/
theorem follows_runCall (hR : Closed limits script R)
    (heval : ExprsFollow limits script R eval eval')
    (hframes : ∀ e, Keeps Machine.FramesKept (eval e))
    (hrun : BodiesFollow limits script R run run') {f : UserFunction} (label : String)
    (args : List Value) {m : Machine} (hm : R ⟨m, calls⟩) (hf : Function.user f ∈ m.heap.functions)
    (hdepth : m.depth < limits.maxCallDepth) :
    let start := m.prepared f label args.length
    Step.runCall eval' run' f ⟨m.env.tables.size⟩ label args start =
        Step.runCall eval run f ⟨m.env.tables.size⟩ label args start ∧
      Course limits script calls.length ⟨m, calls⟩
        ⟨(Step.runCall eval run f ⟨m.env.tables.size⟩ label args start).machine, calls⟩ := by
  intro start
  have henter : Transition limits script ⟨m, calls⟩
      ⟨m.called f label args.length, ⟨f, f.parameters⟩ :: calls⟩ :=
    .enter m calls f label args.length hf hdepth
  obtain ⟨heq, rest, hcourse⟩ := follows_body (m := m.called f label args.length) hR heval hframes
    hrun f args (hR hm henter)
  unfold Step.runCall inFrame
  -- The frame is left on every way out, so the last step of the course does not ask how the body
  -- ended.
  change _ = _ ∧ Course _ _ _ _ ⟨(Outcome.mapMachine Machine.leave _).machine, calls⟩
  constructor
  · exact congrArg (Outcome.mapMachine Machine.leave) heq
  · refine (Course.single (Nat.le_refl _) henter).trans ?_
    refine (hcourse.mono (Nat.le_succ _)).trans ?_
    rw [Outcome.machine_mapMachine]
    exact .single (Nat.le_succ _) (.leave _ ⟨f, rest⟩ calls)

/-- A call of a function of the script: with too many arguments nothing happens; otherwise there is
a new table, and the run with it unless too many calls are in progress. -/
theorem callUser_apply (limits : Limits) (eval : Expr → Eval Value)
    (run : List Stmt → Eval (Option Value)) (f : UserFunction) (label : String) (args : List Value)
    (span : Span) (m : Machine) :
    Step.callUser limits eval run f label args span m =
      if f.parameters.length < args.length then
        .failed (.ofRuntime (.argumentCount label f.parameters.length args.length) span) m
      else if limits.maxCallDepth ≤ m.depth then
        .failed (.ofRuntime (.callDepth limits.maxCallDepth) span) (m.prepared f label args.length)
      else
        Step.runCall eval run f ⟨m.env.tables.size⟩ label args (m.prepared f label args.length) := by
  unfold Step.callUser
  -- The check of the argument count comes first and leaves the machine alone; the refusal at the
  -- depth limit comes after the call has been recorded.
  by_cases hargs : f.parameters.length < args.length
  · rw [if_pos hargs, if_pos hargs]
    rfl
  · rw [if_neg hargs, if_neg hargs]
    show (if limits.maxCallDepth ≤ m.depth then fail (.callDepth limits.maxCallDepth) span
      else Step.runCall eval run f ⟨m.env.tables.size⟩ label args : Eval (Option Value))
        (m.prepared f label args.length) = _
    split <;> rfl

/-- A call enters a situation with one more active call, and leaves it with the frames of the
caller. -/
theorem follows_callUser (hR : Closed limits script R)
    (heval : ExprsFollow limits script R eval eval')
    (hframes : ∀ e, Keeps Machine.FramesKept (eval e))
    (hrun : BodiesFollow limits script R run run') {f : UserFunction} (label : String)
    (args : List Value) (span : Span) {m : Machine} (hm : R ⟨m, calls⟩)
    (hf : Function.user f ∈ m.heap.functions) :
    Step.callUser limits eval' run' f label args span m =
        Step.callUser limits eval run f label args span m ∧
      Course limits script calls.length ⟨m, calls⟩
        ⟨(Step.callUser limits eval run f label args span m).machine, calls⟩ := by
  rw [callUser_apply, callUser_apply]
  split
  · exact ⟨rfl, .refl _⟩
  · split
    · exact ⟨rfl, .single (Nat.le_refl _) (.refuse m calls f label args.length hf)⟩
    · rename_i hdepth
      exact follows_runCall hR heval hframes hrun label args hm hf (Nat.lt_of_not_le hdepth)

/-- A built-in function takes one step, on the heap or the output. -/
theorem follows_callNative (hR : Closed limits script R) (maxDigits : Nat) (f : NativeFunction)
    (label : String) (args : List Value) (span : Span) :
    Follows limits script R calls (Step.callNative maxDigits f label args span)
      (Step.callNative maxDigits f label args span) := by
  refine .bind hR (.step fun m => .record m calls _) fun _ m _ => ⟨rfl, ?_⟩
  rw [f.run_eq_effect]
  cases f.effect maxDigits m.heap args with
  | error fault => exact .refl _
  | ok effect =>
    refine .single (Nat.le_refl _) ?_
    cases effect <;> exact .data m calls _ _ _

/-- Whatever is called, the course goes on behind the call. -/
theorem follows_callValue (hR : Closed limits script R)
    (heval : ExprsFollow limits script R eval eval')
    (hframes : ∀ e, Keeps Machine.FramesKept (eval e))
    (hrun : BodiesFollow limits script R run run') (callee : Value) (args : List Value)
    (span : Span) (name : Option String) :
    Follows limits script R calls (Step.callValue limits eval run callee args span name)
      (Step.callValue limits eval' run' callee args span name) := by
  cases callee with
  | function ref =>
    intro m hm
    simp only [Step.callValue, bind_apply, Eval.machine]
    cases hf : m.heap.function? ref with
    | none => exact ⟨rfl, .refl _⟩
    | some function =>
      cases function with
      | native f => exact follows_callNative hR _ f _ args span m hm
      | user f =>
        exact follows_callUser hR heval hframes hrun _ args span hm (Array.mem_of_getElem? hf)
  | number | string | boolean | array | dictionary => exact .fail _ _

/-! ### Expressions -/

theorem follows_condition (hR : Closed limits script R)
    (heval : ExprsFollow limits script R eval eval') {e : Expr}
    (hcode : ∀ l ∈ Literals.inExpr e, (script.active calls).literal l) :
    Follows limits script R calls (Step.condition eval e) (Step.condition eval' e) :=
  .bind hR (heval calls e hcode) fun _ => .ofExcept _ _

theorem follows_binary (hR : Closed limits script R)
    (heval : ExprsFollow limits script R eval eval') (span : Span) (op : BinaryOp)
    {left right : Expr} (hleft : ∀ l ∈ Literals.inExpr left, (script.active calls).literal l)
    (hright : ∀ l ∈ Literals.inExpr right, (script.active calls).literal l) :
    Follows limits script R calls (Step.binary limits eval span op left right)
      (Step.binary limits eval' span op left right) := by
  have hl := heval calls left hleft
  have hr := heval calls right hright
  -- `and` and `or` may leave their right operand out; every other operator evaluates both before it
  -- looks at either.
  cases op with
  | and =>
    refine .bind hR (follows_condition hR heval hleft) fun _ => .ite ?_ (.pure _)
    exact .bind hR (follows_condition hR heval hright) fun _ => .pure _
  | or =>
    refine .bind hR (follows_condition hR heval hleft) fun _ => .ite (.pure _) ?_
    exact .bind hR (follows_condition hR heval hright) fun _ => .pure _
  | concat =>
    refine .bind hR hl fun _ => .bind hR hr fun _ => .bind hR .machine fun _ => ?_
    exact .bind hR (.ofExcept _ _) fun _ => .bind hR (.ofExcept _ _) fun _ => .pure _
  | relation r =>
    refine .bind hR hl fun _ => .bind hR hr fun _ => ?_
    exact .bind hR (.ofExcept _ _) fun _ => .pure _
  | arithmetic op =>
    refine .bind hR hl fun _ => .bind hR hr fun _ => .bind hR (.ofExcept _ _) fun _ => ?_
    exact .bind hR (.ofExcept _ _) fun _ => .bind hR (.ofExcept _ _) fun _ => .pure _

theorem follows_exprs (hR : Closed limits script R)
    (heval : ExprsFollow limits script R eval eval') :
    ∀ es, (∀ l ∈ Literals.inExprs es, (script.active calls).literal l) →
      Follows limits script R calls (all eval es) (all eval' es)
  | [], _ => .pure []
  | e :: es, hcode => by
    obtain ⟨he, hes⟩ := List.forall_mem_append.mp hcode
    exact .bind hR (heval calls e he) fun _ => .bind hR (follows_exprs hR heval es hes) fun _ =>
      .pure _

theorem follows_entries (hR : Closed limits script R)
    (heval : ExprsFollow limits script R eval eval') :
    ∀ es, (∀ l ∈ Literals.inEntries es, (script.active calls).literal l) →
      Follows limits script R calls (Step.entries eval es) (Step.entries eval' es)
  | [], _ => .pure []
  | .mk key value :: es, hcode => by
    obtain ⟨hentry, hes⟩ := List.forall_mem_append.mp hcode
    obtain ⟨hkey, hvalue⟩ := List.forall_mem_append.mp hentry
    refine .bind hR (.bind hR (heval calls key hkey) fun _ => ?_) fun _ => ?_
    · exact .bind hR (heval calls value hvalue) fun _ => .pure _
    · exact .bind hR (follows_entries hR heval es hes) fun _ => .pure _

theorem follows_element (hR : Closed limits script R) (maxDigits : Nat) (heap : Heap)
    (container key : Value) (targetSpan keySpan : Span) :
    Follows limits script R calls (Step.element maxDigits heap container key targetSpan keySpan)
      (Step.element maxDigits heap container key targetSpan keySpan) := by
  cases container with
  | array ref =>
    refine .bind hR (.ofExcept _ _) fun index => ?_
    split
    · exact .pure _
    · exact .fail _ _
  | dictionary ref =>
    unfold Step.element
    dsimp only
    split
    · exact .pure _
    · exact .bind hR (.ofExcept _ _) fun _ => .fail _ _
  | number | string | boolean | function => exact .fail _ _

/-- What is called is evaluated, or read as a variable that lends the call its name. -/
theorem follows_callee (hR : Closed limits script R)
    (heval : ExprsFollow limits script R eval eval') {e : Expr}
    (hcode : ∀ l ∈ Literals.inExpr e, (script.active calls).literal l) :
    Follows limits script R calls (Step.callee eval e) (Step.callee eval' e) := by
  cases e with
  | name span name =>
    refine .of_machine_eq fun m => ?_
    simp only [Step.callee, Step.namedCallee]
    split <;> rfl
  | _ => exact .bind hR (heval calls _ hcode) fun _ => .pure _

/-- The target comes first, then the arguments, and then the call. -/
theorem follows_call (hR : Closed limits script R)
    (heval : ExprsFollow limits script R eval eval')
    (hframes : ∀ e, Keeps Machine.FramesKept (eval e))
    (hrun : BodiesFollow limits script R run run') (span : Span) {target : Expr}
    {arguments : List Expr}
    (hcode : ∀ l ∈ Literals.inExpr target ++ Literals.inExprs arguments,
      (script.active calls).literal l) :
    Follows limits script R calls (Step.call limits eval run span target arguments)
      (Step.call limits eval' run' span target arguments) := by
  obtain ⟨htarget, harguments⟩ := List.forall_mem_append.mp hcode
  refine .bind hR (follows_callee hR heval htarget) fun ⟨function, name⟩ => ?_
  refine .ite (.fail _ _) ?_
  exact .bind hR (follows_exprs hR heval arguments harguments) fun args =>
    follows_callValue hR heval hframes hrun function args span name

/-- A function that is made has a literal of the code that is active. -/
theorem follows_makeFunction (name : Option String) (span : Span) (l : Literal)
    (hl : (script.active calls).literal l) :
    Follows limits script R calls (Step.makeFunction limits name span l.parameters l.body)
      (Step.makeFunction limits name span l.parameters l.body) :=
  .step fun m => .makeFunction m calls name span l hl

/-- A step of an expression follows a course if its parts do. -/
theorem exprsFollow_step (hR : Closed limits script R)
    (heval : ExprsFollow limits script R eval eval')
    (hframes : ∀ e, Keeps Machine.FramesKept (eval e))
    (hrun : BodiesFollow limits script R run run') :
    ExprsFollow limits script R (Step.expr limits eval run) (Step.expr limits eval' run') := by
  intro calls e hcode
  -- One case a construct. The code of a construct covers the code of its parts, which is what each
  -- `hcode` is taken apart for.
  cases e with
  | number | string | boolean => exact .pure _
  | name span name =>
    refine .of_machine_eq fun m => ?_
    simp only [Step.expr, Step.readVariable]
    split <;> rfl
  | lookup span target key =>
    obtain ⟨htarget, hkey⟩ := List.forall_mem_append.mp hcode
    refine .bind hR (heval calls target htarget) fun _ => ?_
    refine .bind hR (heval calls key hkey) fun _ => .bind hR .machine fun m => ?_
    exact follows_element hR limits.maxDigits _ _ _ _ _
  | binary span op left right =>
    obtain ⟨hleft, hright⟩ := List.forall_mem_append.mp hcode
    exact follows_binary hR heval span op hleft hright
  | unary span op operand =>
    refine .bind hR (heval calls operand hcode) fun value => ?_
    cases op <;> exact .bind hR (.ofExcept _ _) fun _ => .pure _
  | array span elements =>
    exact .bind hR (follows_exprs hR heval elements hcode) fun _ =>
      .step fun m => .data m calls _ _ _
  | dictionary span es =>
    exact .bind hR (follows_entries hR heval es hcode) fun _ => .step fun m => .data m calls _ _ _
  | function span parameters body =>
    exact follows_makeFunction none span ⟨parameters, body⟩ (hcode _ (List.mem_singleton.mpr rfl))
  | call span target arguments =>
    refine .bind hR (follows_call hR heval hframes hrun span hcode) fun value => ?_
    cases value with
    | some value => exact .pure value
    | none => exact .fail _ _

/-! ### Statements -/

/-- A block is entered without a new situation. -/
theorem follows_block (hR : Closed limits script R)
    (hexec : StmtsFollow limits script R exec exec') (hsettled : Settled calls) {b : Block}
    (hcode : (script.active calls).Covers (Literals.inBlock b) (fun n => Declares.inBlock n b)) :
    Follows limits script R calls (Step.block exec b) (Step.block exec' b) := by
  refine follows_sequence hR hexec hsettled b.statements none ?_
  simpa only [Literals.inBlock_eq, Declares.inBlock_eq] using hcode

theorem follows_assignVariable (hsettled : Settled calls) (name : String) (value : Value) :
    Follows limits script R calls (Step.assignVariable name value)
      (Step.assignVariable name value) :=
  .step fun m => .assign m calls name value hsettled

/-- A function that is assigned to a variable is one of the active code as well. -/
theorem follows_assignedValue (heval : ExprsFollow limits script R eval eval') (name : String)
    {e : Expr} (hcode : ∀ l ∈ Literals.inExpr e, (script.active calls).literal l) :
    Follows limits script R calls (Step.assignedValue limits eval name e)
      (Step.assignedValue limits eval' name e) := by
  cases e with
  | function span parameters body =>
    exact follows_makeFunction (some name) span ⟨parameters, body⟩
      (hcode _ (List.mem_singleton.mpr rfl))
  | _ => exact heval calls _ hcode

/-- Storing into a container is one step on the heap. -/
theorem follows_storeElement (hR : Closed limits script R) (container key value : Value)
    (targetSpan keySpan : Span) :
    Follows limits script R calls (Step.storeElement container key value targetSpan keySpan)
      (Step.storeElement container key value targetSpan keySpan) := by
  cases container with
  | array ref =>
    refine .bind hR .machine fun _ => .bind hR (.ofExcept _ _) fun _ => ?_
    exact .step fun m => .data m calls _ _ _
  | dictionary ref => exact .step fun m => .data m calls _ _ _
  | number | string | boolean | function => exact .fail _ _

/-- Declarations are steps that the active code declares. -/
theorem follows_declareGlobals (hR : Closed limits script R) (hsettled : Settled calls) :
    ∀ (names : List String), (∀ n ∈ names, (script.active calls).declares n) →
      Follows limits script R calls (update fun m => names.foldl Step.declareGlobal m)
        (update fun m => names.foldl Step.declareGlobal m)
  | [], _ => .of_machine_eq fun _ => rfl
  | name :: names, hnames => by
    intro m hm
    obtain ⟨hname, hnames⟩ := List.forall_mem_cons.mp hnames
    have hstep : Transition limits script ⟨m, calls⟩ ⟨Step.declareGlobal m name, calls⟩ :=
      .declareGlobal m calls name hsettled hname
    obtain ⟨-, hcourse⟩ := follows_declareGlobals hR hsettled names hnames
      (Step.declareGlobal m name) (hR hm hstep)
    exact ⟨rfl, (Course.single (Nat.le_refl _) hstep).trans hcourse⟩

theorem follows_otherwise (hR : Closed limits script R)
    (heval : ExprsFollow limits script R eval eval')
    (hexec : StmtsFollow limits script R exec exec') (hsettled : Settled calls) :
    ∀ o, (script.active calls).Covers (Literals.inOtherwise o) (fun n => Declares.inOtherwise n o) →
      Follows limits script R calls (Step.otherwise eval exec o) (Step.otherwise eval' exec' o)
  | .nothing, _ => .pure _
  | .block _, hcode => follows_block hR hexec hsettled hcode
  | .branch _ test body later, hcode => by
    obtain ⟨hcode, hlater⟩ := hcode.append
    obtain ⟨htest, hbody⟩ := hcode.append_expr
    refine .bind hR (follows_condition hR heval htest) fun _ => .ite ?_ ?_
    · exact follows_block hR hexec hsettled hbody
    · exact follows_otherwise hR heval hexec hsettled later hlater

/-- A loop over a container takes the rounds of the elements that it starts with. -/
theorem follows_each (hR : Closed limits script R)
    (hexec : StmtsFollow limits script R exec exec') (hsettled : Settled calls) (source : Value)
    (span : Span) (key : Option String) (value : String) {body : Block}
    (hcode : (script.active calls).Covers (Literals.inBlock body)
      (fun n => Declares.inBlock n body)) :
    Follows limits script R calls (Step.each exec source span key value body)
      (Step.each exec' source span key value body) := by
  have hbody := follows_block hR hexec hsettled hcode
  refine .bind hR .machine fun m => ?_
  split
  · exact .forEach hR
      (fun v => .bind hR (follows_assignVariable hsettled _ _) fun _ => hbody) _ _
  · exact .fail _ _
  · exact .fail _ _
  · exact .forEach hR
      (fun v => .bind hR (follows_assignVariable hsettled _ _) fun _ =>
        .bind hR (follows_assignVariable hsettled _ _) fun _ => hbody) _ _
  · exact .fail _ _

/-- A step of a statement follows a course if its parts do. -/
theorem stmtsFollow_step (hR : Closed limits script R) (budget : Nat)
    (heval : ExprsFollow limits script R eval eval')
    (hframes : ∀ e, Keeps Machine.FramesKept (eval e))
    (hexec : StmtsFollow limits script R exec exec') :
    StmtsFollow limits script R (Step.stmt limits budget eval exec)
      (Step.stmt limits budget eval' exec') := by
  intro calls s hsettled hcode
  cases s with
  | assignVariable span nameSpan name value =>
    refine .bind hR (follows_assignedValue heval name hcode.literal) fun v => ?_
    exact .bind hR (follows_assignVariable hsettled name v) fun _ => .pure _
  | assignElement span lookupSpan target key value =>
    obtain ⟨hcode, hkey⟩ := List.forall_mem_append.mp hcode.literal
    obtain ⟨hvalue, htarget⟩ := List.forall_mem_append.mp hcode
    refine .bind hR (heval calls value hvalue) fun v => ?_
    refine .bind hR (heval calls target htarget) fun container => ?_
    refine .bind hR (heval calls key hkey) fun index => ?_
    exact .bind hR (follows_storeElement hR container index v _ _) fun _ => .pure _
  | call span callSpan target arguments =>
    have hrun : BodiesFollow limits script R (sequence exec none) (sequence exec' none) :=
      fun _ ss hsettled hcode => follows_sequence hR hexec hsettled ss none hcode
    exact follows_call hR heval hframes hrun callSpan hcode.literal
  | ret span value =>
    refine .bind hR (heval calls value hcode.literal) fun v => ?_
    exact .bind hR (.step fun m => .signal m calls (some v) hsettled) fun _ => .pure _
  | declareGlobal span names =>
    refine .bind hR (follows_declareGlobals hR hsettled names fun n hn => ?_) fun _ => .pure _
    -- The declared names stand in the body's own text, as a declaration may only name these.
    exact hcode.declared n (List.contains_iff_mem.mpr hn)
  | branch span test body later =>
    obtain ⟨hcode, hlater⟩ := hcode.append
    obtain ⟨htest, hbody⟩ := hcode.append_expr
    refine .bind hR (follows_condition hR heval htest) fun _ => .ite ?_ ?_
    · exact follows_block hR hexec hsettled hbody
    · exact follows_otherwise hR heval hexec hsettled later hlater
  | loop span test body =>
    obtain ⟨htest, hbody⟩ := hcode.append_expr
    exact .whileTrue hR (follows_condition hR heval htest)
      (follows_block hR hexec hsettled hbody) budget none
  | each span source key value body =>
    obtain ⟨hsource, hbody⟩ := hcode.append_expr
    exact .bind hR (heval calls source hsource) fun v =>
      follows_each hR hexec hsettled v _ key value hbody

end Steps

/-- **Every evaluation is made of transitions**, and without breakpoints for what it may come to it
does not notice them. By induction on the budget. -/
theorem evaluation_follows {limits : Limits} {script : Code} {R : Situation → Prop}
    (hR : Closed limits script R) {stop : Machine → Option Failure}
    (hstop : ∀ c, R c → stop c.machine = none) :
    ∀ budget,
      ExprsFollow limits script R (evalExpr limits budget) (Breakpoint.evalExpr stop limits budget) ∧
        StmtsFollow limits script R (execStmt limits budget) (Breakpoint.execStmt stop limits budget)
  | 0 => ⟨fun _ _ _ => .stopping hstop .exhaust, fun _ _ _ _ => .stopping hstop .exhaust⟩
  | budget + 1 => by
    obtain ⟨heval, hexec⟩ := evaluation_follows hR hstop budget
    have hframes := framesKept_evalExpr limits budget
    refine ⟨fun calls e hcode => .stopping hstop ?_, fun calls s hsettled hcode => .stopping hstop ?_⟩
    · exact exprsFollow_step hR heval hframes
        (fun _ ss hsettled hcode => follows_sequence hR hexec hsettled ss none hcode) calls e hcode
    · exact stmtsFollow_step hR budget heval hframes hexec calls s hsettled hcode

end DecimalScript
