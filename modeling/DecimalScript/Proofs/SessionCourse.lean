import DecimalScript.Machine.Session
import DecimalScript.Proofs.EvaluationCourse

/-!
# The states of a session

A session is a series of requests to one machine: run or evaluate some code, call a function, read
or set global variables, and make containers to pass on. `Session.Idle` are the machines between two
requests, and `Session.Reaches` are the ones that a session reaches at all: the idle ones, and those
that a request passes through. All of them form situations that are reachable by transitions, so
that what transitions keep holds in every state of every session (`Session.Reaches.situation`).
-/

namespace DecimalScript

open Eval

/-- The calls in progress are those that the machine has frames for. -/
theorem Transition.depth_eq {limits : Limits} {script : Code} {c c' : Situation}
    (h : Transition limits script c c') (hc : c.machine.depth = c.calls.length) :
    c'.machine.depth = c'.calls.length := by
  -- `frames` is `calls` with the bottom frame behind them, so it counts one more.
  have hframes : ∀ m : Machine, m.frames.length = m.depth + 1 := fun m => by
    simp [Machine.frames, Machine.depth]
  have hmodify : ∀ (m : Machine) f, (m.modifyFrame f).depth = m.depth := fun m f => by
    unfold Machine.modifyFrame Machine.depth
    split
    · rfl
    · rename_i hcalls
      simp [hcalls]
  cases h with
  | record | data | refuse | bindParameter | assign | hostAssign => exact hc
  | makeFunction m calls name span l hl =>
    have hlength := congrArg List.length (frames_makeFunction limits name span l.parameters l.body m)
    rw [hframes, hframes] at hlength
    exact (Nat.succ.inj hlength).trans hc
  | enter m calls f label arguments hf hdepth => exact congrArg Nat.succ hc
  | leave m a calls =>
    show m.calls.tail.length = calls.length
    rw [List.length_tail]
    exact Nat.sub_eq_of_eq_add hc
  | declareGlobal m calls name hsettled hname =>
    have hlength := congrArg List.length (frames_declareGlobal m name)
    rw [hframes, hframes, hmodify] at hlength
    exact (Nat.succ.inj hlength).trans hc
  | signal m calls value hsettled => exact (hmodify m _).trans hc

theorem Situation.Reachable.depth_eq {limits : Limits} {script : Code} {start : Machine}
    (hstart : start.calls = []) {c : Situation} (h : c.Reachable limits script start) :
    c.machine.depth = c.calls.length :=
  Course.invariant (fun _ hstep hc => hstep.depth_eq hc) h (congrArg List.length hstart)

/-- An evaluation passes only through machines in `R`, if it does not notice breakpoints for other
machines. -/
theorem Usage.Passes.exists_situation {α : Type} {x : Usage α} {limits : Limits} {budget : Nat}
    {m k : Machine} {R : Situation → Prop} (h : x.Passes limits budget m k)
    (hx : ∀ stop, (∀ c, R c → stop c.machine = none) →
      x (Breakpoint.evalExpr stop limits budget) (Breakpoint.execStmt stop limits budget) m =
        x (evalExpr limits budget) (execStmt limits budget) m) :
    ∃ calls, R ⟨k, calls⟩ := by
  obtain ⟨failure, hne⟩ := h
  refine Classical.byContradiction fun hnone => hne (hx _ fun c hc => ?_)
  refine Breakpoint.only_ne ?_ failure
  rintro rfl
  exact hnone ⟨c.calls, hc⟩

theorem Failure.fault_quoting (failure : Failure) (lines : List String) :
    (failure.quoting lines).fault = failure.fault := by
  unfold quoting
  split <;> rfl

namespace Session

/-- What a host asks for. -/
inductive Request where
  | run (program : Program) (source : String)
  | evaluateProgram (program : Program)
  | evaluateStmt (s : Stmt)
  | evaluateExpr (e : Expr)
  | callValue (callee : Value) (args : List Value) (name : Option String)
  | call (name : String) (args : List Value)
  | setVariable (name : String) (value : Option Value)
  | newArray (elements : List Value)
  | newDictionary (dictionary : Dictionary)

namespace Request

/-- Does what is asked for. -/
def perform (limits : Limits) (budget : Nat) : Request → Eval (Option Value)
  | run program source => Session.run limits budget program source
  | evaluateProgram program => Session.evaluateProgram limits budget program
  | evaluateStmt s => Session.evaluateStmt limits budget s
  | evaluateExpr e => some <$> Session.evaluateExpr limits budget e
  | callValue callee args name => Session.callValue limits budget callee args name
  | call name args => Session.call limits budget name args
  | setVariable name value => do
    Session.setVariable name value
    return none
  | newArray elements => some <$> Eval.newArray elements
  | newDictionary dictionary => some <$> Eval.newDictionary dictionary

/-- What a request does with the evaluation of expressions and of statements. -/
def usage (limits : Limits) : Request → Usage (Option Value)
  | run program source => fun _ exec m =>
    ((sequence exec none program.statements m.resetFrames).mapFailure
      (·.quoting (Text.rows source))).mapMachine Machine.resetFrames
  | evaluateProgram program => fun _ exec => sequence exec none program.statements
  | evaluateStmt s => fun _ exec => exec s
  | evaluateExpr e => fun eval _ => some <$> eval e
  | callValue callee args name => fun eval exec =>
    Step.callValue limits eval (sequence exec none) callee args hostSpan name
  | call name args => fun eval exec m =>
    match m.env.get? Machine.globalTable name with
    | some value =>
      Step.callValue limits eval (sequence exec none) value args hostSpan (some name) m
    | none => fail (.undeclaredFunction name) hostSpan m
  | setVariable name value => fun _ _ => do
    Session.setVariable name value
    return none
  | newArray elements => fun _ _ => some <$> Eval.newArray elements
  | newDictionary dictionary => fun _ _ => some <$> Eval.newDictionary dictionary

/-- What a request does is made of evaluations only. -/
theorem usage_eq_perform (limits : Limits) (budget : Nat) (r : Request) :
    r.usage limits (evalExpr limits budget) (execStmt limits budget) = r.perform limits budget := by
  cases r <;> rfl

/-- The function literals that a request has evaluated at top level. -/
def literals : Request → List Literal
  | run program _ | evaluateProgram program => Literals.inStmts program.statements
  | evaluateStmt s => Literals.inStmt s
  | evaluateExpr e => Literals.inExpr e
  | callValue _ _ _ | call _ _ | setVariable _ _ | newArray _ | newDictionary _ => []

/-- Whether a request declares a name global at top level. -/
def declares (name : String) : Request → Bool
  | run program _ | evaluateProgram program => Declares.inStmts name program.statements
  | evaluateStmt s => Declares.inStmt name s
  | evaluateExpr _ | callValue _ _ _ | call _ _ | setVariable _ _ | newArray _
  | newDictionary _ => false

/-- A request evaluates nothing but what a script says. -/
def Within (script : Code) (r : Request) : Prop :=
  script.Covers r.literals fun n => r.declares n

theorem within_any (r : Request) : r.Within .any :=
  ⟨fun _ _ => trivial, fun _ _ => trivial⟩

end Request

/-- The machines between the requests of a session. -/
inductive Idle (limits : Limits) (script : Code) (start : Machine) : Machine → Prop
  | start : Idle limits script start start
  | request {m : Machine} (h : Idle limits script start m) (r : Request) (hr : r.Within script)
    (budget : Nat) : Idle limits script start (r.perform limits budget m).machine

/-- The machines that a session reaches: between requests, or while one is performed. -/
def Reaches (limits : Limits) (script : Code) (start k : Machine) : Prop :=
  ∃ m, Idle limits script start m ∧
    (k = m ∨ ∃ (r : Request) (budget : Nat), r.Within script ∧
      (r.usage limits).Passes limits budget m k)

theorem runSource_of_parse {limits : Limits} {budget : Nat} {source : String}
    {file : Option String} {program : Program} (h : Program.parse source file = .ok program) :
    runSource limits budget source file = run limits budget program source := by
  unfold runSource
  rw [h]

/-- With no calls in progress, resetting the frames only takes back a return. -/
theorem resetFrames_eq {m : Machine} (h : m.calls = []) :
    m.resetFrames = m.modifyFrame ({ · with pending := none }) := by
  unfold Machine.resetFrames Machine.modifyFrame
  rw [h]

theorem course_resetFrames {limits : Limits} {script : Code} {m : Machine} (h : m.calls = []) :
    Course limits script 0 ⟨m, []⟩ ⟨m.resetFrames, []⟩ := by
  rw [resetFrames_eq h]
  exact .single (Nat.le_refl 0) (.signal m [] none trivial)

section Requests

variable {limits : Limits} {script : Code} {R : Situation → Prop} {budget : Nat} {m : Machine}

/-- Without calls in progress, resetting the frames before and after an evaluation is a transition.
-/
theorem follows_resettingFrames {α : Type} {x y : Eval α}
    (h : Follows limits script R [] x y) (hR : Closed limits script R)
    (hcalls : ∀ k, R ⟨k, []⟩ → k.calls = []) (f : Failure → Failure) :
    Follows limits script R []
      (fun m => ((x m.resetFrames).mapFailure f).mapMachine Machine.resetFrames)
      (fun m => ((y m.resetFrames).mapFailure f).mapMachine Machine.resetFrames) := by
  intro m hm
  have hreset : ∀ k, R ⟨k, []⟩ → Course limits script 0 ⟨k, []⟩ ⟨k.resetFrames, []⟩ :=
    fun k hk => course_resetFrames (hcalls k hk)
  have hstart := hR.course hm (hreset m hm)
  obtain ⟨heq, hcourse⟩ := h m.resetFrames hstart
  refine ⟨?_, (hreset m hm).trans (hcourse.trans ?_)⟩
  · exact congrArg (fun o => (Outcome.mapFailure f o).mapMachine Machine.resetFrames) heq
  · rw [Outcome.machine_mapMachine, Outcome.machine_mapFailure]
    exact hreset _ (hR.course hstart hcourse)

/-- A request is made of transitions, and does not notice breakpoints for what it does not come
to. -/
theorem Request.follows (hR : Closed limits script R)
    (hdepth : ∀ c, R c → c.machine.depth = c.calls.length) {stop : Machine → Option Failure}
    (hstop : ∀ c, R c → stop c.machine = none) (r : Request) (hr : r.Within script) :
    Follows limits script R [] (r.perform limits budget)
      (r.usage limits (Breakpoint.evalExpr stop limits budget)
        (Breakpoint.execStmt stop limits budget)) := by
  obtain ⟨heval, hexec⟩ := evaluation_follows hR hstop budget
  have hframes := framesKept_evalExpr limits budget
  have hrun : BodiesFollow limits script R (sequence (execStmt limits budget) none)
      (sequence (Breakpoint.execStmt stop limits budget) none) :=
    fun _ ss hsettled hcode => follows_sequence hR hexec hsettled ss none hcode
  have hprogram : ∀ ss, script.Covers (Literals.inStmts ss) (fun n => Declares.inStmts n ss) →
      Follows limits script R [] (sequence (execStmt limits budget) none ss)
        (sequence (Breakpoint.execStmt stop limits budget) none ss) :=
    fun ss hcode => hrun [] ss trivial hcode
  have hcallValue : ∀ callee args name,
      Follows limits script R [] (Session.callValue limits budget callee args name)
        (Step.callValue limits (Breakpoint.evalExpr stop limits budget)
          (sequence (Breakpoint.execStmt stop limits budget) none) callee args hostSpan name) :=
    fun callee args name => follows_callValue hR heval hframes hrun callee args hostSpan name
  -- A request that evaluates code follows by what is known of its construct; the others are one
  -- step of the course, or none.
  cases r with
  | run program source =>
    have hcalls : ∀ k, R ⟨k, []⟩ → k.calls = [] := fun k hk =>
      List.eq_nil_of_length_eq_zero (hdepth _ hk)
    exact follows_resettingFrames (hprogram program.statements hr) hR hcalls _
  | evaluateProgram program => exact hprogram program.statements hr
  | evaluateStmt s => exact hexec [] s trivial hr
  | evaluateExpr e => exact .map hR some (heval [] e hr.literal)
  | callValue callee args name => exact hcallValue callee args name
  | call name args =>
    intro m hm
    unfold Request.perform Request.usage Session.call
    dsimp only
    cases m.env.get? Machine.globalTable name with
    | some value => exact hcallValue value args (some name) m hm
    | none => exact ⟨rfl, .refl _⟩
  | setVariable name value =>
    exact .bind hR (.step fun m => .hostAssign m name value) fun _ => .pure none
  | newArray elements => exact .map hR some (.step fun m => .data m [] _ _ _)
  | newDictionary dictionary => exact .map hR some (.step fun m => .data m [] _ _ _)

end Requests

variable {limits : Limits} {script : Code} {start k : Machine}

/-- Between requests no call is in progress. -/
theorem Idle.situation (hstart : start.calls = []) (h : Idle limits script start k) :
    Situation.Reachable limits script start ⟨k, []⟩ := by
  induction h with
  | start => exact .start limits script start
  | @request m _ r hr budget ih =>
    let never : Machine → Option Failure := fun _ => none
    have hnever : ∀ c, Situation.Reachable limits script start c → never c.machine = none :=
      fun _ _ => rfl
    exact ih.course (r.follows (closed_reachable limits script start)
      (fun _ hc => hc.depth_eq hstart) hnever hr m ih).2

/-- Between requests no call is active. -/
theorem Idle.calls_eq_nil (hstart : start.calls = []) (h : Idle limits script start k) :
    k.calls = [] :=
  List.eq_nil_of_length_eq_zero ((h.situation hstart).depth_eq hstart)

/-- **Every state of a session is reachable by transitions**: all machines that a session reaches,
also in the middle of a request, form situations with the calls in progress there. -/
theorem Reaches.situation (hstart : start.calls = []) (h : Reaches limits script start k) :
    ∃ calls, Situation.Reachable limits script start ⟨k, calls⟩ := by
  obtain ⟨m, hidle, hk⟩ := h
  have hm := hidle.situation hstart
  rcases hk with rfl | ⟨r, budget, hr, hpasses⟩
  · exact ⟨[], hm⟩
  · refine hpasses.exists_situation fun stop hstop => ?_
    rw [Request.usage_eq_perform]
    exact (r.follows (closed_reachable limits script start) (fun _ hc => hc.depth_eq hstart) hstop
      hr m hm).1

/-! ### States in the middle of a call -/

section Bodies

variable {m started : Machine} {f : UserFunction} {s : Stmt} {ss : List Stmt}

/-- A host that calls a function reaches what its body comes to, once the arguments are bound. -/
theorem Idle.reaches_of_stops (hm : Idle limits script start m) (ref : FunctionRef)
    (args : List Value) (budget : Nat) (hf : m.heap.function? ref = some (.user f))
    (hargs : args.length ≤ f.parameters.length) (hdepth : m.depth < limits.maxCallDepth)
    (hstarted : ∀ eval, Step.bindParameters eval ⟨m.env.tables.size⟩ f.parameters args
      (m.called f (Step.labelOf none f.name) args.length) = .done () started)
    (hstops : ∀ failure, sequence
      (Breakpoint.execStmt (Breakpoint.only k failure) limits budget) none f.body.statements
        started = .failed failure k) :
    Reaches limits script start k := by
  -- The host calls the function, and a breakpoint that fails at `k` alone shows that the call
  -- passes through it.
  let r : Request := .callValue (.function ref) args none
  have hr : r.Within script := ⟨fun _ hl => (List.not_mem_nil hl).elim, fun _ hn => by cases hn⟩
  refine ⟨m, hm, .inr ⟨r, budget, hr, Usage.passes_of_stops fun failure => ?_⟩⟩
  refine ⟨failure, k.leave, rfl, ?_⟩
  let stop := Breakpoint.only k failure
  have hrun : (do
      Step.bindParameters (Breakpoint.evalExpr stop limits budget) ⟨m.env.tables.size⟩ f.parameters
        args
      sequence (Breakpoint.execStmt stop limits budget) none f.body.statements :
        Eval (Option Value)) (m.called f (Step.labelOf none f.name) args.length) =
      .failed failure k := by
    rw [bind_done (hstarted _)]
    exact hstops failure
  show Step.callValue limits (Breakpoint.evalExpr stop limits budget)
    (sequence (Breakpoint.execStmt stop limits budget) none) (.function ref) args hostSpan none m = _
  simp only [Step.callValue, bind_apply, Eval.machine, hf]
  rw [callUser_apply, if_neg (Nat.not_lt_of_le hargs), if_neg (Nat.not_le_of_lt hdepth)]
  exact congrArg (Outcome.mapMachine Machine.leave) hrun

/-- A breakpoint for the machine at which a statement is about to be executed. -/
theorem execStmt_only (failure : Failure) (budget : Nat) :
    Breakpoint.execStmt (Breakpoint.only k failure) limits budget s k = .failed failure k := by
  cases budget <;>
    (unfold Breakpoint.execStmt Eval.stopping
     rw [Breakpoint.only_self])

/-- The body of a function is reached. -/
theorem Idle.reaches_body (hm : Idle limits script start m) (ref : FunctionRef) (args : List Value)
    (hf : m.heap.function? ref = some (.user f)) (hargs : args.length ≤ f.parameters.length)
    (hdepth : m.depth < limits.maxCallDepth)
    (hstarted : ∀ eval, Step.bindParameters eval ⟨m.env.tables.size⟩ f.parameters args
      (m.called f (Step.labelOf none f.name) args.length) = .done () k)
    (hbody : f.body.statements = s :: ss) : Reaches limits script start k := by
  refine hm.reaches_of_stops ref args 0 hf hargs hdepth hstarted fun failure => ?_
  rw [hbody]
  exact bind_failed (execStmt_only failure 0) _

/-- What follows the assignment of a number at the start of a body is reached. -/
theorem Idle.reaches_second (hm : Idle limits script start m) (ref : FunctionRef)
    (args : List Value) (hf : m.heap.function? ref = some (.user f))
    (hargs : args.length ≤ f.parameters.length) (hdepth : m.depth < limits.maxCallDepth)
    (hstarted : ∀ eval, Step.bindParameters eval ⟨m.env.tables.size⟩ f.parameters args
      (m.called f (Step.labelOf none f.name) args.length) = .done () started)
    {span nameSpan valueSpan : Span} {name literal : String} {value : Decimal}
    (hbody : f.body.statements =
      .assignVariable span nameSpan name (.number valueSpan value literal) :: s :: ss)
    (hk : k = started.assign started.frame.table name (some (.ofDecimal value)))
    (hne : started ≠ k) (hpending : started.frame.pending = none) :
    Reaches limits script start k := by
  refine hm.reaches_of_stops ref args 2 hf hargs hdepth hstarted fun failure => ?_
  let stop := Breakpoint.only k failure
  -- The breakpoint lets everything before `k` pass, and the assignment is what leads to it.
  have hgoes : stop started = none := Breakpoint.only_ne hne failure
  have hvalue : Breakpoint.evalExpr stop limits 1 (.number valueSpan value literal) started =
      .done (.ofDecimal value) started := by
    unfold Breakpoint.evalExpr Eval.stopping
    rw [hgoes]
    rfl
  have hassign : Breakpoint.execStmt stop limits 2
      (.assignVariable span nameSpan name (.number valueSpan value literal)) started =
        .done (some (.ofDecimal value)) k := by
    unfold Breakpoint.execStmt Eval.stopping
    rw [hgoes, hk]
    exact bind_done hvalue _
  rw [hbody]
  refine (bind_done hassign _).trans ?_
  have hnone : Eval.pending k = .done none k := by
    rw [hk]
    exact congrArg (Outcome.done · _) hpending
  refine (bind_done hnone _).trans ?_
  exact bind_failed (execStmt_only failure 2) _

end Bodies

end Session

end DecimalScript
