import DecimalScript.Proofs.Pairing
import DecimalScript.Proofs.SessionCourse

/-!
# The depth of calls

Only calls of functions of the script count, and at most `maxCallDepth` of them are in progress. A
call that would be one more is refused before anything of it has happened: after the checks of what
is called and of the number of arguments, and before a parameter is bound or a default evaluated.

A refused call is on record: what a call logs says how many calls would be in progress with it. That
a run fails for the depth of calls exactly if it logs such a call is shown by pairing the run with
itself, the log being what the pairing watches.

- `Situation.Reachable.depth_le`: no more calls in progress than the limit allows.
- `framesKept_callValue`: a call ends on the frames it started on, however it ends.
- `Pairing.refusals_sound`, `Request.recordsRefusal`: a run that fails for the depth has logged a
  call too many, and the other way round.
- `frame_stack_is_kept_and_limited`: all of it, for the requests of a session.
-/

namespace DecimalScript

open Eval

/-! ### The depth is bounded -/

/-- No transition goes deeper than the limit. -/
theorem Transition.depth_le {limits : Limits} {script : Code} {c c' : Situation}
    (h : Transition limits script c c') (hdepth : c.machine.depth = c.calls.length)
    (hc : c.calls.length ≤ limits.maxCallDepth) : c'.calls.length ≤ limits.maxCallDepth := by
  cases h with
  | record | data | makeFunction | refuse | bindParameter | assign | declareGlobal | signal
  | hostAssign => exact hc
  | enter m calls f label arguments hf hbelow =>
    have hcalls : calls.length < limits.maxCallDepth := hdepth ▸ hbelow
    exact hcalls
  | leave m a calls => exact Nat.le_of_succ_le hc

/-- However a situation is reached, no more calls are active than the limit allows. -/
theorem Situation.Reachable.depth_le {limits : Limits} {script : Code} {start : Machine}
    (hstart : start.calls = []) {c : Situation} (h : c.Reachable limits script start) :
    c.machine.depth ≤ limits.maxCallDepth := by
  obtain ⟨hdepth, hle⟩ := Course.invariant
    (P := fun c => c.machine.depth = c.calls.length ∧ c.calls.length ≤ limits.maxCallDepth)
    (fun _ hstep hc => ⟨hstep.depth_eq hc.1, hstep.depth_le hc.1 hc.2⟩) h
    ⟨congrArg List.length hstart, Nat.zero_le _⟩
  exact hdepth ▸ hle

/-! ### What a call does -/

/-- A call of a function of the script that can take its arguments. -/
theorem callValue_user (limits : Limits) (eval : Expr → Eval Value)
    (run : List Stmt → Eval (Option Value)) {ref : FunctionRef} {f : UserFunction}
    {args : List Value} (span : Span) (name : Option String) {m : Machine}
    (hf : m.heap.function? ref = some (.user f)) (hargs : args.length ≤ f.parameters.length) :
    let label := Step.labelOf name f.name
    Step.callValue limits eval run (.function ref) args span name m =
      if limits.maxCallDepth ≤ m.depth then
        .failed (.ofRuntime (.callDepth limits.maxCallDepth) span) (m.prepared f label args.length)
      else
        Step.runCall eval run f ⟨m.env.tables.size⟩ label args
          (m.prepared f label args.length) := by
  intro label
  simp only [Step.callValue, bind_apply, Eval.machine, hf]
  rw [callUser_apply, if_neg (Nat.not_lt_of_le hargs)]

/-- A call leaves all frames as it finds them, however it ends. -/
theorem framesKept_callValue (limits : Limits) (budget : Nat) (callee : Value) (args : List Value)
    (span : Span) (name : Option String) :
    Keeps Machine.FramesKept
      (Step.callValue limits (evalExpr limits budget) (sequence (execStmt limits budget) none)
        callee args span name) := by
  have hrun : ∀ ss, Keeps (Machine.FrameKept Frame.Continues)
      (sequence (execStmt limits budget) none ss) := fun ss =>
    .sequence (stable_continues limits).stmt (frameKept_execStmt limits budget) ss none
  have heval := framesKept_evalExpr limits budget
  exact (stable_continues limits).callValue heval hrun callee args span name

/-! ### Refused calls are on record -/

/-- Whether an event records a call with which more calls than the limit would be in progress. -/
def LogEvent.isRefused (limit : Nat) : LogEvent → Bool
  | .call _ _ depth => decide (limit < depth)
  | _ => false

/-- Whether a failure is for the depth of calls. -/
def Failure.isCallDepth (failure : Failure) : Bool :=
  match failure.fault with
  | .runtime fault => fault.isCallDepth
  | _ => false

/-- Whether an evaluation fails for the depth of calls. -/
def Outcome.isCallDepth {α : Type} : Outcome α → Bool
  | failed failure _ => failure.isCallDepth
  | _ => false

theorem Failure.isCallDepth_quoting (failure : Failure) (lines : List String) :
    (failure.quoting lines).isCallDepth = failure.isCallDepth := by
  unfold isCallDepth
  rw [failure.fault_quoting]

/-- An outcome of an evaluation that started with the log `base`: what has been logged since records
a refused call exactly if the evaluation fails for the depth of calls. -/
def Outcome.RecordsRefusal {α : Type} (limit : Nat) (base : Array LogEvent) (o : Outcome α) :
    Prop :=
  ∃ events, o.machine.log = base ++ events ∧
    (o.isCallDepth = true ↔ ∃ event ∈ events, event.isRefused limit = true)

/-- An evaluation beside itself: as long as it goes on, no call has been refused since the log was
`base`. -/
def Pairing.refusals (limit : Nat) (base : Array LogEvent) : Pairing where
  relocation := .stay
  logs := fun depth log log' => log' = log ∧ depth ≤ limit ∧
    ∃ events, log = base ++ events ∧ ∀ event ∈ events, event.isRefused limit = false
  fault := fun fault => fault.isCallDepth = false
  escape := fun failure log => failure.isCallDepth = true ∧
    ∃ events, log = base ++ events ∧ ∃ event ∈ events, event.isRefused limit = true

/-- The two runs are one run here: what is followed is what it writes on record. -/
theorem Pairing.refusals_sound (limits : Limits) (base : Array LogEvent) :
    (Pairing.refusals limits.maxCallDepth base).Sound limits limits := by
  have hpush : ∀ {depth l l'} event, event.isRefused limits.maxCallDepth = false →
      (Pairing.refusals limits.maxCallDepth base).logs depth l l' →
      (Pairing.refusals limits.maxCallDepth base).logs depth (l.push event) (l'.push event) := by
    rintro depth l _ event hevent ⟨rfl, hdepth, events, rfl, hevents⟩
    refine ⟨rfl, hdepth, events.push event, Array.append_push.symm, fun e he => ?_⟩
    rcases Array.mem_push.mp he with he | rfl
    · exact hevents e he
    · exact hevent
  -- Only a refused call is an event of another kind, and a refusal ends the evaluation.
  exact {
    capture := rfl
    maxCallDepth := Nat.le_refl _
    maxDigits := rfl
    fault := fun _ hfault => hfault
    record := fun event hplain hlogs => by
      cases event with
      | call | captureAnalysis => cases hplain
      | closureMade | nativeCall | globalImported => exact hpush _ rfl hlogs
    captureAnalysis := fun span scope hlogs => hpush (.captureAnalysis span scope) rfl hlogs
    enter := fun {d _ _} label arguments hdepth hlogs => by
      have hevent : (LogEvent.call label arguments (d + 1)).isRefused limits.maxCallDepth = false :=
        decide_eq_false (Nat.not_lt_of_le hdepth)
      obtain ⟨heq, -, hevents⟩ := hpush (.call label arguments (d + 1)) hevent hlogs
      exact ⟨heq, hdepth, hevents⟩
    leave := fun hle hlogs => ⟨hlogs.1, Nat.le_trans hle hlogs.2.1, hlogs.2.2⟩
    refuse := fun {d l l'} label arguments span hdepth hlogs => by
      obtain ⟨-, hle, events, rfl, -⟩ := hlogs
      let event := LogEvent.call label arguments (d + 1)
      have hevent : event.isRefused limits.maxCallDepth = true :=
        decide_eq_true (Nat.lt_succ_of_le hdepth)
      refine .inl ⟨rfl, events.push event, ?_, event, ?_, hevent⟩
      · exact Array.append_push.symm
      · exact Array.mem_push_self
    arithmetic := fun _ _ _ => .inl rfl }

/-- What is paired with itself records refusals. -/
theorem Eval.Paired.recordsRefusal {α : Type} {limit : Nat} {x y : Eval α} {m : Machine}
    (h : Eval.Paired (.refusals limit m.log) x y) (hdepth : m.depth ≤ limit) :
    (x m).RecordsRefusal limit m.log := by
  have hstart : (Pairing.refusals limit m.log).logs m.depth m.log m.log :=
    ⟨rfl, hdepth, #[], Array.append_empty.symm, fun _ he => (Array.not_mem_empty _ he).elim⟩
  have hnone : ∀ {events : Array LogEvent}, (∀ e ∈ events, e.isRefused limit = false) →
      (false = true ↔ ∃ e ∈ events, e.isRefused limit = true) := by
    intro events hevents
    refine ⟨fun h => (Bool.false_ne_true h).elim, fun ⟨e, he, hrefused⟩ => ?_⟩
    rw [hevents e he] at hrefused
    exact hrefused
  have hend := h m m.log hstart
  generalize x m = o, y (m.beside _ m.log) = o' at hend
  -- A refusal has been logged exactly in the last case: in the others the logs are still related.
  cases hend with
  | done a k log hlogs =>
    obtain ⟨-, -, events, hlog, hevents⟩ := hlogs
    exact ⟨events, hlog, hnone hevents⟩
  | exhausted k log hlogs =>
    obtain ⟨-, -, events, hlog, hevents⟩ := hlogs
    exact ⟨events, hlog, hnone hevents⟩
  | failed fault span k log hfault hlogs =>
    obtain ⟨-, -, events, hlog, hevents⟩ := hlogs
    refine ⟨events, hlog, ?_⟩
    have hother : (Failure.ofRuntime fault span).isCallDepth = false := hfault
    show (Failure.ofRuntime fault span).isCallDepth = true ↔ _
    rw [hother]
    exact hnone hevents
  | escaped failure k o hescape =>
    obtain ⟨hfailure, events, hlog, hrefused⟩ := hescape
    exact ⟨events, hlog, fun _ => hrefused, fun _ => hfailure⟩
  | outlasted houtlasts k o => exact houtlasts.elim

/-! ### Requests -/

section Requests

variable {limits : Limits} {budget : Nat} {m : Machine}

theorem Outcome.RecordsRefusal.resettingFrames {α : Type} {limit : Nat} {base : Array LogEvent}
    {o : Outcome α} (h : o.RecordsRefusal limit base) (lines : List String) :
    ((o.mapFailure (·.quoting lines)).mapMachine Machine.resetFrames).RecordsRefusal limit
      base := by
  obtain ⟨events, hlog, hrefused⟩ := h
  refine ⟨events, ?_, ?_⟩
  · rw [Outcome.machine_mapMachine, Outcome.machine_mapFailure]
    exact hlog
  · rw [← hrefused]
    cases o with
    | failed failure k => exact Bool.eq_iff_iff.mp (failure.isCallDepth_quoting lines)
    | done a k => exact Iff.rfl
    | exhausted k => exact Iff.rfl

/-- A request that finds no more calls in progress than allowed fails for the depth of calls exactly
if it logs a call that is one more. -/
theorem Session.Request.recordsRefusal (hdepth : m.depth ≤ limits.maxCallDepth) (r : Request) :
    (r.perform limits budget m).RecordsRefusal limits.maxCallDepth m.log := by
  have h : ∀ base, (Pairing.refusals limits.maxCallDepth base).Sound limits limits :=
    Pairing.refusals_sound limits
  have hcall : ∀ callee args name,
      (Session.callValue limits budget callee args name m).RecordsRefusal limits.maxCallDepth
        m.log := fun callee args name =>
    ((h m.log).callValue ((h m.log).evaluation (.same budget)).1
      ((h m.log).bodies (.same budget) none) callee args hostSpan name).recordsRefusal hdepth
  cases r with
  | run program source =>
    -- A run starts with the bottom frame alone, so that no call is in progress.
    have hzero : m.resetFrames.depth ≤ limits.maxCallDepth := Nat.zero_le _
    exact (((h m.log).bodies (.same budget) none program.statements).recordsRefusal
      (m := m.resetFrames) hzero).resettingFrames _
  | evaluateProgram program =>
    exact ((h m.log).bodies (.same budget) none program.statements).recordsRefusal hdepth
  | evaluateStmt s => exact (((h m.log).evaluation (.same budget)).2 s).recordsRefusal hdepth
  | evaluateExpr e =>
    exact (Eval.Paired.map some (((h m.log).evaluation (.same budget)).1 e)).recordsRefusal hdepth
  | callValue callee args name => exact hcall callee args name
  | call name args =>
    unfold Request.perform Session.call
    dsimp only
    cases m.env.get? Machine.globalTable name with
    | some value => exact hcall value args (some name)
    | none =>
      have hfail : Eval.Paired (.refusals limits.maxCallDepth m.log)
          (fail (.undeclaredFunction name) hostSpan : Eval (Option Value)) _ := .fail rfl hostSpan
      exact hfail.recordsRefusal hdepth
  | setVariable name value =>
    have hset : Eval.Paired (.refusals limits.maxCallDepth m.log) (Session.setVariable name value)
        (Session.setVariable name value) := .update (fun _ => rfl) (fun _ => rfl) fun _ _ => rfl
    exact (hset.bind fun _ => .pure none).recordsRefusal hdepth
  | newArray elements =>
    exact (Eval.Paired.map some (Pairing.Sound.newArray elements)).recordsRefusal hdepth
  | newDictionary dictionary =>
    exact (Eval.Paired.map some (Pairing.Sound.newDictionary dictionary)).recordsRefusal hdepth

end Requests

/-- What becomes of a call at a machine, whatever evaluates expressions and runs bodies. -/
structure Machine.GuardsCalls (limits : Limits) (m : Machine) (eval : Expr → Eval Value)
    (run : List Stmt → Eval (Option Value)) (span : Span) (name : Option String) : Prop where
  /-- At the limit a function of the script is refused, whatever evaluates its defaults. -/
  refused : ∀ ref f args, m.heap.function? ref = some (.user f) →
    args.length ≤ f.parameters.length → m.depth = limits.maxCallDepth →
    Step.callValue limits eval run (.function ref) args span name m =
      .failed (.ofRuntime (.callDepth limits.maxCallDepth) span)
        (m.prepared f (Step.labelOf name f.name) args.length)
  /-- What is new by then is a table with the cells of the closure: no parameter is bound. -/
  unbound : ∀ f label arguments,
    (m.prepared f label arguments).env = (m.env.addChild Machine.globalTable f.closure).2 ∧
      (m.prepared f label arguments).heap = m.heap ∧
      (m.prepared f label arguments).frames = m.frames ∧
      (m.prepared f label arguments).output = m.output
  /-- Below the limit it runs. -/
  granted : ∀ ref f args, m.heap.function? ref = some (.user f) →
    args.length ≤ f.parameters.length → m.depth ≠ limits.maxCallDepth →
    Step.callValue limits eval run (.function ref) args span name m =
      Step.runCall eval run f ⟨m.env.tables.size⟩ (Step.labelOf name f.name) args
        (m.prepared f (Step.labelOf name f.name) args.length)
  /-- Too many arguments are another failure, at the limit as well as below it. -/
  surplus : ∀ ref f args, m.heap.function? ref = some (.user f) →
    f.parameters.length < args.length →
    Step.callValue limits eval run (.function ref) args span name m =
      .failed (.ofRuntime (.argumentCount (Step.labelOf name f.name) f.parameters.length
        args.length) span) m
  /-- A built-in function is not refused, and its call does not count. -/
  native : ∀ ref f args, m.heap.function? ref = some (.native f) →
    let outcome := Step.callValue limits eval run (.function ref) args span name m
    outcome.isCallDepth = false ∧ outcome.machine.frames = m.frames
  /-- Nor is what is no function at all refused for the depth of calls. -/
  uncallable : ∀ callee args, (∀ ref, callee = .function ref → m.heap.function? ref = none) →
    ∃ kind, Step.callValue limits eval run callee args span name m =
      .failed (.ofRuntime (.notCallable kind) span) m

theorem isCallDepth_bind {α β : Type} {x : Eval α} {f : α → Eval β}
    (hx : ∀ m, (x m).isCallDepth = false) (hf : ∀ a m, (f a m).isCallDepth = false) (m : Machine) :
    ((x >>= f) m).isCallDepth = false := by
  have hm := hx m
  rw [bind_apply]
  cases hend : x m with
  | done a later => exact hf a later
  | failed failure later =>
    rw [hend] at hm
    exact hm
  | exhausted later => rfl

/-- Built-in functions refuse no call: they have no frames. -/
theorem isCallDepth_callNative (maxDigits : Nat) (f : NativeFunction) (label : String)
    (args : List Value) (span : Span) (m : Machine) :
    (Step.callNative maxDigits f label args span m).isCallDepth = false := by
  refine isCallDepth_bind (fun _ => rfl) (fun _ later => ?_) m
  rw [f.run_eq_effect]
  cases hresult : f.effect maxDigits later.heap args with
  | error fault => exact Shallow.native maxDigits f _ args fault hresult
  | ok effect => rfl

theorem Machine.guardsCalls {limits : Limits} {m : Machine} (hdepth : m.depth ≤ limits.maxCallDepth)
    (eval : Expr → Eval Value) (run : List Stmt → Eval (Option Value)) (span : Span)
    (name : Option String) : m.GuardsCalls limits eval run span name where
  refused := fun ref f args hf hargs hlimit => by
    rw [callValue_user limits eval run span name hf hargs, if_pos (Nat.le_of_eq hlimit.symm)]
  unbound := fun _ _ _ => ⟨rfl, rfl, rfl, rfl⟩
  granted := fun ref f args hf hargs hbelow => by
    rw [callValue_user limits eval run span name hf hargs,
      if_neg (Nat.not_le_of_lt (Nat.lt_of_le_of_ne hdepth hbelow))]
  surplus := fun ref f args hf hargs => by
    simp only [Step.callValue, bind_apply, Eval.machine, hf]
    rw [callUser_apply, if_pos hargs]
  native := fun ref f args hf => by
    simp only [Step.callValue, bind_apply, Eval.machine, hf]
    refine ⟨isCallDepth_callNative _ f _ args span m, ?_⟩
    exact (stable_continues limits).callNative _ f _ args span m
  uncallable := fun callee args hcallee => by
    cases callee with
    | function ref =>
      refine ⟨.function, ?_⟩
      simp only [Step.callValue, bind_apply, Eval.machine, hcallee ref rfl]
      rfl
    | number | string | boolean | array | dictionary => exact ⟨_, rfl⟩

/-- Only the bottom frame is there, and it is not about to return. -/
def Machine.IsReset (m : Machine) : Prop :=
  m.calls = [] ∧ m.root.pending = none

theorem Session.isReset_run (limits : Limits) (budget : Nat) (program : Program) (source : String)
    (m : Machine) : (Session.run limits budget program source m).machine.IsReset := by
  unfold Session.run
  rw [Outcome.machine_mapMachine]
  exact ⟨rfl, rfl⟩

/-- **The frame stack is kept, and its depth limited.** In every state of a session:

- no more calls are in progress than allowed;
- a function of the script that can take its arguments is refused exactly if as many calls are in
  progress as allowed, and then nothing of the call has been evaluated or bound;
- a call leaves all frames as it finds them, however it ends.

Between requests no call is in progress, and a request fails for the depth of calls exactly if it
comes to such a refused call. After a run, however it ends, the bottom frame is alone and not about
to return. -/
theorem frame_stack_is_kept_and_limited (config : Config) (registry : Registry)
    (arrays : Array (Array Value)) (dictionaries : Array Dictionary) (limits : Limits)
    (script : Code) (budget : Nat) :
    let start := Session.start config registry { arrays, dictionaries }
    (∀ k, Session.Reaches limits script start k →
      k.depth ≤ limits.maxCallDepth ∧
        (∀ eval run span name, k.GuardsCalls limits eval run span name) ∧
        ∀ callee args span name,
          (Step.callValue limits (evalExpr limits budget) (sequence (execStmt limits budget) none)
            callee args span name k).machine.frames = k.frames) ∧
    (∀ m, Session.Idle limits script start m → m.calls = [] ∧
      ∀ r : Session.Request,
        (r.perform limits budget m).RecordsRefusal limits.maxCallDepth m.log) ∧
    ∀ m : Machine,
      (∀ program source, (Session.run limits budget program source m).machine.IsReset) ∧
      ∀ source file program, Program.parse source file = .ok program →
        (Session.runSource limits budget source file m).machine.IsReset := by
  intro start
  have hstart : start.calls = [] :=
    (Session.sound_start config registry arrays dictionaries).calls_eq_nil
  refine ⟨fun k hk => ?_, fun m hm => ?_, fun m => ⟨fun program source => ?_, ?_⟩⟩
  · obtain ⟨calls, hcalls⟩ := hk.situation hstart
    have hdepth : k.depth ≤ limits.maxCallDepth := hcalls.depth_le hstart
    exact ⟨hdepth, k.guardsCalls hdepth, fun callee args span name =>
      framesKept_callValue limits budget callee args span name k⟩
  · have hdepth : m.depth ≤ limits.maxCallDepth := (hm.situation hstart).depth_le hstart
    exact ⟨hm.calls_eq_nil hstart, fun r => r.recordsRefusal hdepth⟩
  · exact Session.isReset_run limits budget program source m
  · intro source file program hparse
    rw [Session.runSource_of_parse hparse]
    exact Session.isReset_run limits budget program source m

/-- A function that calls itself, with one call allowed: in its body another call is refused, and a
run that comes there fails with the bottom frame alone. -/
theorem frame_stack_is_kept_and_limited_in_recursion :
    let span : Span := ⟨none, .start, .start⟩
    let again : Stmt := .call span span (.name span "f") []
    let l : Literal := ⟨[], .mk span [again]⟩
    let defining : Stmt := .assignVariable span span "f" (.function span l.parameters l.body)
    let limits : Limits := { maxCallDepth := 1 }
    let start := Session.start { loadBuiltins := false } .standard
    let f := start.functionOf (some "f") l
    let m := ((Session.Request.evaluateStmt defining).perform limits 1 start).machine
    let k := m.called f "f" 0
    let outcome := Session.run limits 9 ⟨span, [defining, again]⟩ "" start
    (Session.Reaches limits .any start k ∧
      Step.callValue limits (evalExpr limits 9) (sequence (execStmt limits 9) none) (.function ⟨0⟩)
        [] span none k = .failed (.ofRuntime (.callDepth 1) span) (k.prepared f "f" 0)) ∧
    (Session.Idle limits .any start start ∧ outcome.isCallDepth = true ∧
      (∃ event ∈ outcome.machine.log, event.isRefused 1 = true) ∧ outcome.machine.IsReset) := by
  intro span again l defining limits start f m k outcome
  have hstart : Session.Idle limits .any start start := .start
  have hm : Session.Idle limits .any start m :=
    .request hstart (.evaluateStmt defining) (Session.Request.within_any _) 1
  have hk : Session.Reaches limits .any start k :=
    hm.reaches_body ⟨0⟩ [] (f := f) rfl (by decide) (by decide) (fun _ => rfl) rfl
  obtain ⟨hreached, hrequests, hruns⟩ :=
    frame_stack_is_kept_and_limited { loadBuiltins := false } .standard #[] #[] limits .any 9
  obtain ⟨-, hguards, -⟩ := hreached k hk
  have hrefused := (hguards (evalExpr limits 9) (sequence (execStmt limits 9) none) span none).refused
    ⟨0⟩ f [] rfl (by decide) rfl
  have hfails : outcome.isCallDepth = true := rfl
  refine ⟨⟨hk, hrefused⟩, hstart, hfails, ?_, ?_⟩
  · obtain ⟨events, hlog, hrecords⟩ := (hrequests start hstart).2 (.run ⟨span, [defining, again]⟩ "")
    obtain ⟨event, hevent, hdeep⟩ := hrecords.mp hfails
    have hlogged : outcome.machine.log = start.log ++ events := hlog
    rw [hlogged]
    exact ⟨event, Array.mem_append_right _ hevent, hdeep⟩
  · exact (hruns start).1 ⟨span, [defining, again]⟩ ""

end DecimalScript
