import DecimalScript.Machine.Step
import DecimalScript.Proofs.BuiltinEffects

/-!
# What every evaluation keeps

Evaluation changes a machine through a handful of updates: it logs, writes to containers, makes
functions, assigns variables, declares names global, notes a return, and enters and leaves calls. A
relation between an earlier and a later machine that each of these updates respects therefore holds
between the start and the end of every evaluation, whether it succeeds, fails or runs out of budget.

- `Eval.Keeps R x`: the machine at the end of `x` is `R`-related to the one at its start.
- `Stable limits E S`: the updates of expressions respect `E`, those of statements respect `S`.
- `Stable.evalExpr`, `Stable.execStmt`: the induction over all steps, done once.
- `framesKept_evalExpr`, `frameKept_execStmt`: the discipline of the frame stack.
-/

namespace DecimalScript

namespace Outcome

variable {α : Type}

@[simp] theorem machine_mapMachine (f : Machine → Machine) (o : Outcome α) :
    (o.mapMachine f).machine = f o.machine := by
  cases o <;> rfl

@[simp] theorem machine_mapFailure (f : Failure → Failure) (o : Outcome α) :
    (o.mapFailure f).machine = o.machine := by
  cases o <;> rfl

end Outcome

namespace Eval

variable {α β : Type}

instance : LawfulMonad Eval := LawfulMonad.mk' Eval
  (fun x => by
    funext m
    show (x >>= fun a => pure a) m = x m
    rw [bind_apply]
    cases x m <;> rfl)
  (fun _ _ => rfl)
  (fun x f g => by
    funext m
    rw [bind_apply, bind_apply, bind_apply]
    cases x m <;> rfl)

/-! ### Relations kept by an evaluation -/

/-- However it ends, the evaluation relates the machine at its start to the one at its end. -/
def Keeps (R : Machine → Machine → Prop) (x : Eval α) : Prop :=
  ∀ m, R m (x m).machine

/-- A relation that may be read as "nothing forbidden has happened in between". -/
structure Steady (R : Machine → Machine → Prop) : Prop where
  refl : ∀ m, R m m
  trans : ∀ {a b c}, R a b → R b c → R a c

variable {R : Machine → Machine → Prop}

theorem Keeps.mono {R' : Machine → Machine → Prop} {x : Eval α}
    (h : ∀ {a b}, R a b → R' a b) (hx : Keeps R x) : Keeps R' x :=
  fun m => h (hx m)

theorem Keeps.pure (hR : Steady R) (a : α) : Keeps R (pure a : Eval α) :=
  fun m => hR.refl m

/-- Two evaluations in a row keep what both keep, also where the first one fails. -/
theorem Keeps.bind (hR : Steady R) {x : Eval α} {f : α → Eval β} (hx : Keeps R x)
    (hf : ∀ a, Keeps R (f a)) : Keeps R (x >>= f) := by
  intro m
  have hm := hx m
  rw [bind_apply]
  cases h : x m with
  | done a later =>
    rw [h] at hm
    exact hR.trans hm (hf a later)
  | failed failure later =>
    rw [h] at hm
    exact hm
  | exhausted later =>
    rw [h] at hm
    exact hm

theorem Keeps.map (hR : Steady R) {x : Eval α} (f : α → β) (hx : Keeps R x) :
    Keeps R (f <$> x) :=
  .bind hR hx fun a => .pure hR (f a)

/-- A change to the machine keeps a relation if it is in it. -/
theorem Keeps.update {f : Machine → Machine} (h : ∀ m, R m (f m)) : Keeps R (update f) :=
  h

theorem Keeps.machine (hR : Steady R) : Keeps R machine :=
  fun m => hR.refl m

theorem Keeps.pending (hR : Steady R) : Keeps R pending :=
  fun m => hR.refl m

theorem Keeps.fail (hR : Steady R) (fault : RuntimeFault) (span : Span) :
    Keeps R (fail fault span : Eval α) :=
  fun m => hR.refl m

theorem Keeps.exhaust (hR : Steady R) : Keeps R (exhaust : Eval α) :=
  fun m => hR.refl m

theorem Keeps.ofExcept (hR : Steady R) (span : Span) :
    ∀ x : Except RuntimeFault α, Keeps R (ofExcept span x)
  | .ok a => .pure hR a
  | .error fault => .fail hR fault span

theorem Keeps.ite {p : Prop} [Decidable p] {x y : Eval α} (hx : Keeps R x) (hy : Keeps R y) :
    Keeps R (if p then x else y) := by
  split
  · exact hx
  · exact hy

/-! ### Repetition -/

/-- Evaluations in a row keep what each of them keeps. -/
theorem Keeps.all (hR : Steady R) {f : α → Eval β} (hf : ∀ a, Keeps R (f a)) :
    ∀ as, Keeps R (all f as)
  | [] => .pure hR []
  | a :: as => .bind hR (hf a) fun _ => .bind hR (Keeps.all hR hf as) fun _ => .pure hR _

/-- Statements in a row keep what each of them keeps. -/
theorem Keeps.sequence (hR : Steady R) {run : α → Eval (Option Value)}
    (hrun : ∀ a, Keeps R (run a)) : ∀ as last, Keeps R (sequence run last as)
  | [], last => .pure hR last
  | a :: as, _ => by
    refine .bind hR (hrun a) fun result => .bind hR (.pending hR) fun p => ?_
    cases p with
    | some value => exact .pure hR (some value)
    | none => exact Keeps.sequence hR hrun as result

/-- A loop over elements keeps what every round keeps. -/
theorem Keeps.forEach (hR : Steady R) {body : α → Eval (Option Value)}
    (hbody : ∀ a, Keeps R (body a)) : ∀ as last, Keeps R (forEach body last as)
  | [], last => .pure hR last
  | a :: as, _ => by
    refine .bind hR (hbody a) fun result => .bind hR (.pending hR) fun p => ?_
    cases p with
    | some _ => exact .pure hR result
    | none => exact Keeps.forEach hR hbody as result

/-- A loop keeps what its test and its body keep, for every budget. -/
theorem Keeps.whileTrue (hR : Steady R) {test : Eval Bool} {body : Eval (Option Value)}
    (htest : Keeps R test) (hbody : Keeps R body) :
    ∀ budget last, Keeps R (whileTrue test body budget last)
  | 0, _ => .exhaust hR
  | budget + 1, last => by
    refine .bind hR htest fun holds => .ite ?_ (.pure hR last)
    refine .bind hR hbody fun result => .bind hR (.pending hR) fun p => ?_
    cases p with
    | some _ => exact .pure hR result
    | none => exact Keeps.whileTrue hR htest hbody budget result

end Eval

/-! ### Relations that the updates of evaluation respect -/

namespace Machine

/-- All frames, the active one first and the bottom one last. -/
def frames (m : Machine) : List Frame :=
  m.calls ++ [m.root]

/-- The machine with a new table for a call, sharing the cells of a closure. -/
def withCallTable (m : Machine) (closure : TableRef) : Machine :=
  { m with env := (m.env.addChild globalTable closure).2 }

/-- The machine with a frame on top of the others. -/
def enter (m : Machine) (frame : Frame) : Machine :=
  { m with calls := frame :: m.calls }

/-- The machine without the frame on top of the others. -/
def leave (m : Machine) : Machine :=
  { m with calls := m.calls.tail }

/-- The frame in use is the first one. -/
theorem frames_eq_cons (m : Machine) : m.frames = m.frame :: m.frames.tail := by
  rcases m with ⟨env, heap, root, calls, output, log⟩
  cases calls <;> rfl

theorem frame_modifyFrame (m : Machine) (f : Frame → Frame) :
    (m.modifyFrame f).frame = f m.frame := by
  rcases m with ⟨env, heap, root, calls, output, log⟩
  cases calls <;> rfl

theorem waiting_modifyFrame (m : Machine) (f : Frame → Frame) :
    (m.modifyFrame f).frames.tail = m.frames.tail := by
  rcases m with ⟨env, heap, root, calls, output, log⟩
  cases calls <;> rfl

theorem frame_eq_of_frames {m later : Machine} (h : later.frames = m.frames) :
    later.frame = m.frame := by
  rw [frames_eq_cons, frames_eq_cons m] at h
  exact (List.cons.inj h).1

/-- Leaving a call whose waiting frames are those of `m` restores all frames of `m`. -/
theorem frames_leave {m later : Machine} (h : later.frames.tail = m.frames) :
    later.leave.frames = m.frames := by
  rcases later with ⟨env, heap, root, calls, output, log⟩
  cases calls with
  | nil =>
    rw [frames_eq_cons m] at h
    cases h
  | cons frame calls => exact h

end Machine

open Eval

/-- What the updates of expressions (`E`) and of statements (`S`) respect. Between entering and
leaving a call only statements run, so a call respects `E` if its statements respect `S`. -/
structure Stable (limits : Limits) (E S : Machine → Machine → Prop) : Prop where
  expr : Steady E
  stmt : Steady S
  lift : ∀ {a b}, E a b → S a b
  table : ∀ {a b}, S a b → b.frame.table = a.frame.table
  record : ∀ m event, E m (m.record event)
  data : ∀ (m : Machine) arrays dictionaries output,
    E m { m with heap := { m.heap with arrays, dictionaries }, output }
  makeFunction : ∀ m name span parameters body,
    E m (Step.makeFunction limits name span parameters body m).machine
  assign : ∀ m name value, S m (m.assign m.frame.table name (some value))
  define : ∀ m name value, S m (m.define m.frame.table name value)
  declareGlobal : ∀ m name, S m (Step.declareGlobal m name)
  withCallTable : ∀ m closure, E m (m.withCallTable closure)
  call : ∀ (m later : Machine) (frame : Frame), S (m.enter frame) later → E m later.leave

namespace Stable

variable {limits : Limits} {E S : Machine → Machine → Prop}
  {eval : Expr → Eval Value} {run : List Stmt → Eval (Option Value)}
  {exec : Stmt → Eval (Option Value)}

/-! ### Functions -/

theorem defaultValue (h : Stable limits E S) (heval : ∀ e, Keeps E (eval e)) (p : Parameter) :
    Keeps E (Step.defaultValue eval p) := by
  unfold Step.defaultValue
  split
  · exact .map h.expr some (heval _)
  · exact .pure h.expr none

/-- Parameters are bound in the table of the active frame, so binding is a step of statements. -/
theorem bindParameters (h : Stable limits E S) (heval : ∀ e, Keeps E (eval e)) :
    ∀ (ps : List Parameter) (args : List Value) (m : Machine),
      S m (Step.bindParameters eval m.frame.table ps args m).machine
  | [], _, m => h.stmt.refl m
  | p :: ps, a :: as, m => by
    have hdefine := h.define m p.name (some a)
    -- The table is the one the call started with. A stable relation keeps it, so the remaining
    -- parameters are bound in the same one.
    have hrest := bindParameters h heval ps as (m.define m.frame.table p.name (some a))
    rw [h.table hdefine] at hrest
    exact h.stmt.trans hdefine hrest
  | p :: ps, [], m => by
    have hvalue := h.lift (h.defaultValue heval p m)
    unfold Step.bindParameters
    rw [bind_apply]
    -- A default is evaluated in the new frame, and only when no argument is left.
    cases hm : Step.defaultValue eval p m with
    | failed failure later =>
      rw [hm] at hvalue
      exact hvalue
    | exhausted later =>
      rw [hm] at hvalue
      exact hvalue
    | done value later =>
      rw [hm] at hvalue
      have hdefine := h.define later p.name value
      have hrest := bindParameters h heval ps [] (later.define later.frame.table p.name value)
      rw [h.table hdefine] at hrest
      have htable : later.frame.table = m.frame.table := h.table hvalue
      rw [htable] at hdefine hrest
      exact h.stmt.trans hvalue (h.stmt.trans hdefine hrest)

/-- The effect of a built-in function is on the heap or the output. -/
theorem perform (h : Stable limits E S) (m : Machine) (effect : Effect) :
    E m (m.perform effect) := by
  cases effect <;> exact h.data m _ _ _

/-- A built-in function is on record and has its effect, or fails. -/
theorem callNative (h : Stable limits E S) (maxDigits : Nat) (f : NativeFunction) (label : String)
    (args : List Value) (span : Span) :
    Keeps E (Step.callNative maxDigits f label args span) := by
  refine .bind h.expr (.update fun m => h.record m _) fun _ m => ?_
  rw [f.run_eq_effect]
  cases f.effect maxDigits m.heap args with
  | error fault => exact h.expr.refl m
  | ok effect => exact h.perform m effect

/-- A frame that is entered is left, however the evaluation in it ends. -/
theorem inFrame (h : Stable limits E S) {α : Type} {x : Eval α} {frame : Frame} {m : Machine}
    (hx : S (m.enter frame) (x (m.enter frame)).machine) :
    E m (Eval.inFrame frame x m).machine := by
  have hcall := h.call m _ frame hx
  unfold Eval.inFrame
  change E m (Outcome.mapMachine _ (x (m.enter frame))).machine
  cases hend : x (m.enter frame) <;> rw [hend] at hcall <;> exact hcall

/-- A call keeps the frames of its caller, since it runs in a frame of its own. -/
theorem runCall (h : Stable limits E S) (heval : ∀ e, Keeps E (eval e))
    (hrun : ∀ ss, Keeps S (run ss)) (f : UserFunction) (table : TableRef) (label : String)
    (args : List Value) : Keeps E (Step.runCall eval run f table label args) := by
  intro m
  refine h.inFrame ?_
  -- The frame entered here is left again on every way out, so it is enough that the relation for
  -- statements holds inside it.
  have hbind := h.bindParameters heval f.parameters args
    (m.enter { table, globalNames := f.globalNames, label := some label })
  change S _ (Step.bindParameters eval table f.parameters args _).machine at hbind
  rw [bind_apply]
  cases hm : Step.bindParameters eval table f.parameters args
      (m.enter { table, globalNames := f.globalNames, label := some label }) with
  | done u later =>
    rw [hm] at hbind
    exact h.stmt.trans hbind (hrun _ later)
  | failed failure later =>
    rw [hm] at hbind
    exact hbind
  | exhausted later =>
    rw [hm] at hbind
    exact hbind

theorem callUser (h : Stable limits E S) (heval : ∀ e, Keeps E (eval e))
    (hrun : ∀ ss, Keeps S (run ss)) (f : UserFunction) (label : String) (args : List Value)
    (span : Span) : Keeps E (Step.callUser limits eval run f label args span) := by
  refine .ite (.fail h.expr _ _) ?_
  refine .bind h.expr (fun m => h.withCallTable m f.closure) fun table => ?_
  refine .bind h.expr (.machine h.expr) fun m => ?_
  refine .bind h.expr (.update fun m => h.record m _) fun _ => .ite (.fail h.expr _ _) ?_
  exact h.runCall heval hrun f table label args

/-- Whatever is called keeps what evaluations keep. -/
theorem callValue (h : Stable limits E S) (heval : ∀ e, Keeps E (eval e))
    (hrun : ∀ ss, Keeps S (run ss)) (callee : Value) (args : List Value) (span : Span)
    (name : Option String) : Keeps E (Step.callValue limits eval run callee args span name) := by
  cases callee with
  | function ref =>
    refine .bind h.expr (.machine h.expr) fun m => ?_
    split
    · exact h.callNative _ _ _ _ _
    · exact h.callUser heval hrun _ _ _ _
    · exact .fail h.expr _ _
  | number | string | boolean | array | dictionary => exact .fail h.expr _ _

/-! ### Expressions -/

theorem readVariable (h : Stable limits E S) (name : String) (span : Span) :
    Keeps E (Step.readVariable name span) := by
  intro m
  unfold Step.readVariable
  split
  · exact h.expr.refl m
  · exact h.expr.refl m

theorem condition (h : Stable limits E S) (heval : ∀ e, Keeps E (eval e)) (e : Expr) :
    Keeps E (Step.condition eval e) :=
  .bind h.expr (heval e) fun _ => .ofExcept h.expr _ _

/-- An operation keeps what its operands keep; the operator itself changes nothing. -/
theorem binary (h : Stable limits E S) (heval : ∀ e, Keeps E (eval e)) (span : Span)
    (op : BinaryOp) (left right : Expr) : Keeps E (Step.binary limits eval span op left right) := by
  cases op with
  | and =>
    refine .bind h.expr (h.condition heval left) fun _ => .ite ?_ (.pure h.expr _)
    exact .bind h.expr (h.condition heval right) fun _ => .pure h.expr _
  | or =>
    refine .bind h.expr (h.condition heval left) fun _ => .ite (.pure h.expr _) ?_
    exact .bind h.expr (h.condition heval right) fun _ => .pure h.expr _
  | concat =>
    refine .bind h.expr (heval left) fun _ => .bind h.expr (heval right) fun _ => ?_
    refine .bind h.expr (.machine h.expr) fun _ => .bind h.expr (.ofExcept h.expr _ _) fun _ => ?_
    exact .bind h.expr (.ofExcept h.expr _ _) fun _ => .pure h.expr _
  | relation r =>
    refine .bind h.expr (heval left) fun _ => .bind h.expr (heval right) fun _ => ?_
    exact .bind h.expr (.ofExcept h.expr _ _) fun _ => .pure h.expr _
  | arithmetic op =>
    refine .bind h.expr (heval left) fun _ => .bind h.expr (heval right) fun _ => ?_
    refine .bind h.expr (.ofExcept h.expr _ _) fun _ => .bind h.expr (.ofExcept h.expr _ _) ?_
    exact fun _ => .bind h.expr (.ofExcept h.expr _ _) fun _ => .pure h.expr _

theorem unary (h : Stable limits E S) (heval : ∀ e, Keeps E (eval e)) (op : UnaryOp)
    (operand : Expr) : Keeps E (Step.unary eval op operand) := by
  refine .bind h.expr (heval operand) fun value => ?_
  cases op <;> exact .bind h.expr (.ofExcept h.expr _ _) fun _ => .pure h.expr _

theorem element (h : Stable limits E S) (maxDigits : Nat) (heap : Heap) (container key : Value)
    (targetSpan keySpan : Span) :
    Keeps E (Step.element maxDigits heap container key targetSpan keySpan) := by
  cases container with
  | array ref =>
    refine .bind h.expr (.ofExcept h.expr _ _) fun index => ?_
    split
    · exact .pure h.expr _
    · exact .fail h.expr _ _
  | dictionary ref =>
    cases hget : (heap.dictionary ref).get? key with
    | some value =>
      simp only [Step.element, hget]
      exact .pure h.expr value
    | none =>
      simp only [Step.element, hget]
      exact .bind h.expr (.ofExcept h.expr _ _) fun _ => .fail h.expr _ _
  | number | string | boolean | function => exact .fail h.expr _ _

theorem namedCallee (h : Stable limits E S) (name : String) (span : Span) :
    Keeps E (Step.namedCallee name span) := by
  intro m
  unfold Step.namedCallee
  split
  · exact h.expr.refl m
  · exact h.expr.refl m

/-- What is called is evaluated, or read as a variable. -/
theorem callee (h : Stable limits E S) (heval : ∀ e, Keeps E (eval e)) (e : Expr) :
    Keeps E (Step.callee eval e) := by
  unfold Step.callee
  split
  · exact h.namedCallee _ _
  · exact .bind h.expr (heval _) fun _ => .pure h.expr _

theorem callExpr (h : Stable limits E S) (heval : ∀ e, Keeps E (eval e))
    (hrun : ∀ ss, Keeps S (run ss)) (span : Span) (target : Expr) (arguments : List Expr) :
    Keeps E (Step.call limits eval run span target arguments) := by
  refine .bind h.expr (h.callee heval target) fun ⟨function, name⟩ => ?_
  refine .ite (.fail h.expr _ _) ?_
  exact .bind h.expr (.all h.expr heval arguments) fun args =>
    h.callValue heval hrun function args span name

/-- A step of an expression respects what its parts respect. -/
theorem exprStep (h : Stable limits E S) (heval : ∀ e, Keeps E (eval e))
    (hrun : ∀ ss, Keeps S (run ss)) (e : Expr) : Keeps E (Step.expr limits eval run e) := by
  cases e with
  | number | string | boolean => exact .pure h.expr _
  | name span name => exact h.readVariable name span
  | lookup span target key =>
    refine .bind h.expr (heval target) fun _ => .bind h.expr (heval key) fun _ => ?_
    exact .bind h.expr (.machine h.expr) fun _ => h.element _ _ _ _ _ _
  | binary span op left right => exact h.binary heval span op left right
  | unary span op operand => exact h.unary heval op operand
  | array span elements =>
    exact .bind h.expr (.all h.expr heval elements) fun _ m => h.data m _ _ _
  | dictionary span es =>
    refine .bind h.expr (.all h.expr (fun entry => ?_) es) fun _ m => h.data m _ _ _
    exact .bind h.expr (heval entry.key) fun _ => .bind h.expr (heval entry.value) fun _ =>
      .pure h.expr _
  | function span parameters body => exact fun m => h.makeFunction m _ _ _ _
  | call span target arguments =>
    refine .bind h.expr (h.callExpr heval hrun span target arguments) fun value => ?_
    cases value with
    | some value => exact .pure h.expr value
    | none => exact .fail h.expr _ _

/-! ### Statements -/

theorem block (h : Stable limits E S) (hexec : ∀ s, Keeps S (exec s)) (b : Block) :
    Keeps S (Step.block exec b) :=
  .sequence h.stmt hexec _ _

theorem assignVariable (h : Stable limits E S) (name : String) (value : Value) :
    Keeps S (Step.assignVariable name value) :=
  .update fun m => h.assign m name value

theorem assignedValue (h : Stable limits E S) (heval : ∀ e, Keeps E (eval e)) (name : String)
    (e : Expr) : Keeps E (Step.assignedValue limits eval name e) := by
  cases e with
  | function span parameters body => exact fun m => h.makeFunction m _ _ _ _
  | _ => exact heval _

theorem storeElement (h : Stable limits E S) (container key value : Value)
    (targetSpan keySpan : Span) :
    Keeps E (Step.storeElement container key value targetSpan keySpan) := by
  cases container with
  | array ref =>
    refine .bind h.expr (.machine h.expr) fun _ => .bind h.expr (.ofExcept h.expr _ _) fun _ => ?_
    exact .update fun m => h.data m _ _ _
  | dictionary ref => exact .update fun m => h.data m _ _ _
  | number | string | boolean | function => exact .fail h.expr _ _

/-- Declarations change the frame and its table, and nothing else. -/
theorem declareGlobals (h : Stable limits E S) :
    ∀ (names : List String) (m : Machine), S m (names.foldl Step.declareGlobal m)
  | [], m => h.stmt.refl m
  | name :: names, m =>
    h.stmt.trans (h.declareGlobal m name) (declareGlobals h names (Step.declareGlobal m name))

theorem otherwise (h : Stable limits E S) (heval : ∀ e, Keeps E (eval e))
    (hexec : ∀ s, Keeps S (exec s)) : ∀ o, Keeps S (Step.otherwise eval exec o)
  | .nothing => .pure h.stmt _
  | .block b => h.block hexec b
  | .branch _ test body later =>
    .bind h.stmt ((h.condition heval test).mono h.lift) fun _ =>
      .ite (h.block hexec body) (otherwise h heval hexec later)

/-- A loop over a container keeps what its rounds keep. -/
theorem each (h : Stable limits E S) (hexec : ∀ s, Keeps S (exec s)) (source : Value)
    (span : Span) (key : Option String) (value : String) (body : Block) :
    Keeps S (Step.each exec source span key value body) := by
  refine .bind h.stmt (.machine h.stmt) fun m => ?_
  split
  · exact .forEach h.stmt
      (fun v => .bind h.stmt (h.assignVariable _ _) fun _ => h.block hexec body) _ _
  · exact .fail h.stmt _ _
  · exact .fail h.stmt _ _
  · exact .forEach h.stmt
      (fun v => .bind h.stmt (h.assignVariable _ _) fun _ =>
        .bind h.stmt (h.assignVariable _ _) fun _ => h.block hexec body) _ _
  · exact .fail h.stmt _ _

/-- A step of a statement respects what its parts respect, if noting a return does. -/
theorem stmtStep (h : Stable limits E S)
    (hreturn : ∀ (m : Machine) value, S m (m.modifyFrame ({ · with pending := some value })))
    (budget : Nat) (heval : ∀ e, Keeps E (eval e)) (hexec : ∀ s, Keeps S (exec s)) (s : Stmt) :
    Keeps S (Step.stmt limits budget eval exec s) := by
  have hexpr : ∀ e, Keeps S (eval e) := fun e => (heval e).mono h.lift
  cases s with
  | assignVariable span nameSpan name value =>
    refine .bind h.stmt ((h.assignedValue heval name value).mono h.lift) fun v => ?_
    exact .bind h.stmt (h.assignVariable name v) fun _ => .pure h.stmt _
  | assignElement span lookupSpan target key value =>
    refine .bind h.stmt (hexpr value) fun v => .bind h.stmt (hexpr target) fun container => ?_
    refine .bind h.stmt (hexpr key) fun index => ?_
    exact .bind h.stmt ((h.storeElement container index v _ _).mono h.lift) fun _ =>
      .pure h.stmt _
  | call span callSpan target arguments =>
    exact (h.callExpr heval (fun ss => .sequence h.stmt hexec ss none) callSpan target
      arguments).mono h.lift
  | ret span value =>
    refine .bind h.stmt (hexpr value) fun v => ?_
    -- Only a return needs the hypothesis of its own: it alone writes the pending signal.
    exact .bind h.stmt (.update fun m => hreturn m v) fun _ => .pure h.stmt _
  | declareGlobal span names =>
    exact .bind h.stmt (.update fun m => h.declareGlobals names m) fun _ => .pure h.stmt _
  | branch span test body later =>
    exact .bind h.stmt ((h.condition heval test).mono h.lift) fun _ =>
      .ite (h.block hexec body) (h.otherwise heval hexec later)
  | loop span test body =>
    exact .whileTrue h.stmt ((h.condition heval test).mono h.lift) (h.block hexec body) _ _
  | each span source key value body =>
    exact .bind h.stmt (hexpr source) fun v => h.each hexec v _ key value body

/-- Every evaluation respects what the updates respect: by induction on the budget, which bounds
the nesting of steps. -/
theorem evaluation (h : Stable limits E S)
    (hreturn : ∀ (m : Machine) value, S m (m.modifyFrame ({ · with pending := some value }))) :
    ∀ budget, (∀ e, Keeps E (evalExpr limits budget e)) ∧ ∀ s, Keeps S (execStmt limits budget s)
  | 0 => ⟨fun _ => .exhaust h.expr, fun _ => .exhaust h.stmt⟩
  | budget + 1 => by
    obtain ⟨heval, hexec⟩ := evaluation h hreturn budget
    refine ⟨fun e => ?_, fun s => ?_⟩
    · exact h.exprStep heval (fun ss => .sequence h.stmt hexec ss none) e
    · exact h.stmtStep hreturn budget heval hexec s

end Stable

/-! ### The discipline of the frame stack

An expression leaves all frames as it finds them. A statement may change the active frame, in what
it declares global and in what it returns, and leaves the frames below it alone. -/

/-- All frames are the same. -/
def Machine.FramesKept (m later : Machine) : Prop :=
  later.frames = m.frames

/-- The frames below the active one are the same, and the active one has moved along `F`. -/
def Machine.FrameKept (F : Frame → Frame → Prop) (m later : Machine) : Prop :=
  later.frames.tail = m.frames.tail ∧ F m.frame later.frame

/-- The frames differ at most in what is declared global and what is about to be returned. -/
def Frame.Continues (f g : Frame) : Prop :=
  g.table = f.table ∧ g.label = f.label

/-- The frames differ at most in what is declared global. -/
def Frame.Waits (f g : Frame) : Prop :=
  f.Continues g ∧ g.pending = f.pending

/-- Making a function enters no frame. -/
theorem frames_makeFunction (limits : Limits) (name : Option String) (span : Span)
    (parameters : List Parameter) (body : Block) (m : Machine) :
    (Step.makeFunction limits name span parameters body m).machine.frames = m.frames := by
  have himport : ∀ (closure : TableRef) (names : Names) (m : Machine),
      (names.foldl (fun m n => m.importGlobal closure n) m).frames = m.frames := by
    intro closure names
    induction names with
    | nil => exact fun _ => rfl
    | cons name names ih => exact fun m => ih (m.importGlobal closure name)
  unfold Step.makeFunction
  exact himport _ _ _

/-- Declaring a name changes nothing else of the frames. -/
theorem frames_declareGlobal (m : Machine) (name : String) :
    (Step.declareGlobal m name).frames =
      (m.modifyFrame fun frame =>
        { frame with globalNames := frame.globalNames.add name }).frames := by
  dsimp only [Step.declareGlobal]
  split <;> rfl

/-- If a relation of frames is steady, so is its lift to the frame in use. -/
theorem steady_frameKept {F : Frame → Frame → Prop} (hrefl : ∀ f, F f f)
    (htrans : ∀ {f g h}, F f g → F g h → F f h) : Steady (Machine.FrameKept F) :=
  ⟨fun m => ⟨rfl, hrefl m.frame⟩, fun hab hbc => ⟨hbc.1.trans hab.1, htrans hab.2 hbc.2⟩⟩

/-- Where all frames are kept, the one in use is. -/
theorem frameKept_of_framesKept {F : Frame → Frame → Prop} (hrefl : ∀ f, F f f) {m later : Machine}
    (h : m.FramesKept later) : m.FrameKept F later := by
  refine ⟨congrArg List.tail h, ?_⟩
  rw [Machine.frame_eq_of_frames h]
  exact hrefl m.frame

/-- The discipline, for any way `F` in which the active frame may move that allows declarations. -/
theorem stable_frames (limits : Limits) {F : Frame → Frame → Prop} (hrefl : ∀ f, F f f)
    (htrans : ∀ {f g h}, F f g → F g h → F f h) (htable : ∀ {f g}, F f g → g.table = f.table)
    (hglobal : ∀ (f : Frame) names, F f { f with globalNames := names }) :
    Stable limits Machine.FramesKept (Machine.FrameKept F) where
  expr := ⟨fun _ => rfl, fun hab hbc => hbc.trans hab⟩
  stmt := steady_frameKept hrefl htrans
  lift := frameKept_of_framesKept hrefl
  table := fun hab => htable hab.2
  record := fun _ _ => rfl
  data := fun _ _ _ _ => rfl
  makeFunction := fun m _ _ _ _ => frames_makeFunction limits _ _ _ _ m
  assign := fun m _ _ => ⟨rfl, hrefl m.frame⟩
  define := fun m _ _ => ⟨rfl, hrefl m.frame⟩
  declareGlobal := fun m name => by
    have hframes := frames_declareGlobal m name
    refine ⟨?_, ?_⟩
    · rw [hframes, Machine.waiting_modifyFrame]
    · rw [Machine.frame_eq_of_frames hframes, Machine.frame_modifyFrame]
      exact hglobal m.frame _
  withCallTable := fun _ _ => rfl
  call := fun _ _ _ h => Machine.frames_leave h.1

theorem Frame.Continues.refl (f : Frame) : f.Continues f := ⟨rfl, rfl⟩

theorem Frame.Continues.trans {f g h : Frame} (hfg : f.Continues g) (hgh : g.Continues h) :
    f.Continues h :=
  ⟨hgh.1.trans hfg.1, hgh.2.trans hfg.2⟩

theorem Frame.Waits.refl (f : Frame) : f.Waits f := ⟨.refl f, rfl⟩

theorem Frame.Waits.trans {f g h : Frame} (hfg : f.Waits g) (hgh : g.Waits h) : f.Waits h :=
  ⟨hfg.1.trans hgh.1, hgh.2.trans hfg.2⟩

/-- Evaluations keep all frames, and statements all but the one in use, which continues. -/
theorem stable_continues (limits : Limits) :
    Stable limits Machine.FramesKept (Machine.FrameKept Frame.Continues) :=
  stable_frames limits .refl .trans (fun h => h.1) (fun _ _ => ⟨rfl, rfl⟩)

/-- Declarations are the only change of a frame that a statement makes without returning. -/
theorem stable_waits (limits : Limits) :
    Stable limits Machine.FramesKept (Machine.FrameKept Frame.Waits) :=
  stable_frames limits .refl .trans (fun h => h.1.1) (fun _ _ => ⟨⟨rfl, rfl⟩, rfl⟩)

/-- A return is noted in the frame in use, which continues. -/
theorem frameKept_return (m : Machine) (value : Value) :
    m.FrameKept Frame.Continues (m.modifyFrame ({ · with pending := some value })) := by
  refine ⟨m.waiting_modifyFrame _, ?_⟩
  rw [Machine.frame_modifyFrame]
  exact ⟨rfl, rfl⟩

/-- **Frame discipline of expressions**: evaluating an expression leaves the frame stack exactly as
it finds it, however it ends. -/
theorem framesKept_evalExpr (limits : Limits) (budget : Nat) (e : Expr) :
    Keeps Machine.FramesKept (evalExpr limits budget e) :=
  ((stable_continues limits).evaluation frameKept_return budget).1 e

/-- **Frame discipline of statements**: executing a statement leaves the frames below the active one
exactly as it finds them, however it ends. -/
theorem frameKept_execStmt (limits : Limits) (budget : Nat) (s : Stmt) :
    Keeps (Machine.FrameKept Frame.Continues) (execStmt limits budget s) :=
  ((stable_continues limits).evaluation frameKept_return budget).2 s

end DecimalScript
