import DecimalScript.Proofs.Stability

/-!
# A return unwinds exactly to its call

A machine carries a return as a note in the active frame, which statement lists and loops poll after
each of their parts. Here stands the semantics that this is meant to implement: executing a
statement ends normally, with a value or none, or returns a value; sequences, conditionals and loops
stop at the first part that returns; and a call makes its result of either ending. No frame is
touched by a return there.

- `Unwinding.evalExpr`, `Unwinding.execStmt`: the semantics in which a return is a way to end.
- `Unwinding.frameKept`: it leaves alone what any frame is about to return.
- `Unwinding.agreement`: both semantics agree, by induction on the budget.
- `return_unwinds_to_its_call`: statement lists, with what follows from a return.

## Why polling is enough

A note that a frame carries from before would be taken for one of its own. So both semantics are
compared from machines whose active frame has none, and have to keep it so between two parts:
`Refines` asks for the first, and `Kept` says that the reference semantics leaves the notes of all
frames alone. Every place that polls is then one lemma (`Refines.poll`), in which the note is there
exactly if the reference semantics has returned.

Expressions meet statements in calls alone. A call leaves its frame, and the note with it, on every
way out; so the evaluators of expressions are equal, and not just alike.
-/

namespace DecimalScript

open Eval

/-- How a statement ends: normally, with a value or none, or by returning a value. -/
inductive Completion where
  | normal (value : Option Value)
  | returned (value : Value)

/-- What a call makes of the ending of its body. -/
def Completion.result : Completion → Option Value
  | normal value => value
  | returned value => some value

namespace Unwinding

/-! ### The semantics in which a return is a way to end -/

/-- Runs items one after the other, up to the first that returns. -/
def sequence {α : Type} (run : α → Eval Completion) (last : Option Value) :
    List α → Eval Completion
  | [] => pure (.normal last)
  | a :: as => do
    match ← run a with
    | .normal value => sequence run value as
    | .returned value => return .returned value

/-- Runs a body while a test holds, up to the first round that returns; at most `budget` times. -/
def whileTrue (test : Eval Bool) (body : Eval Completion) :
    (budget : Nat) → (last : Option Value) → Eval Completion
  | 0, _ => exhaust
  | budget + 1, last => do
    if ← test then
      match ← body with
      | .normal value => whileTrue test body budget value
      | .returned value => return .returned value
    else return .normal last

/-- The statements of a block. -/
def block (exec : Stmt → Eval Completion) (b : Block) : Eval Completion :=
  sequence exec none b.statements

/-- The body of a function, as a call runs it. -/
def body (exec : Stmt → Eval Completion) (statements : List Stmt) : Eval (Option Value) :=
  Completion.result <$> sequence exec none statements

/-- What follows the block of a conditional whose condition is false. -/
def otherwise (eval : Expr → Eval Value) (exec : Stmt → Eval Completion) :
    Otherwise → Eval Completion
  | .nothing => pure (.normal (some (.boolean false)))
  | .block b => block exec b
  | .branch _ test body later => do
    if ← Step.condition eval test then block exec body else otherwise eval exec later

/-- A loop over a container. -/
def each (exec : Stmt → Eval Completion) (source : Value) (span : Span) (key : Option String)
    (value : String) (body : Block) : Eval Completion := do
  let heap := (← machine).heap
  match source, key with
  | .array ref, none =>
    sequence (fun v => do Step.assignVariable value v; block exec body) none
      (heap.array ref).toList
  | .array _, some _ => fail .pairsOfArray span
  | .dictionary _, none => fail .elementsOfDictionary span
  | .dictionary ref, some key =>
    sequence
      (fun entry => do
        Step.assignVariable key entry.1
        Step.assignVariable value entry.2
        block exec body)
      none (heap.dictionary ref).entries
  | v, _ => fail (.notIterable v.kind) span

/-- What a statement does, given what its parts do. -/
def stmt (limits : Limits) (budget : Nat) (eval : Expr → Eval Value)
    (exec : Stmt → Eval Completion) : Stmt → Eval Completion
  | .assignVariable _ _ name value => do
    let v ← Step.assignedValue limits eval name value
    Step.assignVariable name v
    return .normal (some v)
  | .assignElement _ _ target key value => do
    let v ← eval value
    let container ← eval target
    let index ← eval key
    Step.storeElement container index v target.span key.span
    return .normal (some v)
  | .call _ span target arguments => do
    return .normal (← Step.call limits eval (body exec) span target arguments)
  | .ret _ value => do return .returned (← eval value)
  | .declareGlobal _ names => do
    update fun m => names.foldl Step.declareGlobal m
    return .normal none
  | .branch _ test body later => do
    if ← Step.condition eval test then block exec body else otherwise eval exec later
  | .loop _ test body => whileTrue (Step.condition eval test) (block exec body) budget none
  | .each _ source key value body => do
    each exec (← eval source) source.span key value body

mutual

/-- The value of an expression, within a step budget. -/
def evalExpr (limits : Limits) : (budget : Nat) → Expr → Eval Value
  | 0, _ => exhaust
  | budget + 1, e => fun m =>
    Step.expr limits (evalExpr limits budget) (body (execStmt limits budget)) e m

/-- The ending of a statement, within a step budget. -/
def execStmt (limits : Limits) : (budget : Nat) → Stmt → Eval Completion
  | 0, _ => exhaust
  | budget + 1, s => fun m =>
    stmt limits budget (evalExpr limits budget) (execStmt limits budget) s m

end

/-! ### No frame is touched by a return -/

section Kept

variable {limits : Limits} {eval : Expr → Eval Value} {exec : Stmt → Eval Completion}

/-- What no evaluation of this semantics changes in the frames. -/
abbrev Kept : Machine → Machine → Prop := Machine.FrameKept Frame.Waits

theorem steady_kept : Steady Kept := steady_frameKept .refl .trans

/-- Statements in a row touch no frame where each of them touches none. -/
theorem kept_sequence {α : Type} {run : α → Eval Completion} (hrun : ∀ a, Keeps Kept (run a)) :
    ∀ as last, Keeps Kept (sequence run last as)
  | [], _ => .pure steady_kept _
  | a :: as, _ => by
    refine .bind steady_kept (hrun a) fun completion => ?_
    cases completion with
    | normal value => exact kept_sequence hrun as value
    | returned value => exact .pure steady_kept _

theorem kept_whileTrue {test : Eval Bool} {body : Eval Completion} (htest : Keeps Kept test)
    (hbody : Keeps Kept body) : ∀ budget last, Keeps Kept (whileTrue test body budget last)
  | 0, _ => .exhaust steady_kept
  | budget + 1, _ => by
    refine .bind steady_kept htest fun _ => .ite ?_ (.pure steady_kept _)
    refine .bind steady_kept hbody fun completion => ?_
    cases completion with
    | normal value => exact kept_whileTrue htest hbody budget value
    | returned value => exact .pure steady_kept _

/-- A condition keeps the frames, as every expression does. -/
theorem kept_condition (heval : ∀ e, Keeps Machine.FramesKept (eval e)) (e : Expr) :
    Keeps Kept (Step.condition eval e) :=
  .bind steady_kept ((heval e).mono (frameKept_of_framesKept .refl)) fun _ =>
    .ofExcept steady_kept _ _

theorem kept_otherwise (heval : ∀ e, Keeps Machine.FramesKept (eval e))
    (hexec : ∀ s, Keeps Kept (exec s)) : ∀ o, Keeps Kept (otherwise eval exec o)
  | .nothing => .pure steady_kept _
  | .block b => kept_sequence hexec b.statements none
  | .branch _ test body later =>
    .bind steady_kept (kept_condition heval test) fun _ =>
      .ite (kept_sequence hexec body.statements none) (kept_otherwise heval hexec later)

theorem kept_assignVariable (name : String) (value : Value) :
    Keeps Kept (Step.assignVariable name value) :=
  .update fun m => ⟨rfl, .refl m.frame⟩

theorem kept_each (hexec : ∀ s, Keeps Kept (exec s)) (source : Value) (span : Span)
    (key : Option String) (value : String) (body : Block) :
    Keeps Kept (each exec source span key value body) := by
  refine .bind steady_kept (.machine steady_kept) fun m => ?_
  split
  · exact kept_sequence (fun v => .bind steady_kept (kept_assignVariable value v) fun _ =>
      kept_sequence hexec _ _) _ _
  · exact .fail steady_kept _ _
  · exact .fail steady_kept _ _
  · exact kept_sequence (fun entry => .bind steady_kept (kept_assignVariable _ _) fun _ =>
      .bind steady_kept (kept_assignVariable _ _) fun _ => kept_sequence hexec _ _) _ _
  · exact .fail steady_kept _ _

theorem kept_body (hexec : ∀ s, Keeps Kept (exec s)) (ss : List Stmt) :
    Keeps Kept (body exec ss) :=
  .map steady_kept _ (kept_sequence hexec ss none)

/-- No statement takes a note in a frame in this semantics: a return is a way to end. -/
theorem kept_stmt (budget : Nat) (heval : ∀ e, Keeps Machine.FramesKept (eval e))
    (hexec : ∀ s, Keeps Kept (exec s)) (s : Stmt) :
    Keeps Kept (stmt limits budget eval exec s) := by
  have h := stable_waits limits
  have hexpr : ∀ e, Keeps Kept (eval e) := fun e => (heval e).mono h.lift
  cases s with
  | assignVariable span nameSpan name value =>
    refine .bind steady_kept ((h.assignedValue heval name value).mono h.lift) fun v => ?_
    exact .bind steady_kept (kept_assignVariable name v) fun _ => .pure steady_kept _
  | assignElement span lookupSpan target key value =>
    refine .bind steady_kept (hexpr value) fun v => .bind steady_kept (hexpr target) fun c => ?_
    refine .bind steady_kept (hexpr key) fun index => ?_
    exact .bind steady_kept ((h.storeElement c index v _ _).mono h.lift) fun _ =>
      .pure steady_kept _
  | call span callSpan target arguments =>
    exact .bind steady_kept
      ((h.callExpr heval (kept_body hexec) callSpan target arguments).mono h.lift) fun _ =>
        .pure steady_kept _
  -- A return carries its value in the completion here and does not touch the frame.
  | ret span value => exact .bind steady_kept (hexpr value) fun _ => .pure steady_kept _
  | declareGlobal span names =>
    exact .bind steady_kept (.update fun m => h.declareGlobals names m) fun _ =>
      .pure steady_kept _
  | branch span test body later =>
    exact .bind steady_kept (kept_condition heval test) fun _ =>
      .ite (kept_sequence hexec _ _) (kept_otherwise heval hexec later)
  | loop span test body =>
    exact kept_whileTrue (kept_condition heval test) (kept_sequence hexec _ _) _ _
  | each span source key value body =>
    exact .bind steady_kept (hexpr source) fun v => kept_each hexec v _ key value body

/-- Expressions keep all frames, and statements change at most what is global in the active one. -/
theorem frameKept (limits : Limits) :
    ∀ budget, (∀ e, Keeps Machine.FramesKept (evalExpr limits budget e)) ∧
      ∀ s, Keeps Kept (execStmt limits budget s)
  | 0 => ⟨fun _ => .exhaust (stable_waits limits).expr, fun _ => .exhaust steady_kept⟩
  | budget + 1 => by
    obtain ⟨heval, hexec⟩ := frameKept limits budget
    exact ⟨fun e => (stable_waits limits).exprStep heval (kept_body hexec) e,
      fun s => kept_stmt budget heval hexec s⟩

end Kept

end Unwinding

/-! ### Signals in frames implement endings -/

/-- Notes in the active frame what it is about to return. -/
def Machine.signal (m : Machine) (value : Value) : Machine :=
  m.modifyFrame ({ · with pending := some value })

/-- An ending as a machine with signals shows it: a return is noted in the active frame. All else of
the machine is the same. -/
def Outcome.signalled : Outcome Completion → Outcome (Option Value)
  | done (.normal value) m => done value m
  | done (.returned value) m => done (some value) (m.signal value)
  | failed failure m => failed failure m
  | exhausted m => exhausted m

namespace Unwinding

/-- Where the active frame is not about to return, `x` does what `y` does and signals a return. -/
def Refines (x : Eval (Option Value)) (y : Eval Completion) : Prop :=
  ∀ m, m.frame.pending = none → x m = (y m).signalled

theorem pending_signal (m : Machine) (value : Value) :
    (m.signal value).frame.pending = some value := by
  rw [Machine.signal, Machine.frame_modifyFrame]

section Refines

variable {α : Type} {limits : Limits}

/-- A part that both sides share, and that keeps the frames, goes in front. -/
theorem Refines.bind {x : Eval α} {f : α → Eval (Option Value)} {g : α → Eval Completion}
    (hx : Keeps Kept x) (h : ∀ a, Refines (f a) (g a)) : Refines (x >>= f) (x >>= g) := by
  intro m hm
  have hkept := hx m
  rw [bind_apply, bind_apply]
  cases hend : x m with
  | done a later =>
    rw [hend] at hkept
    exact h a later (hkept.2.2.trans hm)
  | failed failure later => rfl
  | exhausted later => rfl

/-- Evaluations that do not return end normally. -/
theorem Refines.normal (x : Eval (Option Value)) :
    Refines x (do return .normal (← x)) := by
  intro m _
  rw [bind_apply]
  cases x m <;> rfl

theorem Refines.pure (value : Option Value) : Refines (pure value) (pure (.normal value)) :=
  fun _ _ => rfl

theorem Refines.fail (fault : RuntimeFault) (span : Span) :
    Refines (fail fault span) (fail fault span) :=
  fun _ _ => rfl

theorem Refines.ite {p : Prop} [Decidable p] {x x' : Eval (Option Value)} {y y' : Eval Completion}
    (hx : Refines x y) (hx' : Refines x' y') :
    Refines (if p then x else x') (if p then y else y') := by
  split
  · exact hx
  · exact hx'

/-- The poll after a part finds a signal exactly if the part returned: then what follows is skipped,
and otherwise it runs on the same machine. -/
theorem Refines.poll {x : Eval (Option Value)} {y : Eval Completion}
    {k : Option Value → Option Value → Eval (Option Value)} {l : Completion → Eval Completion}
    (hxy : Refines x y) (hkept : Keeps Kept y)
    (hnext : ∀ value, Refines (k value none) (l (.normal value)))
    (hstop : ∀ value, k (some value) (some value) = Pure.pure (some value))
    (hstop' : ∀ value, l (.returned value) = Pure.pure (.returned value)) :
    Refines (x >>= fun result => Eval.pending >>= fun p => k result p) (y >>= l) := by
  intro m hm
  have hlater := hkept m
  have hend := hxy m hm
  rw [bind_apply, bind_apply]
  cases hy : y m with
  | done completion later =>
    rw [hy] at hend hlater
    rw [hend]
    cases completion with
    | normal value =>
      have hnone : later.frame.pending = none := hlater.2.2.trans hm
      have hpoll : Eval.pending later = .done none later := by rw [Eval.pending, hnone]
      show (Eval.pending >>= fun p => k value p) later = _
      rw [bind_done hpoll]
      exact hnext value later hnone
    | returned value =>
      have hpoll : Eval.pending (later.signal value) = .done (some value) (later.signal value) := by
        rw [Eval.pending, pending_signal]
      show (Eval.pending >>= fun p => k (some value) p) (later.signal value) =
        (l (.returned value) later).signalled
      rw [bind_done hpoll, hstop, hstop']
      rfl
  | failed failure later =>
    rw [hy] at hend
    rw [hend]
    rfl
  | exhausted later =>
    rw [hy] at hend
    rw [hend]
    rfl

/-- Behind a statement that notes a return the others are skipped, as they are where it ends by
returning. -/
theorem Refines.sequence {run : α → Eval (Option Value)} {run' : α → Eval Completion}
    (h : ∀ a, Refines (run a) (run' a)) (hkept : ∀ a, Keeps Kept (run' a)) :
    ∀ as last, Refines (Eval.sequence run last as) (Unwinding.sequence run' last as)
  | [], last => .pure last
  | a :: as, _ =>
    .poll (h a) (hkept a) (fun value => Refines.sequence h hkept as value) (fun _ => rfl)
      (fun _ => rfl)

/-- A round that notes a return is the last one. -/
theorem Refines.forEach {body : α → Eval (Option Value)} {body' : α → Eval Completion}
    (h : ∀ a, Refines (body a) (body' a)) (hkept : ∀ a, Keeps Kept (body' a)) :
    ∀ as last, Refines (Eval.forEach body last as) (Unwinding.sequence body' last as)
  | [], last => .pure last
  | a :: as, _ =>
    .poll (h a) (hkept a) (fun value => Refines.forEach h hkept as value) (fun _ => rfl)
      (fun _ => rfl)

/-- A round that notes a return is the last one, and the test is not evaluated again. -/
theorem Refines.whileTrue {test : Eval Bool} {body : Eval (Option Value)} {body' : Eval Completion}
    (htest : Keeps Kept test) (h : Refines body body') (hkept : Keeps Kept body') :
    ∀ budget last, Refines (Eval.whileTrue test body budget last)
      (Unwinding.whileTrue test body' budget last)
  | 0, _ => fun _ _ => rfl
  | budget + 1, last => by
    refine .bind htest fun holds => .ite ?_ (.pure last)
    exact .poll h hkept (fun value => Refines.whileTrue htest h hkept budget value) (fun _ => rfl)
      (fun _ => rfl)

end Refines

/-! ### Calls -/

/-- The signal of a call goes away with its frame. -/
theorem leave_signal {m later : Machine} (h : later.frames.tail = m.frames) (value : Value) :
    (later.signal value).leave = later.leave := by
  rcases later with ⟨env, heap, root, calls, output, log⟩
  cases calls with
  | nil =>
    rw [Machine.frames_eq_cons m] at h
    cases h
  | cons frame calls => rfl

/-- In a frame of its own, an evaluation that signals a return gives the result of its ending. -/
theorem inFrame_eq {x : Eval (Option Value)} {y : Eval Completion} {frame : Frame} {m : Machine}
    (hkept : Kept (m.enter frame) (y (m.enter frame)).machine)
    (hxy : x (m.enter frame) = (y (m.enter frame)).signalled) :
    inFrame frame x m = inFrame frame (Completion.result <$> y) m := by
  unfold inFrame
  show (x (m.enter frame)).mapMachine Machine.leave =
    ((y >>= fun completion => pure completion.result) (m.enter frame)).mapMachine Machine.leave
  rw [hxy, bind_apply]
  cases hy : y (m.enter frame) with
  | done completion later =>
    rw [hy] at hkept
    cases completion with
    | normal value => rfl
    | returned value =>
      -- The signal stands in the frame that is left, so it is gone with it.
      have hleave : (later.signal value).leave = later.leave := leave_signal hkept.1 value
      show Outcome.done (some value) (later.signal value).leave = .done (some value) later.leave
      rw [hleave]
  | failed failure later => rfl
  | exhausted later => rfl

section Calls

variable {eval : Expr → Eval Value} {run : List Stmt → Eval (Option Value)}
  {exec : Stmt → Eval Completion}

/-- Calls do not tell bodies that signal a return from bodies that end with one. -/
theorem runCall_eq (limits : Limits) (heval : ∀ e, Keeps Machine.FramesKept (eval e))
    (hexec : ∀ s, Keeps Kept (exec s))
    (hrun : ∀ ss, Refines (run ss) (Unwinding.sequence exec none ss))
    (f : UserFunction) (table : TableRef) (label : String) (args : List Value) :
    Step.runCall eval run f table label args =
      Step.runCall eval (body exec) f table label args := by
  funext m
  unfold Step.runCall body
  rw [← map_bind]
  -- parameters do not signal, so the body starts without a signal
  have hbind := (stable_waits limits).bindParameters heval f.parameters args
    (m.enter ⟨table, f.globalNames, some label, none⟩)
  change Kept _ (Step.bindParameters eval table f.parameters args _).machine at hbind
  have hkept := kept_sequence hexec f.body.statements none
  refine inFrame_eq ?_ ?_
  all_goals
    rw [bind_apply]
    cases hm : Step.bindParameters eval table f.parameters args
        (m.enter ⟨table, f.globalNames, some label, none⟩) <;> rw [hm] at hbind
  case done u later => exact steady_kept.trans hbind (hkept later)
  case failed failure later => exact hbind
  case exhausted later => exact hbind
  all_goals rw [bind_apply, hm]
  case done u later => exact hrun f.body.statements later hbind.2.2
  case failed failure later => rfl
  case exhausted later => rfl

/-- Expressions do not tell the two semantics of bodies apart. -/
theorem exprStep_eq (limits : Limits) (heval : ∀ e, Keeps Machine.FramesKept (eval e))
    (hexec : ∀ s, Keeps Kept (exec s))
    (hrun : ∀ ss, Refines (run ss) (Unwinding.sequence exec none ss)) :
    Step.call limits eval run = Step.call limits eval (body exec) ∧
      Step.expr limits eval run = Step.expr limits eval (body exec) := by
  -- Expressions meet statements only where a call runs a body, so the two evaluators of expressions
  -- differ nowhere else.
  have huser : Step.callUser limits eval run = Step.callUser limits eval (body exec) := by
    funext f label args span
    unfold Step.callUser
    simp only [runCall_eq limits heval hexec hrun]
  have hvalue : Step.callValue limits eval run = Step.callValue limits eval (body exec) := by
    funext callee args span name
    unfold Step.callValue
    rw [huser]
  have hcall : Step.call limits eval run = Step.call limits eval (body exec) := by
    funext span target arguments
    unfold Step.call
    rw [hvalue]
  refine ⟨hcall, ?_⟩
  funext e
  unfold Step.expr
  rw [hcall]

end Calls

/-! ### Both semantics agree -/

section Agreement

variable {limits : Limits} {eval : Expr → Eval Value} {exec : Stmt → Eval (Option Value)}
  {exec' : Stmt → Eval Completion}

/-- A block refines a block if its statements do. -/
theorem refines_block (hexec : ∀ s, Refines (exec s) (exec' s)) (hkept : ∀ s, Keeps Kept (exec' s))
    (b : Block) : Refines (Step.block exec b) (block exec' b) :=
  .sequence hexec hkept b.statements none

/-- What follows a conditional refines its counterpart. -/
theorem refines_otherwise (heval : ∀ e, Keeps Machine.FramesKept (eval e))
    (hexec : ∀ s, Refines (exec s) (exec' s)) (hkept : ∀ s, Keeps Kept (exec' s)) :
    ∀ o, Refines (Step.otherwise eval exec o) (otherwise eval exec' o)
  | .nothing => .pure _
  | .block b => refines_block hexec hkept b
  | .branch _ test body later =>
    .bind (kept_condition heval test) fun _ =>
      .ite (refines_block hexec hkept body) (refines_otherwise heval hexec hkept later)

/-- A loop over a container refines its counterpart. -/
theorem refines_each (hexec : ∀ s, Refines (exec s) (exec' s)) (hkept : ∀ s, Keeps Kept (exec' s))
    (source : Value) (span : Span) (key : Option String) (value : String) (body : Block) :
    Refines (Step.each exec source span key value body) (each exec' source span key value body) := by
  have hblock := refines_block hexec hkept body
  have hblockKept : Keeps Kept (block exec' body) := kept_sequence hkept body.statements none
  refine .bind (.machine steady_kept) fun m => ?_
  cases source with
  | array ref =>
    cases key with
    | none =>
      exact .forEach (fun v => .bind (kept_assignVariable value v) fun _ => hblock)
        (fun v => .bind steady_kept (kept_assignVariable value v) fun _ => hblockKept) _ _
    | some key => exact .fail _ _
  | dictionary ref =>
    cases key with
    | none => exact .fail _ _
    | some key =>
      exact .forEach
        (fun entry => .bind (kept_assignVariable _ _) fun _ =>
          .bind (kept_assignVariable _ _) fun _ => hblock)
        (fun entry => .bind steady_kept (kept_assignVariable _ _) fun _ =>
          .bind steady_kept (kept_assignVariable _ _) fun _ => hblockKept) _ _
  | number | string | boolean | function => exact .fail _ _

/-- A step of a statement with signals refines the step that ends with a return. -/
theorem refines_stmt (budget : Nat) (heval : ∀ e, Keeps Machine.FramesKept (eval e))
    (hexec : ∀ s, Refines (exec s) (exec' s)) (hkept : ∀ s, Keeps Kept (exec' s)) (s : Stmt) :
    Refines (Step.stmt limits budget eval exec s) (stmt limits budget eval exec' s) := by
  have h := stable_waits limits
  have hexpr : ∀ e, Keeps Kept (eval e) := fun e => (heval e).mono h.lift
  cases s with
  | assignVariable span nameSpan name value =>
    refine .bind ((h.assignedValue heval name value).mono h.lift) fun v => ?_
    exact .bind (kept_assignVariable name v) fun _ => .pure _
  | assignElement span lookupSpan target key value =>
    refine .bind (hexpr value) fun v => .bind (hexpr target) fun container => ?_
    refine .bind (hexpr key) fun index => ?_
    exact .bind ((h.storeElement container index v _ _).mono h.lift) fun _ => .pure _
  | call span callSpan target arguments =>
    -- A call takes the frame's signal with it, so it completes normally in both semantics.
    have hcall := (exprStep_eq limits heval hkept fun ss => .sequence hexec hkept ss none).1
    unfold Step.stmt
    rw [hcall]
    exact .normal _
  | ret span value => exact .bind (hexpr value) fun _ _ _ => rfl
  | declareGlobal span names =>
    exact .bind (.update fun m => h.declareGlobals names m) fun _ => .pure _
  | branch span test body later =>
    exact .bind (kept_condition heval test) fun _ =>
      .ite (refines_block hexec hkept body) (refines_otherwise heval hexec hkept later)
  | loop span test body =>
    exact .whileTrue (kept_condition heval test) (refines_block hexec hkept body)
      (kept_sequence hkept body.statements none) _ _
  | each span source key value body =>
    exact .bind (hexpr source) fun v => refines_each hexec hkept v _ key value body

/-- **Both semantics agree**: expressions are evaluated alike, and statements that signal a return
refine statements that end with one. By induction on the budget, which both count down alike. -/
theorem agreement (limits : Limits) :
    ∀ budget, DecimalScript.evalExpr limits budget = evalExpr limits budget ∧
      ∀ s, Refines (DecimalScript.execStmt limits budget s) (execStmt limits budget s)
  | 0 => ⟨rfl, fun _ _ _ => rfl⟩
  | budget + 1 => by
    obtain ⟨heq, hexec⟩ := agreement limits budget
    obtain ⟨heval, hkept⟩ := frameKept limits budget
    constructor
    · funext e
      show Step.expr limits (DecimalScript.evalExpr limits budget) _ e = Step.expr limits _ _ e
      rw [heq]
      exact congrFun (exprStep_eq limits heval hkept fun ss => .sequence hexec hkept ss none).2 e
    · intro s
      show Refines (Step.stmt limits budget (DecimalScript.evalExpr limits budget) _ s) _
      rw [heq]
      exact refines_stmt budget heval hexec hkept s

end Agreement

/-- A list that returns does not look at what follows it. -/
theorem sequence_append_of_returned {α : Type} {run : α → Eval Completion} {more : List α} :
    ∀ {as : List α} {last : Option Value} {m later : Machine} {value : Value},
      sequence run last as m = .done (.returned value) later →
      sequence run last (as ++ more) m = .done (.returned value) later
  | [], _, _, _, _, h => by cases h
  | a :: as, last, m, later, value, h => by
    rw [List.cons_append]
    unfold sequence at h ⊢
    rw [bind_apply] at h ⊢
    cases hrun : run a m with
    | done completion middle =>
      rw [hrun] at h
      cases completion with
      | normal v => exact sequence_append_of_returned h
      -- What stands behind a return is not looked at.
      | returned v => exact h
    | failed failure middle =>
      rw [hrun] at h
      cases h
    | exhausted middle =>
      rw [hrun] at h
      cases h

end Unwinding

/-- **A return unwinds exactly to its call.** Statements run from a frame that is not about to
return do exactly what the semantics does in which a return is a way to end: they leave the same
variables, containers and output, and the same result or failure, and the only trace of a return is
the note in the active frame. No frame below it changes in any way, and behind a return nothing
runs: whatever statements follow, the outcome is the same. -/
theorem return_unwinds_to_its_call (limits : Limits) (budget : Nat) (ss : List Stmt) (m : Machine)
    (h : m.frame.pending = none) :
    let signalling := Eval.sequence (execStmt limits budget) none ss m
    let reference := Unwinding.sequence (Unwinding.execStmt limits budget) none ss m
    signalling = reference.signalled ∧
      signalling.machine.frames.tail = m.frames.tail ∧
      reference.machine.frame.pending = none ∧
      ∀ value later, reference = .done (.returned value) later → ∀ more,
        Eval.sequence (execStmt limits budget) none (ss ++ more) m = signalling := by
  intro signalling reference
  obtain ⟨-, hexec⟩ := Unwinding.agreement limits budget
  obtain ⟨-, hkept⟩ := Unwinding.frameKept limits budget
  have hrefines : ∀ ss, Eval.sequence (execStmt limits budget) none ss m =
      (Unwinding.sequence (Unwinding.execStmt limits budget) none ss m).signalled :=
    fun ss => Unwinding.Refines.sequence hexec hkept ss none m h
  have hframes := Unwinding.kept_sequence hkept ss none m
  refine ⟨hrefines ss, ?_, hframes.2.2.trans h, ?_⟩
  · exact (Keeps.sequence (stable_continues limits).stmt (frameKept_execStmt limits budget) ss none
      m).1
  -- The reference semantics never reaches `more`, so the flag interpreter does not either.
  · intro value later hreturned more
    have hmore : Unwinding.sequence (Unwinding.execStmt limits budget) none (ss ++ more) m =
        .done (.returned value) later := Unwinding.sequence_append_of_returned hreturned
    show Eval.sequence (execStmt limits budget) none (ss ++ more) m =
      Eval.sequence (execStmt limits budget) none ss m
    rw [hrefines (ss ++ more), hrefines ss, hmore]
    exact congrArg Outcome.signalled hreturned.symm

/-- A return inside a loop, with a statement behind the loop that does not run. -/
theorem return_unwinds_from_loop :
    let span : Span := ⟨none, .start, .start⟩
    let loop : Stmt := .loop span (.boolean span true) (.mk span [.ret span (.string span "left")])
    let behind : Stmt := .assignVariable span span "x" (.boolean span true)
    let start : Machine := .empty {}
    start.frame.pending = none ∧
      (∃ later, Unwinding.sequence (Unwinding.execStmt {} 5) none [loop] start =
        .done (.returned (.string "left")) later) ∧
      Eval.sequence (execStmt {} 5) none [loop, behind] start =
        .done (some (.string "left")) (start.signal (.string "left")) := by
  intro span loop behind start
  have hstart : start.frame.pending = none := rfl
  have hreturned : Unwinding.sequence (Unwinding.execStmt {} 5) none [loop] start =
      .done (.returned (.string "left")) start := rfl
  obtain ⟨heq, -, -, hmore⟩ := return_unwinds_to_its_call {} 5 [loop] start hstart
  refine ⟨hstart, ⟨start, hreturned⟩, ?_⟩
  rw [← List.singleton_append, hmore _ _ hreturned [behind], heq, hreturned]
  rfl

end DecimalScript
