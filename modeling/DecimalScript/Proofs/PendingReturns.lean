import DecimalScript.Proofs.CallDepth
import DecimalScript.Proofs.Unwinding

/-!
# Returns at top level

A return at top level is noted in the bottom frame. A run clears the note before and after its
program; evaluating a program in between leaves it, and a later evaluation finds it there. So
evaluating a program does what running it does as long as nothing evaluated before it has returned;
from then until the next run, an evaluation stops after its first statement.

- `evaluateProgram_of_pending`: what the evaluation of a program does while a return is noted.
- `Session.Request.Leaves`: which requests leave a return noted.
- `evaluating_is_running_unless_pending`: both, for all sessions.

A machine between two requests has no calls in progress, which is where the bottom frame is the
active one. That it is the only one that could carry a note follows from the discipline of frames:
calls take theirs with them.
-/

namespace DecimalScript

open Eval

/-! ### A noted return stays -/

/-- The frame stays at its table, and once it is about to return it remains so. -/
def Frame.StaysPending (f g : Frame) : Prop :=
  g.table = f.table ∧ (f.pending.isSome = true → g.pending.isSome = true)

theorem staysPending_refl (f : Frame) : f.StaysPending f :=
  ⟨rfl, fun h => h⟩

theorem staysPending_trans {f g h : Frame} (hfg : f.StaysPending g) (hgh : g.StaysPending h) :
    f.StaysPending h :=
  ⟨hgh.1.trans hfg.1, fun hf => hgh.2 (hfg.2 hf)⟩

/-- No step of an evaluation takes a note back. -/
theorem stable_staysPending (limits : Limits) :
    Stable limits Machine.FramesKept (Machine.FrameKept Frame.StaysPending) :=
  stable_frames limits staysPending_refl staysPending_trans (fun h => h.1)
    fun _ _ => ⟨rfl, fun h => h⟩

/-- Nothing that a statement does takes a noted return back. -/
theorem staysPending_execStmt (limits : Limits) (budget : Nat) (s : Stmt) :
    Keeps (Machine.FrameKept Frame.StaysPending) (execStmt limits budget s) := by
  refine ((stable_staysPending limits).evaluation (fun m value => ?_) budget).2 s
  refine ⟨m.waiting_modifyFrame _, ?_⟩
  rw [Machine.frame_modifyFrame]
  exact ⟨rfl, fun _ => rfl⟩

/-- While a return is noted, the first statement of a list is the only one that runs, and the result
is what is noted behind it. -/
theorem evaluateProgram_of_pending (limits : Limits) (budget : Nat) (span : Span) (s : Stmt)
    (ss : List Stmt) {m : Machine} (h : m.frame.pending.isSome = true) :
    Session.evaluateProgram limits budget ⟨span, s :: ss⟩ m =
      match execStmt limits budget s m with
      | .done _ later => .done later.frame.pending later
      | .failed failure later => .failed failure later
      | .exhausted later => .exhausted later := by
  have hkept := staysPending_execStmt limits budget s m
  cases hend : execStmt limits budget s m with
  | failed failure later => exact bind_failed hend _
  | exhausted later => exact bind_exhausted hend _
  | done result later =>
    rw [hend] at hkept
    obtain ⟨value, hvalue⟩ := Option.isSome_iff_exists.mp (hkept.2.2 h)
    have hnoted : later.frame.pending = some value := hvalue
    have hpending : Eval.pending later = .done (some value) later :=
      congrArg (Outcome.done · later) hnoted
    refine (bind_done hend _).trans ((bind_done hpending _).trans ?_)
    exact congrArg (Outcome.done · later) hnoted.symm

/-! ### Which requests leave a return noted -/

/-- What an evaluation returns, if it ends with a return. -/
def Outcome.returned? : Outcome Completion → Option Value
  | done (.returned value) _ => some value
  | _ => none

theorem frame_signalled {o : Outcome Completion} (h : o.machine.frame.pending = none) :
    o.signalled.machine.frame.pending = o.returned? := by
  cases o with
  | done completion later =>
    cases completion with
    | normal value => exact h
    | returned value => exact Unwinding.pending_signal later value
  | failed failure later => exact h
  | exhausted later => exact h

/-- Where no return is noted, one is noted afterwards exactly if the evaluation ends with it. -/
theorem pending_of_refines {x : Eval (Option Value)} {y : Eval Completion} {m : Machine}
    (hxy : Unwinding.Refines x y) (hkept : Keeps Unwinding.Kept y)
    (h : m.frame.pending = none) : (x m).machine.frame.pending = (y m).returned? := by
  rw [hxy m h]
  exact frame_signalled ((hkept m).2.2.trans h)

/-- A return that is noted in the bottom frame after a request. Runs clear it, statements may add
one, and all other requests leave it as it is. -/
def Session.Request.Leaves (limits : Limits) (budget : Nat) (m : Machine) (pending : Option Value) :
    Request → Prop
  | run _ _ => pending = none
  | evaluateProgram program =>
    (m.root.pending = none →
      pending = (Unwinding.sequence (Unwinding.execStmt limits budget) none program.statements
        m).returned?) ∧
      (m.root.pending.isSome = true → pending.isSome = true)
  | evaluateStmt s =>
    (m.root.pending = none → pending = (Unwinding.execStmt limits budget s m).returned?) ∧
      (m.root.pending.isSome = true → pending.isSome = true)
  | evaluateExpr _ | callValue _ _ _ | call _ _ | setVariable _ _ | newArray _ | newDictionary _ =>
    pending = m.root.pending

/-- Without active calls the frame is the root. -/
theorem Machine.frame_of_calls {m : Machine} (h : m.calls = []) : m.frame = m.root := by
  rw [frame, h]
  rfl

theorem Machine.root_eq_of_frames {m later : Machine} (h : later.frames = m.frames) :
    later.root = m.root := by
  have hlast : ∀ k : Machine, k.frames.getLast? = some k.root := fun k =>
    List.getLast?_concat
  have hroots : some later.root = some m.root := by rw [← hlast, ← hlast, h]
  exact Option.some.inj hroots

/-- With no call in progress before and after a request, this is what it leaves. -/
theorem Session.Request.leaves_perform {limits : Limits} {budget : Nat} {m : Machine} (r : Request)
    (hm : m.calls = []) (hlater : (r.perform limits budget m).machine.calls = []) :
    r.Leaves limits budget m (r.perform limits budget m).machine.root.pending := by
  obtain ⟨-, hexec⟩ := Unwinding.agreement limits budget
  obtain ⟨-, hkept⟩ := Unwinding.frameKept limits budget
  have hframe : m.frame = m.root := m.frame_of_calls hm
  -- Statements: the evaluation that unwinds at a return tells whether one is noted, as long as none
  -- was before; one that was noted stays.
  have hstatements : ∀ {x : Eval (Option Value)} {y : Eval Completion},
      (x m).machine.calls = [] → Unwinding.Refines x y → Keeps Unwinding.Kept y →
      Keeps (Machine.FrameKept Frame.StaysPending) x →
      (m.root.pending = none → (x m).machine.root.pending = (y m).returned?) ∧
        (m.root.pending.isSome = true → (x m).machine.root.pending.isSome = true) := by
    intro x y hcalls hxy hy hstays
    rw [← hframe, ← Machine.frame_of_calls hcalls]
    exact ⟨pending_of_refines hxy hy, (hstays m).2.2⟩
  have hcall : ∀ callee args name,
      (Session.callValue limits budget callee args name m).machine.root.pending = m.root.pending :=
    fun callee args name => congrArg Frame.pending (Machine.root_eq_of_frames
      (framesKept_callValue limits budget callee args hostSpan name m))
  cases r with
  | run program source => exact (isReset_run limits budget program source m).2
  | evaluateProgram program =>
    exact hstatements hlater (.sequence hexec hkept program.statements none)
      (Unwinding.kept_sequence hkept program.statements none)
      (.sequence (stable_staysPending limits).stmt (staysPending_execStmt limits budget) _ none)
  | evaluateStmt s =>
    exact hstatements hlater (hexec s) (hkept s) (staysPending_execStmt limits budget s)
  | evaluateExpr e =>
    have hkept : Keeps Machine.FramesKept (some <$> evalExpr limits budget e) :=
      .map (stable_continues limits).expr some (framesKept_evalExpr limits budget e)
    exact congrArg Frame.pending (Machine.root_eq_of_frames (hkept m))
  | callValue callee args name => exact hcall callee args name
  | call name args =>
    unfold Request.Leaves Request.perform Session.call
    dsimp only
    cases m.env.get? Machine.globalTable name with
    | some value => exact hcall value args (some name)
    | none => rfl
  | setVariable name value => rfl
  | newArray elements => rfl
  | newDictionary dictionary => rfl

/-! ### Evaluating and running a program -/

/-- Without calls in progress and with no return noted there is nothing to reset. -/
theorem Machine.resetFrames_of_isReset {m : Machine} (h : m.IsReset) : m.resetFrames = m := by
  obtain ⟨env, heap, ⟨table, globalNames, label, pending⟩, calls, output, log⟩ := m
  obtain ⟨rfl, rfl⟩ := h
  rfl

/-- **Evaluating a program is running it, unless a return is noted.** In every session, between two
requests:

- if no return is noted in the bottom frame, a run of a program ends as its evaluation does, with
  the line of a failure, and without the note of a return;
- if one is noted, the evaluation of a program ends behind its first statement, with what is noted
  then;
- a request leaves a return noted as `Session.Request.Leaves` says, so that only a run clears it. -/
theorem evaluating_is_running_unless_pending (config : Config) (registry : Registry)
    (arrays : Array (Array Value)) (dictionaries : Array Dictionary) {limits : Limits}
    {script : Code} {m : Machine}
    (hm : Session.Idle limits script (Session.start config registry { arrays, dictionaries }) m)
    (budget : Nat) :
    (m.root.pending = none → ∀ program source,
      Session.run limits budget program source m =
        ((Session.evaluateProgram limits budget program m).mapFailure
          (·.quoting (Text.rows source))).mapMachine Machine.resetFrames) ∧
    (m.root.pending.isSome = true → ∀ span s ss,
      Session.evaluateProgram limits budget ⟨span, s :: ss⟩ m =
        match execStmt limits budget s m with
        | .done _ later => .done later.frame.pending later
        | .failed failure later => .failed failure later
        | .exhausted later => .exhausted later) ∧
    ∀ r : Session.Request, r.Within script →
      r.Leaves limits budget m (r.perform limits budget m).machine.root.pending := by
  have hstart := (Session.sound_start config registry arrays dictionaries).calls_eq_nil
  -- Between requests no call is running, so the frame of the machine is the root.
  have hcalls : m.calls = [] := hm.calls_eq_nil hstart
  refine ⟨fun hnone program source => ?_, fun hsome span s ss => ?_, fun r hr => ?_⟩
  · unfold Session.run
    rw [m.resetFrames_of_isReset ⟨hcalls, hnone⟩]
  · rw [← m.frame_of_calls hcalls] at hsome
    exact evaluateProgram_of_pending limits budget span s ss hsome
  · exact r.leaves_perform hcalls ((Session.Idle.request hm r hr budget).calls_eq_nil hstart)

/-- Once a return has been evaluated, evaluating two assignments ends behind the first one, with
what was returned before. A run makes both of them. -/
theorem evaluating_is_not_running_after_return :
    let span : Span := ⟨none, .start, .start⟩
    let number (n : Nat) (text : String) : Expr := .number span (.ofNat n) text
    let assign (name : String) (e : Expr) : Stmt := .assignVariable span span name e
    let returning : Program := ⟨span, [.ret span (number 1 "1")]⟩
    let program : Program := ⟨span, [assign "a" (number 2 "2"), assign "b" (number 3 "3")]⟩
    let start := Session.start { loadBuiltins := false } .standard
    let m := ((Session.Request.evaluateProgram returning).perform {} 9 start).machine
    Session.Idle {} .any start m ∧
      (∃ later,
        Session.evaluateProgram {} 9 program m = .done (some (.ofDecimal (.ofNat 1))) later ∧
          later.env.get? Machine.globalTable "b" = none) ∧
      ∃ later, Session.run {} 9 program "" m = .done (some (.ofDecimal (.ofNat 3))) later ∧
        later.env.get? Machine.globalTable "b" = some (.ofDecimal (.ofNat 3)) := by
  intro span number assign returning program start m
  have hidle : Session.Idle {} .any start m :=
    .request .start (.evaluateProgram returning) (Session.Request.within_any _) 9
  let two : Option Value := some (.ofDecimal (.ofNat 2))
  let three : Option Value := some (.ofDecimal (.ofNat 3))
  let stopped := m.assign Machine.globalTable "a" two
  let finished := (start.assign Machine.globalTable "a" two).assign Machine.globalTable "b" three
  exact ⟨hidle, ⟨stopped, rfl, rfl⟩, ⟨finished, rfl, rfl⟩⟩

/-- At the start no return is noted, and after the evaluation of one it is. -/
theorem evaluating_is_running_unless_pending_at_start :
    let span : Span := ⟨none, .start, .start⟩
    let returning : Stmt := .ret span (.string span "left")
    let behind : Stmt := .assignVariable span span "x" (.boolean span true)
    let start := Session.start { loadBuiltins := false } .standard
    let m := ((Session.Request.evaluateStmt returning).perform {} 9 start).machine
    (start.root.pending = none ∧ Session.run {} 9 ⟨span, [returning, behind]⟩ "" start =
      .done (some (.string "left")) start) ∧
    (Session.Idle {} .any start m ∧ m.root.pending = some (.string "left") ∧
      ∃ later, Session.evaluateProgram {} 9 ⟨span, [behind, returning]⟩ m =
        .done (some (.string "left")) later) := by
  intro span returning behind start m
  have hm : Session.Idle {} .any start m :=
    .request .start (.evaluateStmt returning) (Session.Request.within_any _) 9
  have hstart : Session.Idle {} .any start start := .start
  obtain ⟨hruns, -, hleaves⟩ :=
    evaluating_is_running_unless_pending { loadBuiltins := false } .standard #[] #[] hstart 9
  obtain ⟨-, hstops, -⟩ :=
    evaluating_is_running_unless_pending { loadBuiltins := false } .standard #[] #[] hm 9
  have hnone : start.root.pending = none := rfl
  have hnoted : m.root.pending = some (.string "left") :=
    (hleaves (.evaluateStmt returning) (Session.Request.within_any _)).1 hnone
  refine ⟨⟨hnone, ?_⟩, hm, hnoted, ?_⟩
  · rw [hruns hnone]
    rfl
  · rw [hstops (Option.isSome_of_eq_some hnoted)]
    exact ⟨_, rfl⟩

end DecimalScript
