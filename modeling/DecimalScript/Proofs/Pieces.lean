import DecimalScript.Proofs.PendingReturns

/-!
# Running in pieces

A run ends with the bottom frame alone and without a return that is noted there. Where the program
has ended without a return of its own, this changes nothing: the machine at the end is the one on
which the statements behind it would have gone on. So a program can be handed over in pieces, and
only the source line of a failure tells the difference.

- `sequence_append`: a list of items goes on behind a part that has not returned.
- `Session.isReset_of_not_returns`: a program without a return of its own leaves nothing to reset.
- `run_in_pieces`: two runs beside one run of both programs.

The first program must not return. After a return at top level the statements behind it would not
have been executed, whereas a second run starts afresh and executes them. That it has not returned
is said in the semantics of `Unwinding`, where a return is a way to end and not a note.
-/

namespace DecimalScript

open Eval

/-! ### Statement lists -/

section Lists

variable {α : Type} {run : α → Eval (Option Value)}

theorem sequence_cons (a : α) (as : List α) (last : Option Value) (m : Machine) :
    sequence run last (a :: as) m =
      match run a m with
      | .done result later =>
        match later.frame.pending with
        | some value => .done (some value) later
        | none => sequence run result as later
      | .failed failure later => .failed failure later
      | .exhausted later => .exhausted later := by
  show (run a >>= fun result => pending >>= fun _ => _) m = _
  rw [bind_apply]
  cases run a m with
  | failed | exhausted => rfl
  | done result later =>
    show (match later.frame.pending with
      | some value => pure (some value)
      | none => sequence run result as) later = _
    dsimp only
    cases later.frame.pending <;> rfl

/-- A list whose first part ends without a return goes on with the second part, from what the first
one leaves. -/
theorem sequence_append {more : List α} :
    ∀ {as : List α} {last value : Option Value} {m later : Machine},
      sequence run last as m = .done value later → later.frame.pending = none →
      sequence run last (as ++ more) m = sequence run value more later
  | [], _, _, _, _, h, _ => by
    obtain ⟨rfl, rfl⟩ := Outcome.done.inj h
    rfl
  | a :: as, last, value, m, later, h, hnone => by
    rw [List.cons_append, sequence_cons]
    rw [sequence_cons] at h
    cases hrun : run a m with
    | failed failure middle =>
      rw [hrun] at h
      cases h
    | exhausted middle =>
      rw [hrun] at h
      cases h
    | done result middle =>
      rw [hrun] at h
      dsimp only at h ⊢
      cases hnoted : middle.frame.pending with
      | none =>
        rw [hnoted] at h
        exact sequence_append h hnone
      | some returned =>
        -- The first part would have ended here, with the return still noted.
        rw [hnoted] at h
        obtain ⟨-, rfl⟩ := Outcome.done.inj h
        cases hnoted.symm.trans hnone

/-- The result of a list with an item does not depend on what came before. -/
theorem sequence_of_ne_nil {as : List α} (h : as ≠ []) (last last' : Option Value) :
    sequence run last as = sequence run last' as := by
  cases as with
  | nil => exact absurd rfl h
  | cons a as => rfl

end Lists

/-! ### What a program leaves -/

/-- The failure without its source line. -/
def Failure.unquoted (failure : Failure) : Failure :=
  { failure with sourceLine := none }

theorem Failure.unquoted_quoting (failure : Failure) (lines : List String) :
    (failure.quoting lines).unquoted = failure.unquoted := by
  unfold quoting
  split <;> rfl

namespace Session

variable {limits : Limits} {budget : Nat} {m : Machine}

/-- A run of the program ends with a return that stands outside of all functions. -/
def Returns (limits : Limits) (budget : Nat) (program : Program) (m : Machine) : Prop :=
  ∃ value later,
    Unwinding.sequence (Unwinding.execStmt limits budget) none program.statements m.resetFrames =
      .done (.returned value) later

/-- A run apart from the source line of its failure. -/
theorem unquoted_run (program : Program) (source : String) :
    (run limits budget program source m).mapFailure Failure.unquoted =
      ((evaluateProgram limits budget program m.resetFrames).mapFailure
        Failure.unquoted).mapMachine Machine.resetFrames := by
  unfold run
  dsimp only
  cases evaluateProgram limits budget program m.resetFrames with
  | done | exhausted => rfl
  | failed failure later =>
    exact congrArg (Outcome.failed · later.resetFrames) (failure.unquoted_quoting _)

/-- What a program leaves at its end has nothing to reset, unless the program returns. -/
theorem isReset_of_not_returns {program : Program} {value : Option Value} {later : Machine}
    (hreturns : ¬ Returns limits budget program m)
    (h : evaluateProgram limits budget program m.resetFrames = .done value later) :
    later.IsReset := by
  -- The reference semantics tells a return from a normal end, which the machine alone shows only
  -- through the signal it leaves.
  obtain ⟨hrefines, htail, hnone, -⟩ :=
    return_unwinds_to_its_call limits budget program.statements m.resetFrames rfl
  rw [show Eval.sequence _ none program.statements m.resetFrames = _ from h] at hrefines htail
  have hcalls : later.calls = [] := by
    change (later.calls ++ [later.root]).tail = [] at htail
    cases hcalls : later.calls with
    | nil => rfl
    | cons frame frames =>
      rw [hcalls] at htail
      cases List.append_ne_nil_of_right_ne_nil frames (List.cons_ne_nil _ _) htail
  have hpending : later.frame.pending = none := by
    cases hends : Unwinding.sequence (Unwinding.execStmt limits budget) none program.statements
        m.resetFrames with
    | failed | exhausted =>
      rw [hends] at hrefines
      cases hrefines
    | done completion k =>
      rw [hends] at hrefines hnone
      cases completion with
      | returned v => exact absurd ⟨v, k, hends⟩ hreturns
      | normal v =>
        obtain ⟨-, rfl⟩ := Outcome.done.inj hrefines
        exact hnone
  rw [Machine.frame_of_calls hcalls] at hpending
  exact ⟨hcalls, hpending⟩

end Session

/-! ### Two runs or one -/

/-- **A program can be run in pieces.** On every machine, when a run of a first program ends without
failing and without a return outside of functions, a run of the second program then ends as one run
of the statements of both does, if the second one has a statement: with the same value or the same
failure at the same span, and with the same machine, its variables, what is declared global, its
containers and functions, its output and its log. The programs may quote different source texts. -/
theorem run_in_pieces (limits : Limits) (budget : Nat) (first second : Program) (span : Span)
    (source₁ source₂ source : String) (m : Machine) (hsecond : second.statements ≠ [])
    {value : Option Value} {later : Machine}
    (hrun : Session.run limits budget first source₁ m = .done value later)
    (hreturns : ¬ Session.Returns limits budget first m) :
    (Session.run limits budget second source₂ later).mapFailure Failure.unquoted =
      (Session.run limits budget ⟨span, first.statements ++ second.statements⟩ source
        m).mapFailure Failure.unquoted := by
  rw [Session.unquoted_run, Session.unquoted_run]
  suffices hwhole : Session.evaluateProgram limits budget second later.resetFrames =
      Session.evaluateProgram limits budget ⟨span, first.statements ++ second.statements⟩
        m.resetFrames by
    rw [hwhole]
  cases hends : Session.evaluateProgram limits budget first m.resetFrames with
  | failed | exhausted =>
    unfold Session.run at hrun
    rw [hends] at hrun
    cases hrun
  | done v k =>
    have hreset := Session.isReset_of_not_returns hreturns hends
    have hlater : later = k := by
      unfold Session.run at hrun
      rw [hends] at hrun
      obtain ⟨-, rfl⟩ := Outcome.done.inj hrun
      exact Machine.resetFrames_of_isReset hreset
    rw [hlater, Machine.resetFrames_of_isReset hreset]
    have hnone : k.frame.pending = none := (Machine.frame_of_calls hreset.1).symm ▸ hreset.2
    exact (congrFun (sequence_of_ne_nil hsecond none v) k).trans (sequence_append hends hnone).symm

/-- A function that is made in the first piece is called in the second one, which has changed a
variable that the function reads, and fails behind the call. -/
theorem run_in_pieces_closure :
    let span : Span := ⟨none, .start, .start⟩
    let assign (name : String) (e : Expr) : Stmt := .assignVariable span span name e
    let body : Block := .mk span [.ret span (.name span "n")]
    let first : Program := ⟨span, [assign "n" (.string span "old"), .declareGlobal span ["n"],
      assign "f" (.function span [] body)]⟩
    let second : Program := ⟨span, [assign "n" (.string span "new"),
      assign "r" (.call span (.name span "f") []), assign "s" (.name span "t")]⟩
    let start := Session.start { loadBuiltins := false } .standard
    let middle := (Session.run {} 9 first "" start).machine
    let pieces := Session.run {} 9 second "" middle
    second.statements ≠ [] ∧
      Session.run {} 9 first "" start = .done (some (.function ⟨0⟩)) middle ∧
      ¬ Session.Returns {} 9 first start ∧
      pieces.machine.env.get? Machine.globalTable "r" = some (.string "new") ∧
      pieces.machine.env.get? Machine.globalTable "s" = none ∧
      (Session.run {} 9 ⟨span, first.statements ++ second.statements⟩ "" start).mapFailure
        Failure.unquoted = pieces.mapFailure Failure.unquoted := by
  intro span assign body first second start middle pieces
  have hne : second.statements ≠ [] := List.cons_ne_nil _ _
  have hrun : Session.run {} 9 first "" start = .done (some (.function ⟨0⟩)) middle := rfl
  have hreturned : (Unwinding.sequence (Unwinding.execStmt {} 9) none first.statements
      start.resetFrames).returned? = none := by
    decide +kernel
  have hreturns : ¬ Session.Returns {} 9 first start := by
    rintro ⟨v, k, hends⟩
    cases hreturned.symm.trans (congrArg Outcome.returned? hends)
  have hpieces := run_in_pieces {} 9 first second span "" "" "" start hne hrun hreturns
  exact ⟨hne, hrun, hreturns, by decide +kernel, by decide +kernel, hpieces.symm⟩

end DecimalScript
