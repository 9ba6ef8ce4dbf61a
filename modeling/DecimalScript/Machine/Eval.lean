import DecimalScript.Machine.Basic

/-!
# Evaluation

Evaluating is a function from a machine to an outcome. An outcome always has a machine: what was
printed or stored before a failure stays. Running out of the step budget is an outcome of its own,
so that no statement about results can hold by mistake of a run that was cut short.
-/

namespace DecimalScript

/-- How an evaluation ends, and the machine at its end. -/
inductive Outcome (α : Type) where
  | done (value : α) (machine : Machine)
  | failed (failure : Failure) (machine : Machine)
  | exhausted (machine : Machine)

namespace Outcome

/-- The machine at the end. -/
def machine {α : Type} : Outcome α → Machine
  | done _ m | failed _ m | exhausted m => m

/-- The same outcome with another machine. -/
def mapMachine {α : Type} (f : Machine → Machine) : Outcome α → Outcome α
  | done a m => done a (f m)
  | failed failure m => failed failure (f m)
  | exhausted m => exhausted (f m)

/-- The same outcome with another failure, if it is one. -/
def mapFailure {α : Type} (f : Failure → Failure) : Outcome α → Outcome α
  | done a m => done a m
  | failed failure m => failed (f failure) m
  | exhausted m => exhausted m

end Outcome

/-- An evaluation. -/
def Eval (α : Type) : Type :=
  Machine → Outcome α

namespace Eval

/-- Gives a value and changes nothing. -/
@[always_inline, inline] protected def pure {α : Type} (a : α) : Eval α :=
  fun m => .done a m

/-- Runs one evaluation, then the one that its value determines. -/
@[always_inline, inline] protected def bind {α β : Type} (x : Eval α) (f : α → Eval β) : Eval β :=
  fun m =>
    match x m with
    | .done a later => f a later
    | .failed failure later => .failed failure later
    | .exhausted later => .exhausted later

instance : Monad Eval where
  pure := Eval.pure
  bind := Eval.bind

section

variable {α β : Type}

theorem bind_apply (x : Eval α) (f : α → Eval β) (m : Machine) :
    (x >>= f) m = match x m with
      | .done a later => f a later
      | .failed failure later => .failed failure later
      | .exhausted later => .exhausted later := rfl

theorem bind_done {x : Eval α} {m later : Machine} {a : α} (h : x m = .done a later)
    (f : α → Eval β) : (x >>= f) m = f a later := by
  rw [bind_apply, h]

theorem bind_failed {x : Eval α} {m later : Machine} {failure : Failure}
    (h : x m = .failed failure later) (f : α → Eval β) :
    (x >>= f) m = .failed failure later := by
  rw [bind_apply, h]

theorem bind_exhausted {x : Eval α} {m later : Machine} (h : x m = .exhausted later)
    (f : α → Eval β) : (x >>= f) m = .exhausted later := by
  rw [bind_apply, h]

end

/-- The machine as it is. -/
def machine : Eval Machine :=
  fun m => .done m m

/-- Changes the machine. -/
def update (f : Machine → Machine) : Eval Unit :=
  fun m => .done () (f m)

/-- Fails at a span. -/
def fail {α : Type} (fault : RuntimeFault) (span : Span) : Eval α :=
  fun m => .failed (.ofRuntime fault span) m

/-- The step budget is used up. -/
def exhaust {α : Type} : Eval α :=
  fun m => .exhausted m

/-- A result, or a failure at a span. -/
def ofExcept {α : Type} (span : Span) : Except RuntimeFault α → Eval α
  | .ok a => pure a
  | .error fault => fail fault span

/-- Whether the active frame is about to return, and what. -/
def pending : Eval (Option Value) :=
  fun m => .done m.frame.pending m

/-- Runs an evaluation in a new frame, which is taken away however it ends. -/
def inFrame {α : Type} (frame : Frame) (x : Eval α) : Eval α :=
  fun m =>
    (x { m with calls := frame :: m.calls }).mapMachine fun later =>
      { later with calls := later.calls.tail }

/-- Puts a new array into the heap. -/
def newArray (elements : List Value) : Eval Value :=
  fun m =>
    let (value, heap) := m.heap.addArray elements.toArray
    .done value { m with heap }

/-- Puts a new dictionary into the heap. -/
def newDictionary (dictionary : Dictionary) : Eval Value :=
  fun m =>
    let (value, heap) := m.heap.addDictionary dictionary
    .done value { m with heap }

/-! ### Repetition -/

/-- Evaluates a list, from left to right. -/
def all {α β : Type} (f : α → Eval β) : List α → Eval (List β)
  | [] => pure []
  | a :: as => do
    let b ← f a
    let bs ← all f as
    return b :: bs

/-- Runs items one after the other until one of them makes the frame return. The result is what the
frame returns, or else the value of the last item. -/
def sequence {α : Type} (run : α → Eval (Option Value)) (last : Option Value) :
    List α → Eval (Option Value)
  | [] => pure last
  | a :: as => do
    let result ← run a
    match ← pending with
    | some value => return some value
    | none => sequence run result as

/-- Runs a body for each item until it makes the frame return. The result is the value of the last
body that ran. -/
def forEach {α : Type} (body : α → Eval (Option Value)) (last : Option Value) :
    List α → Eval (Option Value)
  | [] => pure last
  | a :: as => do
    let result ← body a
    match ← pending with
    | some _ => return result
    | none => forEach body result as

/-- Runs a body while a test holds, until it makes the frame return; at most `budget` times. The
result is the value of the last body that ran. -/
def whileTrue (test : Eval Bool) (body : Eval (Option Value)) :
    (budget : Nat) → (last : Option Value) → Eval (Option Value)
  | 0, _ => exhaust
  | budget + 1, last => do
    if ← test then
      let result ← body
      match ← pending with
      | some _ => return result
      | none => whileTrue test body budget result
    else return last

end Eval

end DecimalScript
