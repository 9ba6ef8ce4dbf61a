import DecimalScript.Builtin.Run

/-!
# Effects of built-in functions

A built-in function looks at its arguments, prints and changes a container step by step. What a
whole call comes to can be told in advance from the heap and the arguments: it fails before its
first change, or it does one thing, gives a result and stops. The one thing is an `Effect`.

- `Effect`, `Machine.perform`: one thing to do, and a machine after it.
- `NativeFunction.effect`: what a call will do, or the fault with which it will fail.
- `NativeFunction.run_eq_effect`: **the steps of a call come to its effect**. That a failed call has
  changed nothing rests on this theorem alone: the steps are free to fail at any moment, and the proof
  goes through them in their order.

Proofs about calls use the effect and do not look at the steps again.
-/

namespace DecimalScript

open Eval

/-! ### Effects -/

/-- What a call of a built-in function does. -/
inductive Effect where
  /-- Gives a value, or none. -/
  | give (value : Option Value)
  /-- Gives a text and prints it with the ending behind it. -/
  | print (text ending : String)
  /-- Gives a new array. -/
  | newArray (elements : List Value)
  /-- Adds a value at the end of an array and gives the array. -/
  | append (ref : ArrayRef) (value : Value)
  /-- Removes the element at an index of an array and gives it. -/
  | removeIndex (ref : ArrayRef) (index : Nat)
  /-- Removes a key of a dictionary and gives its value. -/
  | removeKey (ref : DictionaryRef) (key : Value)

namespace Effect

/-- The value that an effect on a heap gives. -/
def value (heap : Heap) : Effect → Option Value
  | give value => value
  | print text _ => some (.string text)
  | newArray elements => some (heap.addArray elements.toArray).1
  | append ref _ => some (.array ref)
  | removeIndex ref index => (heap.array ref)[index]?
  | removeKey ref key => (heap.dictionary ref).get? key

/-- The heap after an effect. -/
def heapAfter (heap : Heap) : Effect → Heap
  | give _ | print _ _ => heap
  | newArray elements => (heap.addArray elements.toArray).2
  | append ref value => heap.modifyArray ref (·.push value)
  | removeIndex ref index => heap.modifyArray ref (·.eraseIdxIfInBounds index)
  | removeKey ref key => heap.modifyDictionary ref (·.erase key)

/-- What an effect prints. -/
def printed : Effect → String
  | print text ending => text ++ ending
  | _ => ""

/-- An effect gives a number. -/
def giveNumber (d : Decimal) : Effect :=
  give (some (.ofDecimal d))

end Effect

/-- A machine after an effect. -/
def Machine.perform (m : Machine) (effect : Effect) : Machine :=
  { m with heap := effect.heapAfter m.heap, output := m.output ++ effect.printed }

/-- A call that has an effect, or fails at a span and changes nothing. -/
def Effect.outcome (span : Span) (m : Machine) : Except RuntimeFault Effect → Outcome (Option Value)
  | .ok effect => .done (effect.value m.heap) (m.perform effect)
  | .error fault => .failed (.ofRuntime fault span) m

/-! ### Which effect a call has -/

namespace Builtin

/-- The texts of values, one behind the other. -/
def concatenated (maxDigits : Nat) (heap : Heap) (args : List Value) : Except RuntimeFault String :=
  (args.mapM (heap.write maxDigits)).map String.join

/-- A value is added at the end of a container, which has to be an array. -/
def addition (container value : Value) : Except RuntimeFault Effect :=
  (arrayRef container).map (.append · value)

/-- What is under a key of a container is taken away, if there is something. -/
def removal (maxDigits : Nat) (heap : Heap) (container key : Value) : Except RuntimeFault Effect := do
  match ← containerRef container with
  | .array ref => return .removeIndex ref (← key.toIndex (heap.array ref).size)
  | .dictionary ref =>
    match (heap.dictionary ref).get? key with
    | some _ => return .removeKey ref key
    | none => .error (.missingKey (← heap.write maxDigits key))

/-- The effect of a call, or the fault with which it fails. -/
def effect (maxDigits : Nat) (builtin : Builtin) (name : String) (arity : Nat) (heap : Heap)
    (args : List Value) : Except RuntimeFault Effect :=
  match builtin, args with
  | .print, args => (concatenated maxDigits heap args).map (.print · "")
  | .println, args => (concatenated maxDigits heap args).map (.print · "\n")
  | .len, [v] => (length heap v).map fun n => .giveNumber (.ofNat n)
  | .keys, [v] => (dictionaryRef v).map fun ref => .newArray (heap.dictionary ref).keys
  | .values, [v] => (dictionaryRef v).map fun ref => .newArray (heap.dictionary ref).values
  | .append, [container, value] => addition container value
  | .remove, [container, key] => removal maxDigits heap container key
  | .str, [v] => (heap.write maxDigits v).map fun text => .give (some (.string text))
  | .num, [v] => (toNumber v).map fun n => .give (some n)
  | .typeof, [v] => .ok (.give (some (.string v.kind.name)))
  | .abs, [v] => v.toNumber.map fun d => .giveNumber d.abs
  | .floor, [v] => v.toNumber.map fun d => .giveNumber (d.round .floor)
  | .ceil, [v] => v.toNumber.map fun d => .giveNumber (d.round .ceiling)
  | .round, [v] => v.toNumber.map fun d => .giveNumber (d.round .halfAway)
  | .host function, args => (function.run heap.snapshot args).map .give
  | _, _ => .error (.argumentCount name arity args.length)

end Builtin

/-- The effect of a call of a built-in function, whose number of arguments has to be its arity if it
has one. -/
def NativeFunction.effect (maxDigits : Nat) (f : NativeFunction) (heap : Heap) (args : List Value) :
    Except RuntimeFault Effect :=
  match f.arity with
  | some arity =>
    if args.length = arity then f.builtin.effect maxDigits f.name arity heap args
    else .error (.argumentCount f.name arity args.length)
  | none => f.builtin.effect maxDigits f.name 0 heap args

/-! ### What an effect leaves as it is -/

namespace Machine

/-- An effect that prints nothing changes the heap at most. -/
theorem perform_silent {effect : Effect} (h : effect.printed = "") (m : Machine) :
    m.perform effect = { m with heap := effect.heapAfter m.heap } := by
  unfold perform
  rw [h, String.append_empty]

@[simp] theorem perform_give (m : Machine) (value : Option Value) :
    m.perform (.give value) = m :=
  perform_silent rfl m

end Machine

/-! ### Steps of a call -/

namespace Builtin

variable {maxDigits : Nat} {span : Span} {m : Machine}

/-- A requirement that holds, or the failure of the call before anything has changed. -/
theorem outcome_of_requirement {α : Type} {x : Except RuntimeFault α}
    {f : α → Eval (Option Value)} {g : α → Except RuntimeFault Effect}
    (h : ∀ a, f a m = Effect.outcome span m (g a)) :
    (ofExcept span x >>= f) m = Effect.outcome span m (x >>= g) := by
  cases x with
  | ok a => exact h a
  | error fault => rfl

/-- A requirement that gives the effect at once. -/
theorem outcome_of_map {α : Type} {x : Except RuntimeFault α} {f : α → Eval (Option Value)}
    {g : α → Effect} (h : ∀ a, f a m = .done ((g a).value m.heap) (m.perform (g a))) :
    (ofExcept span x >>= f) m = Effect.outcome span m (x.map g) := by
  cases x with
  | ok a => exact h a
  | error fault => rfl

/-- A result without a change. -/
theorem pure_eq_give (value : Option Value) :
    (pure value : Eval (Option Value)) m =
      .done ((Effect.give value).value m.heap) (m.perform (.give value)) := by
  rw [Machine.perform_give]
  rfl

/-- Texts are found one after the other, and the machine stays as it is. -/
theorem all_textOf (args : List Value) :
    all (textOf maxDigits span) args m =
      ofExcept span (args.mapM (m.heap.write maxDigits)) m := by
  induction args with
  | nil => rfl
  | cons v vs ih =>
    have htext : textOf maxDigits span v m = ofExcept span (m.heap.write maxDigits v) m := rfl
    rw [List.mapM_cons, all, bind_apply, htext]
    cases m.heap.write maxDigits v with
    | error fault => rfl
    | ok text =>
      show (all (textOf maxDigits span) vs >>= fun texts => pure (text :: texts)) m = _
      rw [bind_apply, ih]
      cases vs.mapM (m.heap.write maxDigits) <;> rfl

theorem printAll_eq (ending : String) (args : List Value) :
    printAll maxDigits span ending args m =
      Effect.outcome span m ((concatenated maxDigits m.heap args).map (.print · ending)) := by
  unfold printAll concatenated
  rw [bind_apply, all_textOf]
  cases args.mapM (m.heap.write maxDigits) <;> rfl

theorem computed_eq (f : Decimal → Decimal) (v : Value) :
    computed span f v m = Effect.outcome span m (v.toNumber.map fun d => .giveNumber (f d)) :=
  outcome_of_map fun _ => pure_eq_give _

theorem listed_eq (f : Dictionary → List Value) (v : Value) :
    listed span f v m = Effect.outcome span m
      ((dictionaryRef v).map fun ref => .newArray (f (m.heap.dictionary ref))) := by
  refine outcome_of_map fun ref => ?_
  rw [Machine.perform_silent rfl]
  rfl

theorem appendTo_eq (container value : Value) :
    appendTo span container value m = Effect.outcome span m (addition container value) := by
  unfold appendTo addition
  cases container with
  | array ref =>
    show _ = Outcome.done _ (m.perform (.append ref value))
    rw [Machine.perform_silent rfl]
    rfl
  | _ => rfl

theorem removeIndex_eq (ref : ArrayRef) (key : Value) :
    removeIndex span ref key m = Effect.outcome span m
      (key.toIndex (m.heap.array ref).size >>= fun index => pure (.removeIndex ref index)) := by
  refine outcome_of_requirement fun index => ?_
  show _ = Outcome.done _ (m.perform (.removeIndex ref index))
  rw [Machine.perform_silent rfl]
  rfl

theorem removeKey_eq (ref : DictionaryRef) (key : Value) :
    removeKey maxDigits span ref key m = Effect.outcome span m
      (match (m.heap.dictionary ref).get? key with
        | some _ => pure (.removeKey ref key)
        | none => m.heap.write maxDigits key >>= fun text => .error (.missingKey text)) := by
  show (match (m.heap.dictionary ref).get? key with
    | some value => (do changeHeap (·.modifyDictionary ref (·.erase key)); return some value)
    | none => textOf maxDigits span key >>= fun text => fail (.missingKey text) span) m = _
  cases hfound : (m.heap.dictionary ref).get? key with
  | some value =>
    show _ = Outcome.done ((m.heap.dictionary ref).get? key) (m.perform (.removeKey ref key))
    rw [Machine.perform_silent rfl, hfound]
    rfl
  | none => exact outcome_of_requirement fun text => rfl

theorem removeFrom_eq (container key : Value) :
    removeFrom maxDigits span container key m =
      Effect.outcome span m (removal maxDigits m.heap container key) := by
  refine outcome_of_requirement fun ref => ?_
  cases ref with
  | array ref => exact removeIndex_eq ref key
  | dictionary ref => exact removeKey_eq ref key

/-- A function of the host has no other effect than to give what it gives. -/
theorem host_eq (function : HostFunction) (args : List Value) :
    (machine >>= fun k => ofExcept span (function.run k.heap.snapshot args)) m =
      Effect.outcome span m ((function.run m.heap.snapshot args).map .give) := by
  show ofExcept span (function.run m.heap.snapshot args) m = _
  cases function.run m.heap.snapshot args with
  | ok value => exact pure_eq_give value
  | error fault => rfl

/-- The steps of a call come to its effect. -/
theorem run_eq_effect (b : Builtin) (name : String) (arity : Nat) (args : List Value) :
    b.run maxDigits name arity args span m =
      Effect.outcome span m (b.effect maxDigits name arity m.heap args) := by
  unfold run
  split
  · exact printAll_eq "" _
  · exact printAll_eq "\n" _
  · exact outcome_of_map fun _ => pure_eq_give _
  · exact listed_eq Dictionary.keys _
  · exact listed_eq Dictionary.values _
  · exact appendTo_eq _ _
  · exact removeFrom_eq _ _
  · exact outcome_of_map fun _ => pure_eq_give _
  · exact outcome_of_map fun _ => pure_eq_give _
  · exact pure_eq_give _
  · exact computed_eq Decimal.abs _
  · exact computed_eq (·.round .floor) _
  · exact computed_eq (·.round .ceiling) _
  · exact computed_eq (·.round .halfAway) _
  · exact host_eq _ _
  -- What is left is a function with a number of arguments that it cannot take.
  · unfold effect
    split <;> first | rfl | simp_all

end Builtin

/-- **The steps of a call of a built-in function come to its effect**: the call fails and has
changed nothing, or the effect is all that it has done. -/
theorem NativeFunction.run_eq_effect (maxDigits : Nat) (f : NativeFunction) (args : List Value)
    (span : Span) (m : Machine) :
    f.run maxDigits args span m = Effect.outcome span m (f.effect maxDigits m.heap args) := by
  unfold run effect
  cases f.arity with
  | none => exact f.builtin.run_eq_effect f.name 0 args
  | some arity =>
    by_cases hargs : args.length = arity
    · simp only [if_pos hargs]
      exact f.builtin.run_eq_effect f.name arity args
    · simp only [if_neg hargs]
      rfl

end DecimalScript
