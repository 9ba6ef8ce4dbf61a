import DecimalScript.Machine.Step
import DecimalScript.Proofs.BuiltinEffects

/-!
# Operations that call nothing

Of all the faults of a running script, the one about the depth of calls has a single place: where a
function of the script is called. What operators, element access and built-in functions do fails, if
it does, for another reason. `Shallow` says so of a result, and there is one lemma for each
operation that an evaluation may come to. -/

namespace DecimalScript

variable {α β : Type}

/-- A result, or a fault that is not about the depth of calls. -/
def Shallow (x : Except RuntimeFault α) : Prop :=
  ∀ fault, x = .error fault → fault.isCallDepth = false

namespace Shallow

theorem ok (a : α) : Shallow (.ok a) :=
  fun _ h => by cases h

theorem error {fault : RuntimeFault} (h : fault.isCallDepth = false) :
    Shallow (.error fault : Except RuntimeFault α) := by
  rintro fault' ⟨⟩
  exact h

/-- Two shallow computations in a row are shallow. -/
theorem bind {x : Except RuntimeFault α} {f : α → Except RuntimeFault β} (hx : Shallow x)
    (hf : ∀ a, Shallow (f a)) : Shallow (x >>= f) := by
  cases x with
  | ok a => exact hf a
  | error fault => exact .error (hx fault rfl)

theorem map {x : Except RuntimeFault α} (f : α → β) (hx : Shallow x) : Shallow (x.map f) := by
  cases x with
  | ok a => exact .ok (f a)
  | error fault => exact .error (hx fault rfl)

/-- Faults of another kind, told as runtime faults. -/
theorem mapError {ε : Type} {x : Except ε α} {f : ε → RuntimeFault}
    (hf : ∀ e, (f e).isCallDepth = false) : Shallow (x.mapError f) := by
  cases x with
  | ok a => exact .ok a
  | error e => exact .error (hf e)

/-- Shallow computations in a row are shallow. -/
theorem mapM {f : α → Except RuntimeFault β} (hf : ∀ a, Shallow (f a)) (as : List α) :
    Shallow (as.mapM f) := by
  induction as with
  | nil => exact .ok []
  | cons a as ih =>
    rw [List.mapM_cons]
    exact .bind (hf a) fun _ => .bind ih fun _ => .ok _

/-! ### Operators and element access -/

/-- A value that is no number is no call that is too deep. -/
theorem toNumber (v : Value) : Shallow v.toNumber := by
  cases v with
  | number d => exact .ok d
  | _ => exact .error rfl

theorem toBoolean (v : Value) : Shallow v.toBoolean := by
  cases v with
  | boolean b => exact .ok b
  | _ => exact .error rfl

theorem equal (a b : Value) : Shallow (a.equal b) := by
  unfold Value.equal
  split
  · exact .ok _
  · exact .error rfl

/-- Values that cannot be compared are no call that is too deep. -/
theorem order (a b : Value) : Shallow (a.order b) := by
  unfold Value.order
  split
  · exact .ok _
  · exact .ok _
  · split <;> exact .error rfl

theorem relation (r : Relation) (a b : Value) : Shallow (Step.relation r a b) := by
  cases r with
  | eq => exact .equal a b
  | ne => exact .map _ (.equal a b)
  | lt | le | gt | ge => exact .map _ (.order a b)

/-- A key that is no index is no call that is too deep. -/
theorem toIndex (length : Nat) (key : Value) : Shallow (key.toIndex length) := by
  refine .bind (.toNumber key) fun index => ?_
  split
  · exact .error rfl
  · split
    · exact .error rfl
    · exact .ok _

/-- A number that cannot be written is no call that is too deep. -/
theorem write (heap : Heap) (maxDigits : Nat) (v : Value) : Shallow (heap.write maxDigits v) := by
  unfold Heap.write
  split
  · exact .ok _
  · exact .error rfl

/-- Arithmetic refuses operands, results and powers, and never a call. -/
theorem arithmetic (limits : Limits) (op : ArithmeticOp) (a b : Decimal) :
    Shallow (Step.arithmetic limits op a b) := by
  unfold Step.arithmetic
  split
  · exact .error rfl
  · exact .bind (.mapError fun _ => rfl) fun _ => .mapError fun _ => rfl

/-! ### Built-in functions -/

theorem length (heap : Heap) (v : Value) : Shallow (Builtin.length heap v) := by
  cases v with
  | string | array | dictionary => exact .ok _
  | number | boolean | function => exact .error rfl

theorem arrayRef (v : Value) : Shallow (Builtin.arrayRef v) := by
  cases v with
  | array ref => exact .ok _
  | _ => exact .error rfl

theorem dictionaryRef (v : Value) : Shallow (Builtin.dictionaryRef v) := by
  cases v with
  | dictionary ref => exact .ok _
  | _ => exact .error rfl

theorem containerRef (v : Value) : Shallow (Builtin.containerRef v) := by
  cases v with
  | array ref => exact .ok _
  | dictionary ref => exact .ok _
  | _ => exact .error rfl

/-- What cannot be removed is no call that is too deep. -/
theorem removal (maxDigits : Nat) (heap : Heap) (container key : Value) :
    Shallow (Builtin.removal maxDigits heap container key) := by
  refine .bind (.containerRef container) fun ref => ?_
  cases ref with
  | array ref => exact .bind (.toIndex _ _) fun _ => .ok _
  | dictionary ref =>
    dsimp only
    split
    · exact .ok _
    · exact .bind (.write heap _ key) fun _ => .error rfl

theorem readNumber (v : Value) : Shallow (Builtin.toNumber v) := by
  cases v with
  | number d => exact .ok _
  | string s =>
    unfold Builtin.toNumber
    dsimp only
    split
    · exact .ok _
    · exact .error rfl
  | _ => exact .error rfl

theorem concatenated (maxDigits : Nat) (heap : Heap) (args : List Value) :
    Shallow (Builtin.concatenated maxDigits heap args) :=
  .map _ (.mapM (.write heap _) args)

/-- A function of the host does not fail as a call of the script does. -/
theorem host (function : HostFunction) (containers : Containers) (args : List Value) :
    Shallow (function.run containers args) :=
  fun _ => function.isCallDepth_of_run_eq_error

/-- No built-in function calls another one. -/
theorem builtin (maxDigits : Nat) (b : Builtin) (name : String) (arity : Nat) (heap : Heap)
    (args : List Value) : Shallow (b.effect maxDigits name arity heap args) := by
  unfold Builtin.effect
  split
  · exact .map _ (.concatenated maxDigits heap _)
  · exact .map _ (.concatenated maxDigits heap _)
  · exact .map _ (.length heap _)
  · exact .map _ (.dictionaryRef _)
  · exact .map _ (.dictionaryRef _)
  · exact .map _ (.arrayRef _)
  · exact .removal maxDigits heap _ _
  · exact .map _ (.write heap _ _)
  · exact .map _ (.readNumber _)
  · exact .ok _
  · exact .map _ (.toNumber _)
  · exact .map _ (.toNumber _)
  · exact .map _ (.toNumber _)
  · exact .map _ (.toNumber _)
  · exact .map _ (.host _ _ _)
  · exact .error rfl

/-- A built-in function calls nothing. -/
theorem native (maxDigits : Nat) (f : NativeFunction) (heap : Heap) (args : List Value) :
    Shallow (f.effect maxDigits heap args) := by
  unfold NativeFunction.effect
  split
  · split
    · exact .builtin maxDigits _ _ _ heap args
    · exact .error rfl
  · exact .builtin maxDigits _ _ _ heap args

end Shallow

end DecimalScript
