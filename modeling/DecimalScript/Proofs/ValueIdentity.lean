import DecimalScript.Proofs.DecimalOrder
import DecimalScript.Value.Basic

/-!
# What makes two values the same

A number is the rational number that it stands for, whatever its scale; strings and booleans are
their content; and arrays, dictionaries and functions are where they are in the heap. Two values are
the same exactly if they agree in this, so sameness is an equivalence.
-/

namespace DecimalScript

/-- All that sameness of values depends on. -/
inductive Identity where
  | number (value : ℚ)
  | string (value : String)
  | boolean (value : Bool)
  | array (ref : ArrayRef)
  | dictionary (ref : DictionaryRef)
  | function (ref : FunctionRef)
deriving DecidableEq

namespace Value

/-- The identity of a value. -/
def identity : Value → Identity
  | number d => .number d.toRat
  | string s => .string s
  | boolean b => .boolean b
  | array ref => .array ref
  | dictionary ref => .dictionary ref
  | function ref => .function ref

/-- **Two values are the same exactly if they have one identity.** -/
theorem same_iff (a b : Value) : a.same b = true ↔ a.identity = b.identity := by
  cases a <;> cases b
  case number.number x y =>
    rw [identity, identity, Identity.number.injEq, same, beq_iff_eq, Decimal.cmp_eq_compare_toRat,
      compare_eq_iff_eq]
  all_goals simp [same, identity]

theorem same_eq (a b : Value) : a.same b = decide (a.identity = b.identity) := by
  rw [Bool.eq_iff_iff, same_iff, decide_eq_true_iff]

end Value

end DecimalScript
