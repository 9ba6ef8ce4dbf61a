import DecimalScript.Machine.Step
import DecimalScript.Proofs.Stability
import DecimalScript.Proofs.ValueIdentity
import Mathlib.Data.String.Basic

/-!
# Comparing values

Two numbers compare as the rational numbers that they stand for and two strings as the lists of
their code points; nothing else compares. The order, the equality of the operators and the sameness
of values are three definitions, and they agree: an inversion lemma says when two values compare and
how, and all laws of the order are those of the linear orders behind it.

- `Value.order_eq_ok_iff`: when two values compare, and how.
- `Value.order_swap`, `Value.order_trans`, `Value.order_equal`: the laws.
- `comparison_is_total_order`: all of them, up to the operators of a script.

Equality does not fail where the order does: values of one kind are always equal or not, whatever
the kind. So the laws that tie the two together are stated for values that compare, and the sameness
of values is an equivalence for all of them.
-/

namespace DecimalScript

/-! ### Strings by code points -/

/-- The code points of a string. -/
def codePoints (s : String) : List Nat :=
  s.toList.map Char.toNat

theorem map_toNat_lt_iff (cs ds : List Char) : cs.map Char.toNat < ds.map Char.toNat ↔ cs < ds := by
  induction cs generalizing ds with
  | nil => cases ds <;> simp
  | cons c cs ih =>
    cases ds with
    | nil => simp
    | cons d ds =>
      have hlt : c.toNat < d.toNat ↔ c < d := UInt32.lt_iff_toNat_lt.symm
      have heq : c.toNat = d.toNat ↔ c = d := Char.toNat_inj
      rw [List.map_cons, List.map_cons, List.cons_lt_cons_iff, List.cons_lt_cons_iff, ih, hlt, heq]

/-- Strings are ordered by code points, first difference first. -/
theorem codePoints_lt_iff {s t : String} : codePoints s < codePoints t ↔ s < t := by
  unfold codePoints
  rw [map_toNat_lt_iff, String.lt_iff_toList_lt]

/-! ### Comparing in a linear order -/

section Comparing

variable {α : Type} [LinearOrder α]

theorem compare_swap (x y : α) : (compare x y).swap = compare y x := by
  rw [← cmp_eq_compare, cmp_swap, cmp_eq_compare]

/-- What is not above stays so, and is equal only if both are. -/
theorem compare_trans {x y z : α} (hxy : compare x y ≠ .gt) (hyz : compare y z ≠ .gt) :
    compare x z ≠ .gt ∧ (compare x z = .eq ↔ compare x y = .eq ∧ compare y z = .eq) := by
  rw [ne_eq, compare_gt_iff_gt, not_lt] at hxy hyz
  rw [ne_eq, compare_gt_iff_gt, not_lt, compare_eq_iff_eq, compare_eq_iff_eq, compare_eq_iff_eq]
  refine ⟨hxy.trans hyz, ?_, ?_⟩
  · -- Back at the same element, nothing in between was above.
    rintro rfl
    have heq := le_antisymm hxy hyz
    exact ⟨heq, heq.symm⟩
  · rintro ⟨rfl, rfl⟩
    rfl

end Comparing

/-- The kinds that are ordered. -/
def Kind.IsOrdered (k : Kind) : Prop :=
  k = .number ∨ k = .string

namespace Value

variable {a b c : Value}

/-! ### When values can be compared -/

/-- Values of two kinds are not the same. -/
theorem kind_eq_of_same (h : a.same b = true) : a.kind = b.kind := by
  have hidentity := (same_iff a b).mp h
  cases a <;> cases b <;> first | rfl | cases hidentity

theorem equal_eq_ok_iff {r : Bool} : a.equal b = .ok r ↔ a.kind = b.kind ∧ r = a.same b := by
  unfold equal
  by_cases hkind : a.kind = b.kind
  · rw [if_pos hkind, Except.ok.injEq, eq_comm]
    exact (and_iff_right hkind).symm
  · rw [if_neg hkind]
    exact iff_of_false nofun fun h => hkind h.1

/-- Values of different kinds cannot be tested, and both kinds are reported. -/
theorem equal_eq_error_iff {fault : RuntimeFault} :
    a.equal b = .error fault ↔ a.kind ≠ b.kind ∧ fault = .kindMismatch a.kind b.kind := by
  unfold equal
  by_cases hkind : a.kind = b.kind
  · rw [if_pos hkind]
    exact iff_of_false nofun fun h => h.1 hkind
  · rw [if_neg hkind, Except.error.injEq, eq_comm]
    exact (and_iff_right hkind).symm

theorem exists_number (h : a.kind = .number) : ∃ x, a = .number x := by
  cases a with
  | number x => exact ⟨x, rfl⟩
  | _ => cases h

theorem exists_string (h : a.kind = .string) : ∃ s, a = .string s := by
  cases a with
  | string s => exact ⟨s, rfl⟩
  | _ => cases h

/-- The operators find two values equal exactly if they are the same. -/
theorem equal_eq_ok_true_iff : a.equal b = .ok true ↔ a.same b = true := by
  rw [equal_eq_ok_iff, eq_comm (a := true)]
  exact and_iff_right_of_imp kind_eq_of_same

/-- **Two values compare if both are numbers, or both strings.** -/
theorem order_eq_ok_iff {o : Ordering} :
    a.order b = .ok o ↔
      (∃ x y, a = .number x ∧ b = .number y ∧ o = compare x.toRat y.toRat) ∨
        ∃ s t, a = .string s ∧ b = .string t ∧ o = compare s t := by
  constructor
  · intro h
    unfold order at h
    split at h
    · rename_i x y
      -- Numbers are compared by aligned coefficients; that this is the order of their values is
      -- `cmp_eq_compare_toRat`.
      refine .inl ⟨x, y, rfl, rfl, ?_⟩
      rw [← Decimal.cmp_eq_compare_toRat]
      exact (Except.ok.inj h).symm
    · rename_i s t
      exact .inr ⟨s, t, rfl, rfl, (Except.ok.inj h).symm⟩
    · split at h <;> cases h
  · rintro (⟨x, y, rfl, rfl, rfl⟩ | ⟨s, t, rfl, rfl, rfl⟩)
    · exact congrArg Except.ok (Decimal.cmp_eq_compare_toRat x y)
    · rfl

/-- Two values do not compare if their kinds differ, or if their kind has no order. -/
theorem order_eq_error_iff {fault : RuntimeFault} :
    a.order b = .error fault ↔ a.kind ≠ b.kind ∧ fault = .kindMismatch a.kind b.kind ∨
      a.kind = b.kind ∧ ¬ a.kind.IsOrdered ∧ fault = .unorderedKind a.kind := by
  unfold order
  split
  · exact iff_of_false nofun fun h => h.elim (fun h => h.1 rfl) fun h => h.2.1 (.inl rfl)
  · exact iff_of_false nofun fun h => h.elim (fun h => h.1 rfl) fun h => h.2.1 (.inr rfl)
  · rename_i hnumbers hstrings
    by_cases hkind : a.kind = b.kind
    · -- Of two values of an ordered kind both are numbers or both strings.
      have hunordered : ¬ a.kind.IsOrdered := by
        rintro (hnumber | hstring)
        · obtain ⟨x, rfl⟩ := exists_number hnumber
          obtain ⟨y, rfl⟩ := exists_number (hkind.symm.trans hnumber)
          exact hnumbers x y rfl rfl
        · obtain ⟨s, rfl⟩ := exists_string hstring
          obtain ⟨t, rfl⟩ := exists_string (hkind.symm.trans hstring)
          exact hstrings s t rfl rfl
      rw [if_pos hkind, Except.error.injEq, eq_comm]
      constructor
      · exact fun h => .inr ⟨hkind, hunordered, h⟩
      · rintro (⟨hdiffer, -⟩ | ⟨-, -, h⟩)
        · exact absurd hkind hdiffer
        · exact h
    · rw [if_neg hkind, Except.error.injEq, eq_comm]
      constructor
      · exact fun h => .inl ⟨hkind, h⟩
      · rintro (⟨-, h⟩ | ⟨hsame, -⟩)
        · exact h
        · exact absurd hsame hkind

/-! ### The laws -/

/-- Comparing values the other way around swaps the result. -/
theorem order_swap {o : Ordering} (h : a.order b = .ok o) : b.order a = .ok o.swap := by
  rcases order_eq_ok_iff.mp h with ⟨x, y, rfl, rfl, rfl⟩ | ⟨s, t, rfl, rfl, rfl⟩
  · exact order_eq_ok_iff.mpr (.inl ⟨y, x, rfl, rfl, compare_swap _ _⟩)
  · exact order_eq_ok_iff.mpr (.inr ⟨t, s, rfl, rfl, compare_swap _ _⟩)

/-- Results that do not go down can be chained, and are equal only if both are. -/
theorem order_trans {o o' : Ordering} (h : a.order b = .ok o) (h' : b.order c = .ok o')
    (ho : o ≠ .gt) (ho' : o' ≠ .gt) :
    ∃ o'', a.order c = .ok o'' ∧ o'' ≠ .gt ∧ (o'' = .eq ↔ o = .eq ∧ o' = .eq) := by
  rcases order_eq_ok_iff.mp h with ⟨x, y, rfl, rfl, rfl⟩ | ⟨s, t, rfl, rfl, rfl⟩
  · rcases order_eq_ok_iff.mp h' with ⟨_, z, ⟨⟩, rfl, rfl⟩ | ⟨_, _, ⟨⟩, -⟩
    exact ⟨_, order_eq_ok_iff.mpr (.inl ⟨x, z, rfl, rfl, rfl⟩), compare_trans ho ho'⟩
  · rcases order_eq_ok_iff.mp h' with ⟨_, _, ⟨⟩, -⟩ | ⟨_, u, ⟨⟩, rfl, rfl⟩
    exact ⟨_, order_eq_ok_iff.mpr (.inr ⟨s, u, rfl, rfl, rfl⟩), compare_trans ho ho'⟩

/-- Values that compare are equal exactly if neither is above the other. -/
theorem order_equal {o : Ordering} (h : a.order b = .ok o) : a.equal b = .ok (o == .eq) := by
  rcases order_eq_ok_iff.mp h with ⟨x, y, rfl, rfl, rfl⟩ | ⟨s, t, rfl, rfl, rfl⟩
  · refine equal_eq_ok_iff.mpr ⟨rfl, ?_⟩
    show _ = (x.cmp y == .eq)
    rw [Decimal.cmp_eq_compare_toRat]
  · refine equal_eq_ok_iff.mpr ⟨rfl, ?_⟩
    show _ = (s == t)
    rw [Bool.eq_iff_iff, beq_iff_eq, beq_iff_eq, compare_eq_iff_eq]

/-- Sameness of values is an equivalence. -/
theorem same_equivalence : Equivalence fun a b : Value => a.same b = true where
  refl a := (same_iff a a).mpr rfl
  symm h := (same_iff _ _).mpr ((same_iff _ _).mp h).symm
  trans h h' := (same_iff _ _).mpr (((same_iff _ _).mp h).trans ((same_iff _ _).mp h'))

end Value

/-! ### The operators -/

/-- Whether a relation holds of what compares in a given way. -/
def Relation.holds : Relation → Ordering → Bool
  | .lt, o => o == .lt
  | .eq, o => o == .eq
  | .gt, o => o == .gt
  | .ge, o => !(o == .lt)
  | .ne, o => !(o == .eq)
  | .le, o => !(o == .gt)

section Operators

variable {limits : Limits} {budget : Nat} {span : Span} {left right : Expr} {a b : Value}
  {m later last : Machine}

/-- A relation of two expressions is that of their values, and fails where they do not compare. -/
theorem evalExpr_relation (hleft : evalExpr limits budget left m = .done a later)
    (hright : evalExpr limits budget right later = .done b last) (r : Relation) :
    evalExpr limits (budget + 1) (.binary span (.relation r) left right) m =
      Eval.ofExcept span ((Step.relation r a b).map .boolean) last := by
  show Step.binary limits (evalExpr limits budget) span (.relation r) left right m = _
  unfold Step.binary
  dsimp only
  rw [Eval.bind_done hleft, Eval.bind_done hright]
  cases Step.relation r a b <;> rfl

/-- Of two values that compare, the relations are those of their order. -/
theorem relation_of_order {o : Ordering} (h : a.order b = .ok o) (r : Relation) :
    Step.relation r a b = .ok (r.holds o) := by
  have hequal := Value.order_equal h
  cases r <;> simp only [Step.relation, h, hequal] <;> cases o <;> rfl

end Operators

/-- **Comparison is a total order consistent with equality.** The kinds of two values decide whether
they can be compared and, if not, why. Numbers compare as the rational numbers that they stand for
and strings by code points. Comparing the other way round gives the opposite; what is not above
stays so; and neither of two values is above the other exactly if they are equal. Sameness of
values, of any kinds, is an equivalence, and it is what the operators find equal.

In a script, of two operands that compare exactly one of the relations `<`, `==` and `>` holds, and
the relations `>=`, `!=` and `<=` are the opposites of these. -/
theorem comparison_is_total_order (a b c : Value) :
    (∀ fault, a.equal b = .error fault ↔
      a.kind ≠ b.kind ∧ fault = .kindMismatch a.kind b.kind) ∧
    (∀ fault, a.order b = .error fault ↔
      a.kind ≠ b.kind ∧ fault = .kindMismatch a.kind b.kind ∨
        a.kind = b.kind ∧ ¬ (a.kind = .number ∨ a.kind = .string) ∧
          fault = .unorderedKind a.kind) ∧
    (∀ x y, a = .number x → b = .number y → a.order b = .ok (compare x.toRat y.toRat)) ∧
    (∀ s t, a = .string s → b = .string t →
      (a.order b = .ok .lt ↔ codePoints s < codePoints t) ∧ (a.order b = .ok .eq ↔ s = t) ∧
        (a.order b = .ok .gt ↔ codePoints t < codePoints s)) ∧
    (∀ o, a.order b = .ok o ↔ b.order a = .ok o.swap) ∧
    (∀ o o', a.order b = .ok o → b.order c = .ok o' → o ≠ .gt → o' ≠ .gt →
      ∃ o'', a.order c = .ok o'' ∧ o'' ≠ .gt ∧ (o'' = .eq ↔ o = .eq ∧ o' = .eq)) ∧
    (∀ o, a.order b = .ok o → a.equal b = .ok (o == .eq)) ∧
    (∀ limits budget span left right m later last,
      evalExpr limits budget left m = .done a later →
      evalExpr limits budget right later = .done b last →
      let outcome := fun r : Relation =>
        evalExpr limits (budget + 1) (.binary span (.relation r) left right) m
      (∀ r fault, Step.relation r a b = .error fault →
        outcome r = .failed (.ofRuntime fault span) last) ∧
      (∀ o, a.order b = .ok o → ∃ lt eq gt, [lt, eq, gt].count true = 1 ∧
        (lt = true ↔ o = .lt) ∧ (eq = true ↔ o = .eq) ∧ (gt = true ↔ o = .gt) ∧
        outcome .lt = .done (.boolean lt) last ∧ outcome .ge = .done (.boolean !lt) last ∧
        outcome .eq = .done (.boolean eq) last ∧ outcome .ne = .done (.boolean !eq) last ∧
        outcome .gt = .done (.boolean gt) last ∧ outcome .le = .done (.boolean !gt) last)) ∧
    (a.equal b = .ok true ↔ a.same b = true) ∧
    Equivalence fun a b : Value => a.same b = true := by
  refine ⟨fun _ => Value.equal_eq_error_iff, fun _ => Value.order_eq_error_iff, ?_, ?_, ?_,
    fun _ _ => Value.order_trans, fun _ => Value.order_equal, ?_, Value.equal_eq_ok_true_iff,
    Value.same_equivalence⟩
  · rintro x y rfl rfl
    exact Value.order_eq_ok_iff.mpr (.inl ⟨x, y, rfl, rfl, rfl⟩)
  · rintro s t rfl rfl
    have horder : (Value.string s).order (.string t) = .ok (compare s t) := rfl
    rw [horder, Except.ok.injEq, Except.ok.injEq, Except.ok.injEq, compare_lt_iff_lt,
      compare_eq_iff_eq, compare_gt_iff_gt, codePoints_lt_iff, codePoints_lt_iff]
    exact ⟨Iff.rfl, Iff.rfl, Iff.rfl⟩
  · intro o
    constructor
    · exact Value.order_swap
    · intro h
      rw [← Ordering.swap_swap (o := o)]
      exact Value.order_swap h
  · intro limits budget span left right m later last hleft hright outcome
    -- Both operands are evaluated whatever the relation is, so only their comparison decides.
    have houtcome : ∀ r, outcome r = Eval.ofExcept span ((Step.relation r a b).map .boolean) last :=
      evalExpr_relation hleft hright
    constructor
    · intro r fault hfault
      rw [houtcome, hfault]
      rfl
    · intro o ho
      have hdone : ∀ r, outcome r = .done (.boolean (r.holds o)) last := by
        intro r
        rw [houtcome, relation_of_order ho]
        rfl
      refine ⟨o == .lt, o == .eq, o == .gt, ?_, beq_iff_eq, beq_iff_eq, beq_iff_eq, hdone _,
        hdone _, hdone _, hdone _, hdone _, hdone _⟩
      cases o <;> rfl

/-- Three numbers of which the last two are equal at different scales, and the operators that hold
of the first two. -/
theorem comparison_is_total_order_across_scales :
    let a : Value := .number ⟨false, 999, -2⟩
    let b : Value := .number ⟨false, 100, -1⟩
    let c : Value := .number ⟨false, 1, 1⟩
    let span : Span := ⟨none, .start, .start⟩
    let left : Expr := .number span ⟨false, 999, -2⟩ "9.99"
    let right : Expr := .number span ⟨false, 100, -1⟩ "10.0"
    a.order b = .ok .lt ∧ b.order c = .ok .eq ∧ a.order c = .ok .lt ∧
      ∀ limits m, ∀ r ∈ [Relation.lt, .ne, .le],
        evalExpr limits 2 (.binary span (.relation r) left right) m = .done (.boolean true) m := by
  intro a b c span left right
  have hab : a.order b = .ok .lt := by rfl
  have hbc : b.order c = .ok .eq := by rfl
  obtain ⟨-, -, -, -, -, htrans, -, hscript, -, -⟩ := comparison_is_total_order a b c
  refine ⟨hab, hbc, ?_, ?_⟩
  · obtain ⟨o, ho, hgt, heq⟩ := htrans .lt .eq hab hbc (by decide) (by decide)
    cases o with
    | lt => exact ho
    | eq => cases (heq.mp rfl).1
    | gt => exact absurd rfl hgt
  · intro limits m r hr
    obtain ⟨lt, eq, gt, -, hlt, heq, hgt, hless, -, -, hdiffer, -, hatmost⟩ :=
      (hscript limits 1 span left right m m m rfl rfl).2 .lt hab
    obtain rfl : lt = true := hlt.mpr rfl
    obtain rfl : eq = false := Bool.eq_false_iff.mpr fun h => nomatch heq.mp h
    obtain rfl : gt = false := Bool.eq_false_iff.mpr fun h => nomatch hgt.mp h
    simp only [List.mem_cons, List.not_mem_nil, or_false] at hr
    rcases hr with rfl | rfl | rfl
    · exact hless
    · exact hdiffer
    · exact hatmost

end DecimalScript
