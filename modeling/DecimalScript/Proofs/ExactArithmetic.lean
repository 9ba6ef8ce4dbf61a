import DecimalScript.Machine.Step
import DecimalScript.Proofs.Division
import Mathlib.Data.Rat.Floor

/-!
# Sums, products and remainders are exact

Sums, differences and remainders bring both numbers to the smaller exponent and then work on whole
numbers, so the power of ten that both share cancels from whatever is said of them. Every result is
made by `ofSigned` or passes through `withoutZeroSign`, and neither makes a negative zero.

- `IsResult`: what a result has to be; value and exponent leave one decimal only.
- `remainder_eq`: the shortcut for small dividends gives the remainder of the whole numbers, too.
- `truncated_eq`: the whole number next to a quotient on the side of zero, told by what is left.
- `Step.arithmetic_of_inBounds`: results within bounds are what operators give.
- `arithmetic_is_exact`: all of it for the operators.
-/

namespace DecimalScript

namespace Decimal

/-! ### Results -/

/-- A decimal is the result of exact arithmetic: it has the value and the exponent that are asked
for, and is no negative zero. -/
structure IsResult (r : Decimal) (value : ℚ) (exponent : ℤ) : Prop where
  value : r.toRat = value
  exponent : r.exponent = exponent
  unsigned_zero : r.isZero = true → r.negative = false

/-- There is one result only. -/
theorem IsResult.unique {r r' : Decimal} {value : ℚ} {exponent : ℤ} (h : r.IsResult value exponent)
    (h' : r'.IsResult value exponent) : r = r' := by
  have hexponent : r.exponent = r'.exponent := h.exponent.trans h'.exponent.symm
  have hvalue : r.toRat = r'.toRat := h.value.trans h'.value.symm
  exact eq_of_toRat_eq hvalue hexponent h.unsigned_zero h'.unsigned_zero

/-- A signed coefficient at an exponent is a result without a negative zero. -/
theorem isResult_ofSigned (n exponent : ℤ) :
    (ofSigned n exponent).IsResult (n * 10 ^ exponent) exponent where
  value := toRat_ofSigned n exponent
  exponent := rfl
  unsigned_zero := by
    intro hzero
    have hn : n = 0 := by simpa [ofSigned, isZero] using hzero
    subst hn
    rfl

theorem isResult_withoutZeroSign (d : Decimal) :
    d.withoutZeroSign.IsResult d.toRat d.exponent := by
  unfold withoutZeroSign
  by_cases hzero : d.isZero = true
  · rw [if_pos hzero]
    refine ⟨?_, rfl, fun _ => rfl⟩
    rw [toRat_of_isZero hzero]
    exact toRat_of_isZero hzero
  · rw [if_neg hzero]
    exact ⟨rfl, rfl, fun h => absurd h hzero⟩

/-! ### Sums and products -/

/-- A sum is taken at the lower exponent, where both coefficients are whole. -/
theorem isResult_add (a b : Decimal) :
    (a.add b).IsResult (a.toRat + b.toRat) (min a.exponent b.exponent) := by
  rw [← scaledTo_mul (min_le_left a.exponent b.exponent),
    ← scaledTo_mul (min_le_right a.exponent b.exponent), ← add_mul, ← Int.cast_add]
  exact isResult_ofSigned _ _

theorem isResult_subtract (a b : Decimal) :
    (a.subtract b).IsResult (a.toRat - b.toRat) (min a.exponent b.exponent) := by
  rw [← scaledTo_mul (min_le_left a.exponent b.exponent),
    ← scaledTo_mul (min_le_right a.exponent b.exponent), ← sub_mul, ← Int.cast_sub]
  exact isResult_ofSigned _ _

/-- A product of coefficients has the sum of the exponents. -/
theorem isResult_multiply (a b : Decimal) :
    (a.multiply b).IsResult (a.toRat * b.toRat) (a.exponent + b.exponent) := by
  have hvalue : a.toRat * b.toRat =
      (a.signed * b.signed : ℤ) * 10 ^ (a.exponent + b.exponent) := by
    rw [zpow_add₀ (by norm_num)]
    unfold toRat
    push_cast
    ring
  rw [hvalue]
  exact isResult_ofSigned _ _

theorem toRat_opposite (a : Decimal) : toRat { a with negative := !a.negative } = -a.toRat := by
  rw [toRat_eq, toRat_eq]
  cases a.negative with
  | false => rfl
  | true => exact (neg_neg a.magnitude).symm

theorem isResult_negate (a : Decimal) : a.negate.IsResult (-a.toRat) a.exponent := by
  rw [← toRat_opposite]
  exact isResult_withoutZeroSign _

/-! ### Remainders -/

/-- The whole number next to a number on the side of zero. -/
def truncated (q : ℚ) : ℤ :=
  if 0 ≤ q then ⌊q⌋ else ⌈q⌉

/-- What is less than one away from a number, and not on its far side, is next to it on the side of
zero. -/
theorem truncated_eq {q : ℚ} {n : ℤ} (hnear : |q - n| < 1) (hside : 0 ≤ (q - n) * q) :
    truncated q = n := by
  obtain ⟨hlow, hhigh⟩ := abs_lt.mp hnear
  unfold truncated
  -- Truncation is the ceiling below zero and the floor above it, so the sign of `q` is the split.
  rcases lt_trichotomy q 0 with hneg | rfl | hpos
  · have hle : q - n ≤ 0 := nonpos_of_mul_nonneg_left hside hneg
    rw [if_neg hneg.not_ge, Int.ceil_eq_iff]
    constructor <;> linarith
  · have hn : n = 0 := by
      have habove : (-1 : ℚ) < n := by linarith
      have hbelow : (n : ℚ) < 1 := by linarith
      norm_cast at habove hbelow
      omega
    subst hn
    simp
  · have hge : 0 ≤ q - n := nonneg_of_mul_nonneg_left hside hpos
    rw [if_pos hpos.le, Int.floor_eq_iff]
    constructor <;> linarith

/-- A decimal is the remainder of two others: what is left of the dividend after the whole multiples
of the divisor, cut toward zero. It is smaller than the divisor, zero or of the sign of the
dividend, and no negative zero. -/
structure IsRemainder (a b r : Decimal) : Prop where
  value : a.toRat = b.toRat * truncated (a.toRat / b.toRat) + r.toRat
  smaller : |r.toRat| < |b.toRat|
  positive : 0 < r.toRat → 0 < a.toRat
  negative : r.toRat < 0 → a.toRat < 0
  exponent : r.exponent = min a.exponent b.exponent
  unsigned_zero : r.isZero = true → r.negative = false

theorem toRat_abs (d : Decimal) : d.abs.toRat = |d.toRat| := by
  have hmagnitude : 0 ≤ d.magnitude := by
    unfold magnitude
    positivity
  have habs : d.abs.toRat = d.magnitude := toRat_eq d.abs
  rw [habs, toRat_eq]
  split
  · rw [abs_neg, abs_of_nonneg hmagnitude]
  · rw [abs_of_nonneg hmagnitude]

theorem isSmaller_iff (a b : Decimal) : a.isSmaller b = true ↔ |a.toRat| < |b.toRat| := by
  unfold isSmaller
  rw [beq_iff_eq, cmp_eq_compare_toRat, compare_lt_iff_lt, toRat_abs, toRat_abs]

/-- At a common exponent the coefficients compare like the magnitudes. -/
theorem abs_toRat_lt_iff {a b : Decimal} {exponent : ℤ} (ha : exponent ≤ a.exponent)
    (hb : exponent ≤ b.exponent) :
    |a.toRat| < |b.toRat| ↔ |a.scaledTo exponent| < |b.scaledTo exponent| := by
  have hpower : (0 : ℚ) < 10 ^ exponent := by positivity
  rw [← scaledTo_mul ha, ← scaledTo_mul hb, abs_mul, abs_mul, abs_of_pos hpower,
    mul_lt_mul_iff_of_pos_right hpower]
  norm_cast

theorem tmod_nonpos {m : ℤ} (n : ℤ) (h : m ≤ 0) : m.tmod n ≤ 0 := by
  have hopposite := Int.tmod_nonneg n (Int.neg_nonneg_of_nonpos h)
  rw [Int.neg_tmod] at hopposite
  exact Int.nonpos_of_neg_nonneg hopposite

/-- What is smaller than the divisor is its own remainder. -/
theorem tmod_eq_self {m n : ℤ} (h : m.natAbs < n.natAbs) : m.tmod n = m := by
  have habs : (m.tmod n).natAbs = m.natAbs := by rw [Int.natAbs_tmod, Nat.mod_eq_of_lt h]
  rcases le_total 0 m with hm | hm
  · have hrest := Int.tmod_nonneg n hm
    omega
  · have hrest := tmod_nonpos n hm
    omega

theorem remainder_by_zero {a b : Decimal} (hb : b.isZero = true) :
    a.remainder b = .error .divisionByZero := by
  unfold remainder
  exact if_pos hb

/-- The remainder is that of whole numbers, also where the dividend is smaller and no multiple of
the divisor is formed. -/
theorem remainder_eq {a b : Decimal} (hb : b.isZero = false) :
    a.remainder b = .ok (ofSigned
      ((a.scaledTo (min a.exponent b.exponent)).tmod (b.scaledTo (min a.exponent b.exponent)))
      (min a.exponent b.exponent)) := by
  unfold remainder
  dsimp only
  rw [if_neg (by simp [hb])]
  by_cases hsmaller : a.isSmaller b = true
  · have hlt := (abs_toRat_lt_iff (min_le_left _ _) (min_le_right _ _)).mp
      ((isSmaller_iff a b).mp hsmaller)
    rw [Int.abs_eq_natAbs, Int.abs_eq_natAbs, Int.ofNat_lt] at hlt
    rw [if_pos hsmaller, tmod_eq_self hlt]
  · rw [if_neg hsmaller]

/-- What is left of a whole number stands on the same side of zero. -/
theorem tmod_mul_nonneg (m n : ℤ) : 0 ≤ m.tmod n * m := by
  rcases le_total 0 m with hm | hm
  · exact mul_nonneg (Int.tmod_nonneg n hm) hm
  · exact mul_nonneg_of_nonpos_of_nonpos (tmod_nonpos n hm) hm

theorem abs_tmod_lt (m : ℤ) {n : ℤ} (hn : n ≠ 0) : |m.tmod n| < |n| := by
  rw [Int.abs_eq_natAbs, Int.abs_eq_natAbs, Int.natAbs_tmod, Int.ofNat_lt]
  exact Nat.mod_lt _ (Int.natAbs_pos.mpr hn)

/-- The quotient of whole numbers, cut toward zero. -/
theorem truncated_div (m : ℤ) {n : ℤ} (hn : n ≠ 0) : truncated ((m : ℚ) / n) = m.tdiv n := by
  have hdivisor : (n : ℚ) ≠ 0 := Int.cast_ne_zero.mpr hn
  have hrest : (m : ℚ) / n - m.tdiv n = (m.tmod n : ℚ) / n := by
    have hparts : ((n * m.tdiv n + m.tmod n : ℤ) : ℚ) = m := by rw [Int.mul_tdiv_add_tmod]
    rw [← hparts]
    push_cast
    field_simp
    ring
  apply truncated_eq
  · rw [hrest, abs_div, div_lt_one (abs_pos.mpr hdivisor)]
    exact_mod_cast abs_tmod_lt m hn
  · rw [hrest, div_mul_div_comm]
    exact div_nonneg (by exact_mod_cast tmod_mul_nonneg m n) (mul_self_nonneg _)

/-- The remainder of whole numbers is that of their multiples by one power of ten. -/
theorem isRemainder_ofSigned {a b : Decimal} {m n : ℤ} (hn : n ≠ 0)
    (ha : m * 10 ^ min a.exponent b.exponent = a.toRat)
    (hb : n * 10 ^ min a.exponent b.exponent = b.toRat) :
    IsRemainder a b (ofSigned (m.tmod n) (min a.exponent b.exponent)) := by
  have hpower : (0 : ℚ) < 10 ^ min a.exponent b.exponent := by positivity
  have hresult := isResult_ofSigned (m.tmod n) (min a.exponent b.exponent)
  refine ⟨?_, ?_, ?_, ?_, hresult.exponent, hresult.unsigned_zero⟩
  -- Both operands are integers over one power of ten, which cancels in the quotient and scales the
  -- remainder.
  · have hquotient : a.toRat / b.toRat = (m : ℚ) / n := by
      rw [← ha, ← hb, mul_div_mul_right _ _ hpower.ne']
    have hparts : (n : ℚ) * m.tdiv n + m.tmod n = m := by exact_mod_cast Int.mul_tdiv_add_tmod m n
    rw [hquotient, truncated_div m hn, hresult.value, ← ha, ← hb, ← hparts]
    ring
  · rw [hresult.value, ← hb, abs_mul, abs_mul]
    refine mul_lt_mul_of_pos_right ?_ (abs_pos.mpr hpower.ne')
    exact_mod_cast abs_tmod_lt m hn
  · rw [hresult.value, ← ha, mul_pos_iff_of_pos_right hpower, mul_pos_iff_of_pos_right hpower,
      Int.cast_pos, Int.cast_pos]
    intro hrest
    by_contra hm
    exact hrest.not_ge (tmod_nonpos n (not_lt.mp hm))
  · rw [hresult.value, ← ha, Rat.mul_neg_iff_of_pos_right hpower,
      Rat.mul_neg_iff_of_pos_right hpower, Int.cast_lt_zero, Int.cast_lt_zero]
    intro hrest
    by_contra hm
    exact hrest.not_ge (Int.tmod_nonneg n (not_lt.mp hm))

/-- Division by a number that is not zero leaves a remainder. -/
theorem remainder_spec (a : Decimal) {b : Decimal} (hb : b.isZero = false) :
    ∃ r, a.remainder b = .ok r ∧ IsRemainder a b r := by
  have hdivisor := scaledTo_mul (min_le_right a.exponent b.exponent)
  refine ⟨_, remainder_eq hb, isRemainder_ofSigned ?_ (scaledTo_mul (min_le_left _ _)) hdivisor⟩
  intro hzero
  rw [hzero, Int.cast_zero, zero_mul] at hdivisor
  rw [(toRat_eq_zero_iff b).mp hdivisor.symm] at hb
  cases hb

end Decimal

/-! ### Operators -/

/-- A number within bounds stays as it is. -/
theorem Decimal.confined_of_inBounds {d : Decimal} (h : d.inBounds = true) :
    d.confined = .ok d := by
  obtain ⟨hleading, hexponent⟩ := Bool.and_eq_true_iff.mp h
  have hleading : d.leadingExponent ≤ maxLeadingExponent := of_decide_eq_true hleading
  have hexponent : minExponent ≤ d.exponent := of_decide_eq_true hexponent
  unfold confined
  by_cases hsurely : d.surelyInBounds = true
  · rw [if_pos hsurely]
  rw [if_neg hsurely]
  by_cases hzero : d.isZero = true
  · -- The one digit of a zero stands at its exponent.
    have hdigit : d.leadingExponent = d.exponent := by
      have hcoefficient : d.coefficient = 0 := by simpa [isZero] using hzero
      have hone : Numeral.digitCount 0 = 1 := by decide
      unfold leadingExponent
      rw [hcoefficient, hone]
      omega
    rw [if_pos hzero, min_eq_left (hdigit ▸ hleading), max_eq_right hexponent]
  · rw [if_neg hzero, if_neg (not_lt.mpr hleading), if_neg (not_lt.mpr hexponent)]

namespace Step

variable {limits : Limits} {op : ArithmeticOp} {a b : Decimal}

/-- Within bounds, an operator gives the exact result. -/
theorem arithmetic_of_inBounds {r : Decimal} (hreach : operandExcess? limits op a b = none)
    (hexact : exact limits op a b = .ok r) (hr : r.inBounds = true) :
    arithmetic limits op a b = .ok r := by
  unfold arithmetic
  rw [hreach, hexact]
  show r.confined.mapError RuntimeFault.excess = _
  rw [Decimal.confined_of_inBounds hr]
  rfl

/-- Where there is no exact result, an operator fails for that reason. -/
theorem arithmetic_of_fault {fault : ArithmeticFault} (hreach : operandExcess? limits op a b = none)
    (hexact : exact limits op a b = .error fault) :
    arithmetic limits op a b = .error (.arithmetic fault) := by
  unfold arithmetic
  rw [hreach, hexact]
  rfl

end Step

/-- **Sums, differences, products, opposites and remainders are exact.** They have the exact value,
the smaller exponent of both numbers, the sum of the exponents or the exponent of the number, and
are never a negative zero. A remainder is what is left after the quotient, cut toward zero; there is
none if and only if the divisor is zero. A number that is made a value loses at most the sign of a
zero. As long as numbers stay within bounds, all this is what the operators give. -/
theorem arithmetic_is_exact (a b : Decimal) :
    (a.add b).IsResult (a.toRat + b.toRat) (min a.exponent b.exponent) ∧
    (a.subtract b).IsResult (a.toRat - b.toRat) (min a.exponent b.exponent) ∧
    (a.multiply b).IsResult (a.toRat * b.toRat) (a.exponent + b.exponent) ∧
    a.negate.IsResult (-a.toRat) a.exponent ∧
    (b.toRat ≠ 0 → ∃ r, a.remainder b = .ok r ∧ Decimal.IsRemainder a b r) ∧
    (b.toRat = 0 → a.remainder b = .error .divisionByZero ∧ ∀ limits,
      Step.arithmetic limits .remainder a b = .error (.arithmetic .divisionByZero)) ∧
    (∃ n, Value.ofDecimal a = .number n ∧ n.IsResult a.toRat a.exponent) ∧
    ∀ limits op r, Step.operandExcess? limits op a b = none → Step.exact limits op a b = .ok r →
      r.inBounds = true → Step.arithmetic limits op a b = .ok r := by
  refine ⟨a.isResult_add b, a.isResult_subtract b, a.isResult_multiply b, a.isResult_negate, ?_, ?_,
    ⟨_, rfl, a.isResult_withoutZeroSign⟩, fun _ _ _ => Step.arithmetic_of_inBounds⟩
  · intro hb
    exact a.remainder_spec (by simpa [Decimal.toRat_eq_zero_iff] using hb)
  · intro hb
    have hzero := (Decimal.toRat_eq_zero_iff b).mp hb
    have hfault := Decimal.remainder_by_zero (a := a) hzero
    refine ⟨hfault, fun limits => Step.arithmetic_of_fault ?_ hfault⟩
    show (if b.isZero || a.isZero || a.isSmaller b then none
      else Decimal.remainderExcess? limits.maxDigits a b) = none
    rw [hzero]
    rfl

/-- A negative dividend that is smaller than the divisor is its own remainder, and a remainder that
is zero has lost the sign of its dividend. -/
theorem arithmetic_is_exact_negative_dividend :
    let b : Decimal := ⟨false, 75, -1⟩
    Decimal.toRat b ≠ 0 ∧
      (∃ r, Decimal.remainder ⟨true, 2, 0⟩ b = .ok r ∧ Decimal.IsRemainder ⟨true, 2, 0⟩ b r) ∧
      (∃ r, Decimal.remainder ⟨true, 15, 0⟩ b = .ok r ∧
        Decimal.IsRemainder ⟨true, 15, 0⟩ b r) ∧
      Decimal.remainder ⟨true, 2, 0⟩ b = .ok ⟨true, 20, -1⟩ ∧
      Decimal.remainder ⟨true, 15, 0⟩ b = .ok ⟨false, 0, -1⟩ := by
  intro b
  have hb : b.toRat ≠ 0 := by simp [Decimal.toRat_eq_zero_iff, b, Decimal.isZero]
  exact ⟨hb, (arithmetic_is_exact _ b).2.2.2.2.1 hb, (arithmetic_is_exact _ b).2.2.2.2.1 hb,
    by decide +kernel, by decide +kernel⟩

end DecimalScript
