import DecimalScript.Decimal.Order
import DecimalScript.Proofs.Numerals
import Mathlib.Algebra.Order.Field.Power
import Mathlib.Data.Rat.Cast.Order
import Mathlib.Tactic.Linarith
import Mathlib.Tactic.Positivity

/-!
# Decimals are ordered by value

A decimal stands for a rational number, and `Decimal.cmp` is the order of these numbers, although it
compares signs or leading digits wherever that is enough.
-/

namespace DecimalScript.Decimal

/-- The number that a decimal stands for. -/
def toRat (d : Decimal) : ℚ :=
  d.signed * (10 : ℚ) ^ d.exponent

/-- The absolute value of the number that a decimal stands for. -/
def magnitude (d : Decimal) : ℚ :=
  d.coefficient * (10 : ℚ) ^ d.exponent

theorem toRat_eq (d : Decimal) : d.toRat = if d.negative then -d.magnitude else d.magnitude := by
  unfold toRat magnitude signed
  split
  · push_cast
    ring
  · push_cast
    rfl

theorem toRat_ofSigned (n exponent : Int) : (ofSigned n exponent).toRat = n * 10 ^ exponent := by
  have hsigned : (ofSigned n exponent).signed = n := by
    unfold ofSigned signed
    dsimp only
    by_cases hn : n < 0
    · rw [if_pos (decide_eq_true hn)]
      omega
    · rw [if_neg (by simpa using hn)]
      omega
  unfold toRat
  rw [hsigned]
  rfl

/-- Bringing a number to a smaller exponent does not change it. -/
theorem scaledTo_mul {d : Decimal} {exponent : Int} (h : exponent ≤ d.exponent) :
    (d.scaledTo exponent : ℚ) * 10 ^ exponent = d.toRat := by
  obtain ⟨n, hn⟩ := Int.eq_ofNat_of_zero_le (Int.sub_nonneg_of_le h)
  have hexponent : d.exponent = n + exponent := by omega
  unfold scaledTo
  by_cases hzero : d.isZero = true
  · have hcoefficient : d.coefficient = 0 := by simpa [isZero] using hzero
    rw [if_pos hzero]
    simp [toRat, signed, hcoefficient]
  · have hpower : ((Numeral.powerOfTen n : Int) : ℚ) = 10 ^ (n : Int) := by
      unfold Numeral.powerOfTen
      rw [zpow_natCast]
      exact_mod_cast rfl
    rw [if_neg hzero, hn, Int.toNat_natCast]
    unfold toRat
    rw [hexponent, zpow_add₀ (by norm_num), ← hpower]
    push_cast
    ring

/-- A number that is not zero lies between the power of ten of its leading digit and the next. -/
theorem magnitude_bounds {d : Decimal} (h : d.isZero = false) :
    (10 : ℚ) ^ d.leadingExponent ≤ d.magnitude ∧ d.magnitude < 10 ^ (d.leadingExponent + 1) := by
  have hcoefficient : d.coefficient ≠ 0 := by simpa [isZero] using h
  obtain ⟨hlow, hhigh⟩ := Numeral.pow_le_and_lt_pow hcoefficient
  have hcount := Numeral.digitCount_pos d.coefficient
  have hpower : (0 : ℚ) < 10 ^ d.exponent := by positivity
  have hfirst : d.leadingExponent = (Numeral.digitCount d.coefficient - 1 : Nat) + d.exponent := by
    unfold leadingExponent
    omega
  have hnext : d.leadingExponent + 1 = (Numeral.digitCount d.coefficient : Nat) + d.exponent := by
    unfold leadingExponent
    omega
  rw [hnext, hfirst, zpow_add₀ (by norm_num), zpow_add₀ (by norm_num), zpow_natCast, zpow_natCast]
  unfold magnitude
  constructor
  · exact mul_le_mul_of_nonneg_right (by exact_mod_cast hlow) hpower.le
  · exact mul_lt_mul_of_pos_right (by exact_mod_cast hhigh) hpower

/-! ### Comparing -/

/-- Comparisons agree where both relations do. -/
theorem compare_eq_compare {α β : Type} [LinearOrder α] [LinearOrder β] {a b : α} {x y : β}
    (hlt : a < b ↔ x < y) (hgt : b < a ↔ y < x) : compare a b = compare x y := by
  rcases lt_trichotomy a b with h | h | h
  · rw [compare_lt_iff_lt.mpr h, compare_lt_iff_lt.mpr (hlt.mp h)]
  · have heq : x = y := le_antisymm (not_lt.mp fun hyx => h.not_gt (hgt.mpr hyx))
      (not_lt.mp fun hxy => h.not_lt (hlt.mpr hxy))
    rw [compare_eq_iff_eq.mpr h, compare_eq_iff_eq.mpr heq]
  · rw [compare_gt_iff_gt.mpr h, compare_gt_iff_gt.mpr (hgt.mp h)]

/-- Numbers at one exponent are ordered as their coefficients. -/
theorem compare_mul_pow (m n exponent : Int) :
    compare m n = compare ((m : ℚ) * 10 ^ exponent) (n * 10 ^ exponent) := by
  have hpower : (0 : ℚ) < 10 ^ exponent := by positivity
  refine compare_eq_compare ?_ ?_ <;>
    rw [mul_lt_mul_iff_of_pos_right hpower, Int.cast_lt]

theorem toRat_pos_iff (d : Decimal) : 0 < d.toRat ↔ 0 < d.signed := by
  have hpower : (0 : ℚ) < 10 ^ d.exponent := by positivity
  unfold toRat
  rw [mul_pos_iff_of_pos_right hpower, Int.cast_pos]

theorem toRat_neg_iff (d : Decimal) : d.toRat < 0 ↔ d.signed < 0 := by
  have hpower : (0 : ℚ) < 10 ^ d.exponent := by positivity
  unfold toRat
  rw [← not_iff_not, not_lt, not_lt, mul_nonneg_iff_of_pos_right hpower, Int.cast_nonneg_iff]

/-- Zero has no sign as a coefficient, though it may have one as a number. -/
theorem signed_of_isZero {d : Decimal} (h : d.isZero = true) : d.signed = 0 := by
  have hcoefficient : d.coefficient = 0 := by simpa [isZero] using h
  simp [signed, hcoefficient]

theorem toRat_of_isZero {d : Decimal} (h : d.isZero = true) : d.toRat = 0 := by
  simp [toRat, signed_of_isZero h]

theorem signed_neg_iff {d : Decimal} (h : d.isZero = false) : d.signed < 0 ↔ d.negative = true := by
  have hcoefficient : d.coefficient ≠ 0 := by simpa [isZero] using h
  unfold signed
  cases d.negative with
  | false => simp
  | true =>
    simp
    omega

theorem signed_pos_iff {d : Decimal} (h : d.isZero = false) :
    0 < d.signed ↔ d.negative = false := by
  have hcoefficient : d.coefficient ≠ 0 := by simpa [isZero] using h
  unfold signed
  cases d.negative with
  | true => simp
  | false =>
    simp
    omega

/-- Numbers of which not both are positive and not both negative are ordered as their signs. -/
theorem sign_lt_iff {a b : Decimal}
    (h : (a.isZero || b.isZero || a.negative != b.negative) = true) :
    a.signed.sign < b.signed.sign ↔ a.toRat < b.toRat := by
  by_cases ha : a.isZero = true
  · rw [signed_of_isZero ha, toRat_of_isZero ha, Int.sign_zero, Int.sign_pos_iff, toRat_pos_iff]
  by_cases hb : b.isZero = true
  · rw [signed_of_isZero hb, toRat_of_isZero hb, Int.sign_zero, Int.sign_neg_iff, toRat_neg_iff]
  rw [Bool.not_eq_true] at ha hb
  rw [ha, hb] at h
  have hdiffer : a.negative ≠ b.negative := by simpa using h
  -- Neither is zero, so one is negative and the other one positive.
  by_cases hnegative : a.negative = true
  · have hneg : a.signed < 0 := (signed_neg_iff ha).mpr hnegative
    have hpos : 0 < b.signed := (signed_pos_iff hb).mpr (by simpa [hnegative] using hdiffer.symm)
    rw [Int.sign_eq_neg_one_of_neg hneg, Int.sign_eq_one_of_pos hpos]
    refine iff_of_true (by decide) ?_
    exact ((toRat_neg_iff a).mpr hneg).trans ((toRat_pos_iff b).mpr hpos)
  · rw [Bool.not_eq_true] at hnegative
    have hpos : 0 < a.signed := (signed_pos_iff ha).mpr hnegative
    have hneg : b.signed < 0 := (signed_neg_iff hb).mpr (by simpa [hnegative] using hdiffer.symm)
    rw [Int.sign_eq_one_of_pos hpos, Int.sign_eq_neg_one_of_neg hneg]
    refine iff_of_false (by decide) (not_lt.mpr ?_)
    exact (((toRat_neg_iff b).mpr hneg).trans ((toRat_pos_iff a).mpr hpos)).le

/-- Where one number is zero or the signs differ, the signs alone settle the comparison. -/
theorem compare_sign {a b : Decimal}
    (h : (a.isZero || b.isZero || a.negative != b.negative) = true) :
    compare a.signed.sign b.signed.sign = compare a.toRat b.toRat := by
  have hswapped : (b.isZero || a.isZero || b.negative != a.negative) = true := by
    rw [Bool.or_comm b.isZero, bne_comm]
    exact h
  exact compare_eq_compare (sign_lt_iff h) (sign_lt_iff hswapped)

/-- Where the leading digits stand at different powers of ten, they tell the order of the
magnitudes. -/
theorem compare_leadingExponent {a b : Decimal} (ha : a.isZero = false) (hb : b.isZero = false)
    (h : a.leadingExponent ≠ b.leadingExponent) :
    compare a.leadingExponent b.leadingExponent = compare a.magnitude b.magnitude := by
  have hless : ∀ {x y : Decimal}, x.isZero = false → y.isZero = false →
      x.leadingExponent < y.leadingExponent → x.magnitude < y.magnitude := by
    intro x y hx hy hxy
    calc x.magnitude < 10 ^ (x.leadingExponent + 1) := (magnitude_bounds hx).2
      _ ≤ 10 ^ y.leadingExponent := zpow_le_zpow_right₀ (by norm_num) hxy
      _ ≤ y.magnitude := (magnitude_bounds hy).1
  rcases lt_or_gt_of_ne h with hlt | hgt
  · rw [compare_lt_iff_lt.mpr hlt, compare_lt_iff_lt.mpr (hless ha hb hlt)]
  · rw [compare_gt_iff_gt.mpr hgt, compare_gt_iff_gt.mpr (hless hb ha hgt)]

/-- Of negative numbers the one with the larger magnitude is the smaller one. -/
theorem compare_toRat {a b : Decimal} (h : a.negative = b.negative) :
    compare a.toRat b.toRat =
      if a.negative then (compare a.magnitude b.magnitude).swap
      else compare a.magnitude b.magnitude := by
  rw [toRat_eq, toRat_eq, ← h]
  by_cases hnegative : a.negative = true
  · rw [if_pos hnegative, if_pos hnegative, if_pos hnegative]
    rw [← cmp_eq_compare a.magnitude, cmp_swap, cmp_eq_compare]
    exact compare_eq_compare neg_lt_neg_iff neg_lt_neg_iff
  · rw [if_neg hnegative, if_neg hnegative, if_neg hnegative]

/-- Coefficients at one exponent compare like the numbers. -/
theorem compareScaled_eq (a b : Decimal) : a.compareScaled b = compare a.toRat b.toRat := by
  unfold compareScaled
  dsimp only
  rw [compare_mul_pow _ _ (min a.exponent b.exponent), scaledTo_mul (min_le_left _ _),
    scaledTo_mul (min_le_right _ _)]

/-- **Decimals are ordered by value.** -/
theorem cmp_eq_compare_toRat (a b : Decimal) : a.cmp b = compare a.toRat b.toRat := by
  unfold cmp
  by_cases hexponent : a.exponent = b.exponent
  · rw [if_pos hexponent, compare_mul_pow _ _ a.exponent]
    unfold toRat
    rw [hexponent]
  · rw [if_neg hexponent]
    by_cases hsigns : (a.isZero || b.isZero || a.negative != b.negative) = true
    · rw [if_pos hsigns]
      exact compare_sign hsigns
    · rw [if_neg hsigns]
      simp only [Bool.or_eq_true, not_or, Bool.not_eq_true, bne_eq_false_iff_eq] at hsigns
      obtain ⟨⟨ha, hb⟩, hnegative⟩ := hsigns
      by_cases hleading : a.leadingExponent = b.leadingExponent
      -- Only where the leading digits stand at the same power of ten are all digits needed.
      · rw [compare_eq_iff_eq.mpr hleading]
        exact compareScaled_eq a b
      · have hmagnitude := compare_leadingExponent ha hb hleading
        rw [compare_toRat hnegative, ← hmagnitude]
        split
        · rename_i heq
          exact absurd (compare_eq_iff_eq.mp heq) hleading
        · rfl

end DecimalScript.Decimal
