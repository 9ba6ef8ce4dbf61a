import DecimalScript.Proofs.ExactArithmetic

/-!
# Powers are exact and guarded

A power has an exponent that is integral in value, at whatever scale it is written, and neither
negative nor above the limit. Then the coefficient is raised as a natural number, and the scale is
multiplied.

- `isIntegral_iff`, `toInt_eq`: what is integral in value, and as which number.
- `powerIndex_cases`: which exponents there are powers for, and why there is none for the others.
- `isResult_natPower`: powers with natural exponents are exact.
- `natPower_succ`: the next power is the product with the base, as a decimal.
- `power_is_exact_and_guarded`: all of it for the operator.
-/

namespace DecimalScript

namespace Decimal

/-! ### Integral numbers -/

theorem hasScale_zero_iff (q : ℚ) : HasScale q 0 ↔ ∃ k : ℤ, q = k := by
  unfold HasScale
  simp only [zpow_zero, mul_one]

/-- A number is an integer if and only if a power of ten divides its coefficient, so that the digits
behind the point are zeros. -/
theorem isIntegral_iff (d : Decimal) : d.isIntegral = true ↔ ∃ k : ℤ, d.toRat = k := by
  rw [← hasScale_zero_iff]
  unfold isIntegral
  by_cases hexponent : 0 ≤ d.exponent
  · exact iff_of_true (by simp [hexponent]) ((hasScale_exponent d).of_le hexponent)
  · obtain ⟨n, hn⟩ := Int.eq_ofNat_of_zero_le (Int.neg_nonneg_of_nonpos (not_le.mp hexponent).le)
    have hscale : (0 : ℤ) = d.exponent + n := by omega
    rw [hscale, hasScale_add_iff, ← hscale, hn, Int.toNat_natCast, Numeral.shiftDown_eq,
      Nat.dvd_iff_mod_eq_zero]
    simp [hexponent]

/-- An integral number as an integer. -/
theorem toInt_eq {d : Decimal} (h : d.isIntegral = true) : (d.toInt : ℚ) = d.toRat := by
  rw [isIntegral_iff, ← hasScale_zero_iff] at h
  have hmagnitude : ((if d.isZero then 0
      else if 0 ≤ d.exponent then d.coefficient * Numeral.powerOfTen d.exponent.toNat
      else (Numeral.shiftDown d.coefficient (-d.exponent).toNat).1 : ℕ) : ℚ) = d.magnitude := by
    unfold magnitude
    by_cases hzero : d.isZero = true
    · have hcoefficient : d.coefficient = 0 := by simpa [isZero] using hzero
      rw [if_pos hzero, hcoefficient, Nat.cast_zero, zero_mul]
    rw [if_neg hzero]
    by_cases hexponent : 0 ≤ d.exponent
    · obtain ⟨n, hn⟩ := Int.eq_ofNat_of_zero_le hexponent
      rw [if_pos hexponent, hn, Int.toNat_natCast, zpow_natCast]
      exact_mod_cast rfl
    · obtain ⟨n, hn⟩ := Int.eq_ofNat_of_zero_le (Int.neg_nonneg_of_nonpos (not_le.mp hexponent).le)
      have hscale : (0 : ℤ) = d.exponent + n := by omega
      -- Behind the point there are only zeros, so that nothing is lost with them.
      rw [hscale, hasScale_add_iff] at h
      obtain ⟨k, hk⟩ := h
      rw [if_neg hexponent, hn, Int.toNat_natCast, Numeral.shiftDown_eq, hk,
        Nat.mul_div_cancel_left k (by positivity), show d.exponent = -(n : ℤ) by omega, zpow_neg,
        zpow_natCast]
      push_cast
      field_simp
  rw [toRat_eq, ← hmagnitude]
  unfold toInt
  cases d.negative with
  | false => rfl
  | true => exact Int.cast_neg _

/-! ### Exponents -/

theorem toRat_natural (n : ℤ) : (ofSigned n 0).toRat = n := by
  rw [toRat_ofSigned, zpow_zero, mul_one]

/-- An exponent has to be integral in value, then not negative, then at most the limit; the first of
these that fails is reported. -/
theorem powerIndex_cases (x : Decimal) (limit : ℤ) :
    ((¬ ∃ k : ℤ, x.toRat = k) ∧ x.powerIndex limit = .error (.fractionalExponent x)) ∨
    (x.toRat < 0 ∧ x.powerIndex limit = .error (.negativeExponent x)) ∨
    ((limit : ℚ) < x.toRat ∧ x.powerIndex limit = .error (.exponentOutOfRange x limit)) ∨
    ∃ n : ℕ, x.toRat = n ∧ (n : ℤ) ≤ limit ∧ x.powerIndex limit = .ok n := by
  have hbelow : x.cmp (ofNat 0) = .lt ↔ x.toRat < 0 := by
    have hzero : (ofNat 0).toRat = 0 := toRat_of_isZero (by rfl)
    rw [cmp_eq_compare_toRat, compare_lt_iff_lt, hzero]
  have habove : x.cmp (ofSigned limit 0) = .gt ↔ (limit : ℚ) < x.toRat := by
    rw [cmp_eq_compare_toRat, compare_gt_iff_gt, toRat_natural]
  unfold powerIndex
  by_cases hintegral : x.isIntegral = true
  · rw [if_neg (by simp [hintegral])]
    by_cases hnegative : x.toRat < 0
    · exact .inr (.inl ⟨hnegative, if_pos (hbelow.mpr hnegative)⟩)
    rw [if_neg (mt hbelow.mp hnegative)]
    by_cases hlarge : (limit : ℚ) < x.toRat
    · exact .inr (.inr (.inl ⟨hlarge, if_pos (habove.mpr hlarge)⟩))
    -- Only here the integer is a natural number within the limit.
    have hvalue := toInt_eq hintegral
    rw [not_lt, ← hvalue, Int.cast_nonneg_iff] at hnegative
    rw [not_lt, ← hvalue, Int.cast_le] at hlarge
    obtain ⟨n, hn⟩ := Int.eq_ofNat_of_zero_le hnegative
    rw [if_neg (mt habove.mp (by rwa [not_lt, ← hvalue, Int.cast_le]))]
    refine .inr (.inr (.inr ⟨n, ?_, hn ▸ hlarge, ?_⟩))
    · rw [← hvalue, hn, Int.cast_natCast]
    · rw [hn, Int.toNat_natCast]
  · rw [if_pos (by simp [hintegral])]
    exact .inl ⟨mt (isIntegral_iff x).mpr hintegral, rfl⟩

/-- Exponents with a power are the natural numbers up to the limit. -/
theorem powerIndex_eq_ok {x : Decimal} {limit : ℤ} {n : ℕ} (hvalue : x.toRat = n)
    (hlimit : (n : ℤ) ≤ limit) : x.powerIndex limit = .ok n := by
  rcases powerIndex_cases x limit with ⟨hfractional, -⟩ | ⟨hnegative, -⟩ | ⟨hlarge, -⟩ | hindex
  · exact absurd ⟨n, by rw [hvalue, Int.cast_natCast]⟩ hfractional
  · rw [hvalue] at hnegative
    exact absurd (Nat.cast_nonneg n) hnegative.not_ge
  · rw [hvalue, ← Int.cast_natCast, Int.cast_lt] at hlarge
    exact absurd hlimit hlarge.not_ge
  · obtain ⟨k, hk, -, hok⟩ := hindex
    rw [hvalue, Nat.cast_inj] at hk
    rw [hok, hk]

/-! ### Powers -/

theorem coefficientPower_eq (coefficient n : ℕ) :
    coefficientPower coefficient n = coefficient ^ n := by
  unfold coefficientPower
  split
  · rename_i hsmall
    split
    · rename_i hn
      rw [hn, pow_zero]
    · rename_i hn
      rcases Nat.le_one_iff_eq_zero_or_eq_one.mp hsmall with rfl | rfl
      · rw [zero_pow hn]
      · rw [one_pow]
  · rfl

/-- Odd powers of negative numbers are negative. -/
theorem signed_pow (d : Decimal) (n : ℕ) (exponent : ℤ) :
    signed ⟨d.negative && n % 2 == 1, d.coefficient ^ n, exponent⟩ = d.signed ^ n := by
  unfold signed
  cases d.negative with
  | false => simp
  | true =>
    rcases Nat.even_or_odd n with heven | hodd
    · simp [Nat.even_iff.mp heven, heven.neg_pow]
    · simp [Nat.odd_iff.mp hodd, hodd.neg_pow]

/-- A power multiplies the exponent, and a negative base is negative again at odd powers. -/
theorem isResult_natPower (base : Decimal) (n : ℕ) :
    (base.natPower n).IsResult (base.toRat ^ n) (base.exponent * n) := by
  have hvalue : base.toRat ^ n =
      toRat ⟨base.negative && n % 2 == 1, coefficientPower base.coefficient n,
        base.exponent * n⟩ := by
    unfold toRat
    rw [coefficientPower_eq, signed_pow, mul_pow, zpow_mul, zpow_natCast, Int.cast_pow]
  rw [hvalue]
  exact isResult_withoutZeroSign _

/-- A whole exponent from zero up to the limit gives the power. -/
theorem power_eq_ok (base : Decimal) {x : Decimal} {limit : ℤ} {n : ℕ} (hvalue : x.toRat = n)
    (hlimit : (n : ℤ) ≤ limit) : base.power x limit = .ok (base.natPower n) := by
  unfold power
  rw [powerIndex_eq_ok hvalue hlimit]
  rfl

theorem exists_power_eq_error_iff (base x : Decimal) (limit : ℤ) :
    (∃ fault, base.power x limit = .error fault) ↔
      (¬ ∃ k : ℤ, x.toRat = k) ∨ x.toRat < 0 ∨ (limit : ℚ) < x.toRat := by
  have hfault {fault : ArithmeticFault} (h : x.powerIndex limit = .error fault) :
      ∃ fault, base.power x limit = .error fault := by
    unfold power
    rw [h]
    exact ⟨fault, rfl⟩
  -- The exponent is checked in this order, and what passes all three checks is an index the power
  -- has.
  rcases powerIndex_cases x limit with ⟨hfractional, h⟩ | ⟨hnegative, h⟩ | ⟨hlarge, h⟩ | hindex
  · exact iff_of_true (hfault h) (.inl hfractional)
  · exact iff_of_true (hfault h) (.inr (.inl hnegative))
  · exact iff_of_true (hfault h) (.inr (.inr hlarge))
  · obtain ⟨n, hn, hlimit, -⟩ := hindex
    rw [power_eq_ok base hn hlimit]
    refine iff_of_false nofun ?_
    rintro (hfractional | hnegative | hlarge)
    · exact hfractional ⟨n, by rw [hn, Int.cast_natCast]⟩
    · rw [hn] at hnegative
      exact hnegative.not_ge (Nat.cast_nonneg n)
    · rw [hn, ← Int.cast_natCast, Int.cast_lt] at hlarge
      exact hlarge.not_ge hlimit

/-- One more factor is what one more in the exponent gives, scale included. -/
theorem natPower_succ (base : Decimal) (n : ℕ) :
    base.natPower (n + 1) = (base.natPower n).multiply base := by
  have hpower := isResult_natPower base n
  have hproduct := isResult_multiply (base.natPower n) base
  rw [hpower.value, hpower.exponent, ← pow_succ] at hproduct
  have hnext := isResult_natPower base (n + 1)
  rw [Nat.cast_succ, mul_add, mul_one] at hnext
  exact hnext.unique hproduct

end Decimal

/-- Where there is no power, nothing is out of reach. -/
theorem Step.operandExcess?_power {limits : Limits} {base x : Decimal} {fault : ArithmeticFault}
    (h : base.power x limits.maxExponent = .error fault) :
    operandExcess? limits .power base x = none := by
  unfold operandExcess?
  unfold Decimal.power at h
  cases hindex : x.powerIndex limits.maxExponent with
  | ok n =>
    rw [hindex] at h
    cases h
  | error _ => rfl

/-- **Powers are exact and guarded.** There is no power if and only if the exponent is not integral
in value, negative or above the limit, and then the operator fails for that reason. Otherwise the
power is exact, its scale is a multiple of that of the base, and it is no negative zero; with one
more in the exponent it is multiplied by the base once more. As long as numbers stay within bounds,
this is what the operator gives. -/
theorem power_is_exact_and_guarded (base x : Decimal) (limit : ℤ) :
    ((∃ fault, base.power x limit = .error fault) ↔
      (¬ ∃ k : ℤ, x.toRat = k) ∨ x.toRat < 0 ∨ (limit : ℚ) < x.toRat) ∧
    (∀ n : ℕ, x.toRat = n → (n : ℤ) ≤ limit →
      ∃ r, base.power x limit = .ok r ∧ r.IsResult (base.toRat ^ n) (base.exponent * n)) ∧
    (∀ n : ℕ, x.toRat = n → (n : ℤ) + 1 ≤ limit → ∀ y : Decimal, y.toRat = n + 1 →
      ∃ p q, base.power x limit = .ok p ∧ base.power y limit = .ok q ∧ q = p.multiply base) ∧
    ∀ limits : Limits, limits.maxExponent = limit →
      (∀ fault, base.power x limit = .error fault →
        Step.arithmetic limits .power base x = .error (.arithmetic fault)) ∧
      ∀ r, Step.operandExcess? limits .power base x = none → base.power x limit = .ok r →
        r.inBounds = true → Step.arithmetic limits .power base x = .ok r := by
  refine ⟨base.exists_power_eq_error_iff x limit, ?_, ?_, ?_⟩
  · intro n hn hlimit
    exact ⟨_, base.power_eq_ok hn hlimit, base.isResult_natPower n⟩
  · intro n hn hlimit y hy
    have hnext : y.toRat = (n + 1 : ℕ) := by rw [hy, Nat.cast_succ]
    exact ⟨_, _, base.power_eq_ok hn (by omega), base.power_eq_ok hnext (by omega),
      base.natPower_succ n⟩
  · rintro limits rfl
    constructor
    · intro fault hfault
      exact Step.arithmetic_of_fault (Step.operandExcess?_power hfault) hfault
    · intro r hreach hok
      exact Step.arithmetic_of_inBounds hreach hok

/-- The exponent `2.0` is the integer two, so that `-2.0 ^ 2.0` and `-2.0 ^ 3` differ by a factor;
and whatever zero is written with a sign, its power with an exponent that is zero is one. -/
theorem power_is_exact_and_guarded_scaled_exponent :
    let base : Decimal := ⟨true, 20, -1⟩
    let x : Decimal := ⟨false, 20, -1⟩
    let y : Decimal := ⟨false, 3, 0⟩
    x.toRat = (2 : ℕ) ∧ y.toRat = (2 : ℕ) + 1 ∧
      (∃ p q, base.power x 3 = .ok p ∧ base.power y 3 = .ok q ∧ q = p.multiply base) ∧
      base.power x 3 = .ok ⟨false, 400, -2⟩ ∧
      Decimal.toRat ⟨true, 0, -1⟩ = (0 : ℕ) ∧
      ∃ r, Decimal.power ⟨true, 0, -2⟩ ⟨true, 0, -1⟩ 3 = .ok r ∧ r.toRat = 1 := by
  intro base x y
  have hx : x.toRat = (2 : ℕ) := by norm_num [Decimal.toRat, Decimal.signed, x]
  have hy : y.toRat = (2 : ℕ) + 1 := by norm_num [Decimal.toRat, Decimal.signed, y]
  have hzero : Decimal.toRat ⟨true, 0, -1⟩ = (0 : ℕ) := by simp [Decimal.toRat, Decimal.signed]
  have hproduct := (power_is_exact_and_guarded base x 3).2.2.1 2 hx (by decide) y hy
  obtain ⟨r, hr, hone⟩ :=
    (power_is_exact_and_guarded ⟨true, 0, -2⟩ ⟨true, 0, -1⟩ 3).2.1 0 hzero (by decide)
  exact ⟨hx, hy, hproduct, by decide +kernel, hzero, r, hr, hone.value.trans (pow_zero _)⟩

end DecimalScript
