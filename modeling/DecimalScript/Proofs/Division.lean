import DecimalScript.Decimal.Arithmetic
import DecimalScript.Decimal.Bounds
import DecimalScript.Proofs.DecimalOrder
import Mathlib.Data.Nat.Prime.Basic
import Mathlib.Tactic.FieldSimp

/-!
# Quotients are exact

`Decimal.divide` works on the coefficients: it cancels what they have in common, counts the decimal
places that the denominator left over needs, and lowers the exponent by as many. What the quotient
should be is said about the rational numbers that the decimals stand for, whose fraction in lowest
terms has other denominators, because powers of ten cancel too.

- `HasScale`: a rational number is a whole multiple of a power of ten. Both fractions are compared
  through these powers alone.
- `decimalPlaces?_spec`: what is counted are the fewest places, and none are found only where another
  prime than two and five is in the way.
- `divide_spec`: what division gives is the quotient (`IsQuotient`), or a foreign prime is in the way.
- `divide_eq_divideRational`: dividing the rational numbers, and then moving the exact quotient to its
  exponent, gives the same and rounds nothing.
-/

namespace DecimalScript.Decimal

/-! ### Denominators -/

/-- A number is a power of `p` times what is left when `p` is factored out. -/
theorem factorOut_spec {p : Nat} (hp : 1 < p) (n count : Nat) (hn : 0 < n) :
    ∃ k, factorOut p n count = (count + k, n / p ^ k) ∧ p ^ k ∣ n ∧ ¬ p ∣ n / p ^ k := by
  induction n, count using factorOut.induct p with
  | case1 n count h ih =>
    have hdvd : p ∣ n := Nat.dvd_of_mod_eq_zero h.2.2
    obtain ⟨k, heq, hpow, hrest⟩ := ih (Nat.div_pos (Nat.le_of_dvd hn hdvd) (by omega))
    -- The loop divides once before it recurses, so the power comes off at the low end.
    have hquotient : n / p ^ (k + 1) = n / p / p ^ k := by
      rw [Nat.div_div_eq_div_mul, pow_succ']
    refine ⟨k + 1, ?_, ?_, ?_⟩
    · rw [factorOut, if_pos h, heq, hquotient]
      congr 1
      omega
    · rw [pow_succ']
      exact Nat.mul_dvd_of_dvd_div hdvd hpow
    · rw [hquotient]
      exact hrest
  | case2 n count h =>
    refine ⟨0, ?_, ?_, ?_⟩
    · rw [factorOut, if_neg h, pow_zero, Nat.div_one]
      rfl
    · exact one_dvd n
    · rw [pow_zero, Nat.div_one]
      exact fun hdvd => h ⟨hp, hn, Nat.mod_eq_zero_of_dvd hdvd⟩

/-- Twos and fives go into a power of ten that has as many of each. -/
theorem pow_mul_pow_dvd_iff (twos fives n : Nat) :
    2 ^ twos * 5 ^ fives ∣ 10 ^ n ↔ max twos fives ≤ n := by
  have hten : 10 ^ n = 2 ^ n * 5 ^ n := by rw [← Nat.mul_pow]
  rw [hten, Nat.max_le]
  constructor
  · intro h
    constructor
    · have htwo : 2 ^ twos ∣ 2 ^ n := Nat.Coprime.dvd_of_dvd_mul_right
        (Nat.Coprime.pow twos n (by decide)) ((Nat.dvd_mul_right _ _).trans h)
      exact (Nat.pow_dvd_pow_iff_le_right (by decide)).mp htwo
    · have hfive : 5 ^ fives ∣ 5 ^ n := Nat.Coprime.dvd_of_dvd_mul_left
        (Nat.Coprime.pow fives n (by decide)) ((Nat.dvd_mul_left _ _).trans h)
      exact (Nat.pow_dvd_pow_iff_le_right (by decide)).mp hfive
  · rintro ⟨htwos, hfives⟩
    exact Nat.mul_dvd_mul (pow_dvd_pow 2 htwos) (pow_dvd_pow 5 hfives)

/-- A prime that no power of ten is a multiple of divides a number. -/
def HasForeignPrime (n : Nat) : Prop :=
  ∃ p, p.Prime ∧ p ∣ n ∧ p ≠ 2 ∧ p ≠ 5

theorem not_dvd_pow_of_hasForeignPrime {n : Nat} (h : HasForeignPrime n) (places : Nat) :
    ¬ n ∣ 10 ^ places := by
  obtain ⟨p, hp, hdvd, htwo, hfive⟩ := h
  intro hten
  have hfactor : p ∣ 2 * 5 := hp.dvd_of_dvd_pow (hdvd.trans hten)
  rcases hp.dvd_mul.mp hfactor with h2 | h5
  · exact htwo ((Nat.prime_dvd_prime_iff_eq hp Nat.prime_two).mp h2)
  · exact hfive ((Nat.prime_dvd_prime_iff_eq hp Nat.prime_five).mp h5)

/-- The decimal places are the fewest that a fraction with the denominator needs, and there are none
only where a foreign prime divides it. -/
theorem decimalPlaces?_spec {denominator : Nat} (h : 0 < denominator) :
    match decimalPlaces? denominator with
    | some places => ∀ n, denominator ∣ 10 ^ n ↔ places ≤ n
    | none => HasForeignPrime denominator := by
  obtain ⟨twos, htwos, hpow2, hodd⟩ := factorOut_spec (p := 2) (by decide) denominator 0 h
  have hpos : 0 < denominator / 2 ^ twos := Nat.div_pos (Nat.le_of_dvd h hpow2) (by positivity)
  obtain ⟨fives, hfives, hpow5, hrest⟩ := factorOut_spec (p := 5) (by decide) _ 0 hpos
  generalize hodd_eq : denominator / 2 ^ twos = odd at *
  generalize hrest_eq : odd / 5 ^ fives = rest at *
  have hodd_mul : odd = 5 ^ fives * rest := by rw [← hrest_eq, Nat.mul_div_cancel' hpow5]
  have hmul : denominator = 2 ^ twos * 5 ^ fives * rest := by
    rw [Nat.mul_assoc, ← hodd_mul, ← hodd_eq, Nat.mul_div_cancel' hpow2]
  have heq : decimalPlaces? denominator = if rest = 1 then some (max twos fives) else none := by
    unfold decimalPlaces?
    simp only [htwos, hfives, Nat.zero_add]
  rw [heq]
  by_cases hone : rest = 1
  · rw [if_pos hone]
    intro n
    rw [hmul, hone, Nat.mul_one]
    exact pow_mul_pow_dvd_iff twos fives n
  · -- What is left has a prime factor, and twos and fives are no longer in it.
    rw [if_neg hone]
    refine ⟨rest.minFac, Nat.minFac_prime hone, ?_, ?_, ?_⟩
    · rw [hmul]
      exact (Nat.minFac_dvd rest).trans (Nat.dvd_mul_left _ _)
    · intro htwo
      refine hodd ?_
      rw [hodd_mul, ← htwo]
      exact (Nat.minFac_dvd rest).trans (Nat.dvd_mul_left _ _)
    · intro hfive
      refine hrest ?_
      rw [← hfive]
      exact Nat.minFac_dvd rest

/-! ### Scales of rational numbers -/

/-- A number is a whole multiple of a power of ten. -/
def HasScale (q : ℚ) (exponent : ℤ) : Prop :=
  ∃ k : ℤ, q = k * 10 ^ exponent

theorem hasScale_exponent (d : Decimal) : HasScale d.toRat d.exponent :=
  ⟨d.signed, rfl⟩

/-- A number that is scaled by an exponent is scaled by every lower one: zeros can be written behind
it. -/
theorem HasScale.of_le {q : ℚ} {exponent lower : ℤ} (h : HasScale q exponent)
    (hle : lower ≤ exponent) : HasScale q lower := by
  obtain ⟨k, rfl⟩ := h
  obtain ⟨n, hn⟩ := Int.eq_ofNat_of_zero_le (Int.sub_nonneg_of_le hle)
  refine ⟨k * 10 ^ n, ?_⟩
  rw [show exponent = n + lower by omega, zpow_add₀ (by norm_num), zpow_natCast]
  push_cast
  ring

/-- A denominator that divides a power of ten is exchanged for the power. -/
theorem scaled_mul_zpow {denominator places : ℕ} (h : denominator ∣ 10 ^ places)
    (numerator exponent : ℤ) :
    ((numerator * (10 ^ places / denominator : ℕ) : ℤ) : ℚ) * 10 ^ (exponent - places) =
      numerator / denominator * 10 ^ exponent := by
  have hpos : 0 < denominator := Nat.pos_of_dvd_of_pos h (by positivity)
  have hdenominator : (denominator : ℚ) ≠ 0 := by exact_mod_cast hpos.ne'
  obtain ⟨m, hm⟩ := h
  have hpower : (10 : ℚ) ^ places = denominator * m := by exact_mod_cast hm
  have hfactor : (m : ℚ) ≠ 0 := by
    intro hzero
    rw [hzero, mul_zero] at hpower
    exact absurd hpower (by positivity)
  rw [hm, Nat.mul_div_cancel_left m hpos, zpow_sub₀ (by norm_num), zpow_natCast, hpower]
  push_cast
  field_simp

/-- A number has a scale if and only if its denominator divides a power of ten. -/
theorem exists_hasScale_iff (q : ℚ) : (∃ exponent, HasScale q exponent) ↔ ∃ n, q.den ∣ 10 ^ n := by
  constructor
  · rintro ⟨exponent, h⟩
    obtain ⟨k, hk⟩ := h.of_le (min_le_left exponent 0)
    obtain ⟨n, hn⟩ := Int.eq_ofNat_of_zero_le (Int.neg_nonneg_of_nonpos (min_le_right exponent 0))
    have hquotient : q = Rat.divInt k (10 ^ n : ℕ) := by
      rw [hk, show min exponent 0 = -(n : ℤ) by omega, zpow_neg, zpow_natCast, Rat.divInt_eq_div]
      push_cast
      rfl
    refine ⟨n, ?_⟩
    rw [hquotient]
    exact_mod_cast Rat.den_dvd k (10 ^ n : ℕ)
  · rintro ⟨n, hn⟩
    refine ⟨0 - n, q.num * (10 ^ n / q.den : ℕ), ?_⟩
    rw [scaled_mul_zpow hn, Rat.num_div_den, zpow_zero, mul_one]

/-- A number has no scale at all just when a foreign prime divides its denominator. -/
theorem not_hasScale_iff (q : ℚ) :
    (∀ exponent, ¬ HasScale q exponent) ↔ HasForeignPrime q.den := by
  rw [← not_exists, exists_hasScale_iff]
  constructor
  · intro h
    have hspec := decimalPlaces?_spec q.den_pos
    split at hspec
    · rename_i places _
      exact absurd ⟨places, (hspec places).mpr le_rfl⟩ h
    · exact hspec
  · rintro h ⟨n, hn⟩
    exact not_dvd_pow_of_hasForeignPrime h n hn

/-- A fraction in lowest terms times a power of ten is a whole multiple of the lower powers that
leave room for its denominator. -/
theorem hasScale_sub_iff {numerator : ℤ} {denominator : ℕ}
    (hcoprime : Nat.Coprime numerator.natAbs denominator) (hpos : 0 < denominator) (exponent : ℤ)
    (n : ℕ) :
    HasScale (numerator / denominator * 10 ^ exponent) (exponent - n) ↔ denominator ∣ 10 ^ n := by
  constructor
  · rintro ⟨k, hk⟩
    have hdenominator : (denominator : ℚ) ≠ 0 := by exact_mod_cast hpos.ne'
    have hcross : numerator * 10 ^ n = denominator * k := by
      rw [zpow_sub₀ (by norm_num), zpow_natCast] at hk
      field_simp at hk
      exact_mod_cast hk
    have hdvd : denominator ∣ (numerator * 10 ^ n).natAbs := Int.natCast_dvd.mp ⟨k, hcross⟩
    rw [Int.natAbs_mul, Int.natAbs_pow] at hdvd
    exact hcoprime.symm.dvd_of_dvd_mul_left hdvd
  · intro h
    exact ⟨_, (scaled_mul_zpow h numerator exponent).symm⟩

/-- A decimal is a whole multiple of the higher powers of ten that divide its coefficient. -/
theorem hasScale_add_iff (d : Decimal) (n : ℕ) :
    HasScale d.toRat (d.exponent + n) ↔ 10 ^ n ∣ d.coefficient := by
  have hpower : (10 : ℚ) ^ d.exponent ≠ 0 := by positivity
  have hcross : ∀ k : ℤ, d.toRat = k * 10 ^ (d.exponent + n) ↔ d.signed = k * (10 ^ n : ℕ) := by
    intro k
    unfold toRat
    rw [zpow_add₀ (by norm_num), zpow_natCast]
    field_simp
    exact_mod_cast Iff.rfl
  have hsigned : ((10 ^ n : ℕ) : ℤ) ∣ d.signed ↔ 10 ^ n ∣ d.coefficient := by
    unfold signed
    split
    · rw [Int.dvd_neg, Int.natCast_dvd_natCast]
    · rw [Int.natCast_dvd_natCast]
  rw [← hsigned, dvd_iff_exists_eq_mul_left]
  exact exists_congr hcross

/-! ### Quotients -/

theorem signed_mul (negative : Bool) (coefficient n : ℕ) (exponent exponent' : ℤ) :
    signed ⟨negative, coefficient * n, exponent⟩ =
      signed ⟨negative, coefficient, exponent'⟩ * n := by
  unfold signed
  cases negative with
  | false => simp
  | true => simp

/-- What is left of the dividend's coefficient in the quotient, with the sign of the quotient. -/
def reducedNumerator (a b : Decimal) : ℤ :=
  signed ⟨a.negative != b.negative, a.coefficient / Nat.gcd a.coefficient b.coefficient, 0⟩

/-- What is left of the divisor's coefficient in the quotient. -/
def reducedDenominator (a b : Decimal) : ℕ :=
  b.coefficient / Nat.gcd a.coefficient b.coefficient

section Reduced

variable {a b : Decimal} (hb : b.isZero = false)

include hb

theorem gcd_pos : 0 < Nat.gcd a.coefficient b.coefficient := by
  have hcoefficient : b.coefficient ≠ 0 := by simpa [isZero] using hb
  exact Nat.gcd_pos_of_pos_right _ (Nat.pos_of_ne_zero hcoefficient)

theorem reducedDenominator_pos : 0 < reducedDenominator a b := by
  have hcoefficient : b.coefficient ≠ 0 := by simpa [isZero] using hb
  exact Nat.div_pos (Nat.gcd_le_right _ (Nat.pos_of_ne_zero hcoefficient)) (gcd_pos hb)

theorem coprime_reduced : Nat.Coprime (reducedNumerator a b).natAbs (reducedDenominator a b) := by
  have habs : (reducedNumerator a b).natAbs =
      a.coefficient / Nat.gcd a.coefficient b.coefficient := by
    unfold reducedNumerator signed
    cases a.negative != b.negative with
    | false => exact Int.natAbs_natCast _
    | true => exact (Int.natAbs_neg _).trans (Int.natAbs_natCast _)
  rw [habs]
  exact Nat.coprime_div_gcd_div_gcd (gcd_pos hb)

/-- A quotient is the reduced quotient of the coefficients, moved by the difference of the
exponents. -/
theorem toRat_div_toRat :
    a.toRat / b.toRat =
      reducedNumerator a b / reducedDenominator a b * 10 ^ (a.exponent - b.exponent) := by
  have hcommon : (Nat.gcd a.coefficient b.coefficient : ℚ) ≠ 0 := by
    exact_mod_cast (gcd_pos hb).ne'
  have hdenominator : (reducedDenominator a b : ℚ) ≠ 0 := by
    exact_mod_cast (reducedDenominator_pos hb).ne'
  have hdivisor : (b.coefficient : ℚ) =
      reducedDenominator a b * Nat.gcd a.coefficient b.coefficient := by
    exact_mod_cast (Nat.div_mul_cancel (Nat.gcd_dvd_right _ _)).symm
  unfold reducedNumerator
  -- The quotient by the divisor's coefficient would be rewritten as well if it stayed visible.
  generalize hreduced : a.coefficient / Nat.gcd a.coefficient b.coefficient = reduced
  have hdividend : (a.coefficient : ℚ) = reduced * Nat.gcd a.coefficient b.coefficient := by
    rw [← hreduced]
    exact_mod_cast (Nat.div_mul_cancel (Nat.gcd_dvd_left _ _)).symm
  rw [toRat_eq, toRat_eq, zpow_sub₀ (by norm_num)]
  unfold magnitude signed
  rw [hdividend, hdivisor]
  cases a.negative <;> cases b.negative <;> (simp; field_simp)

/-- The scales of a quotient up to the difference of the exponents. -/
theorem hasScale_quotient_iff (n : ℕ) :
    HasScale (a.toRat / b.toRat) (a.exponent - b.exponent - n) ↔
      reducedDenominator a b ∣ 10 ^ n := by
  rw [toRat_div_toRat hb]
  exact hasScale_sub_iff (coprime_reduced hb) (reducedDenominator_pos hb) _ n

end Reduced

/-- The quotient of numbers that are not zero, with a number of decimal places that its reduced
fraction needs. -/
def reducedQuotient (a b : Decimal) (places : ℕ) : Decimal where
  negative := a.negative != b.negative
  coefficient := a.coefficient / Nat.gcd a.coefficient b.coefficient *
    (10 ^ places / reducedDenominator a b)
  exponent := a.exponent - b.exponent - places

theorem toRat_reducedQuotient {a b : Decimal} (hb : b.isZero = false) {places : ℕ}
    (h : reducedDenominator a b ∣ 10 ^ places) :
    (reducedQuotient a b places).toRat = a.toRat / b.toRat := by
  rw [toRat_div_toRat hb, ← scaled_mul_zpow h]
  unfold toRat reducedQuotient
  rw [signed_mul _ _ _ _ 0]
  rfl

theorem divide_by_zero {a b : Decimal} (hb : b.isZero = true) :
    a.divide b = .error .divisionByZero := by
  unfold divide
  rw [if_pos hb]

theorem divide_zero {a b : Decimal} (ha : a.isZero = true) (hb : b.isZero = false) :
    a.divide b = .ok ⟨false, 0, min (a.exponent - b.exponent) 0⟩ := by
  unfold divide
  rw [if_neg (by simp [hb]), if_pos ha]

/-- Otherwise the denominator decides whether there is a quotient, and with how many places. -/
theorem divide_nonzero {a b : Decimal} (ha : a.isZero = false) (hb : b.isZero = false) :
    a.divide b = match decimalPlaces? (reducedDenominator a b) with
      | none => .error (.nonterminating a b)
      | some places => .ok (reducedQuotient a b places) := by
  unfold divide
  rw [if_neg (by simp [hb]), if_neg (by simp [ha])]
  rfl

theorem toRat_eq_zero_iff (d : Decimal) : d.toRat = 0 ↔ d.isZero = true := by
  constructor
  · intro h
    have hpower : (10 : ℚ) ^ d.exponent ≠ 0 := by positivity
    have hsigned : (d.signed : ℚ) = 0 := (mul_eq_zero.mp h).resolve_right hpower
    have hcoefficient : d.coefficient = 0 := by
      unfold signed at hsigned
      split at hsigned
      · simpa using hsigned
      · simpa using hsigned
    simp [isZero, hcoefficient]
  · exact toRat_of_isZero

/-! ### The largest scale -/

/-- The largest power of ten that a number is a whole multiple of; one for zero. -/
def IsLargestScale (q : ℚ) (exponent : ℤ) : Prop :=
  if q = 0 then exponent = 0 else IsGreatest {e | HasScale q e} exponent

theorem IsLargestScale.unique {q : ℚ} {e f : ℤ} (he : IsLargestScale q e)
    (hf : IsLargestScale q f) : e = f := by
  unfold IsLargestScale at he hf
  split at he
  · rename_i hzero
    rw [if_pos hzero] at hf
    rw [he, hf]
  · rename_i hzero
    rw [if_neg hzero] at hf
    exact he.unique hf

theorem IsLargestScale.hasScale {q : ℚ} {e : ℤ} (h : IsLargestScale q e) : HasScale q e := by
  unfold IsLargestScale at h
  split at h
  · rename_i hzero
    exact ⟨0, by rw [hzero, Int.cast_zero, zero_mul]⟩
  · exact h.1

/-- The largest scale up to a bound is the smaller one of the bound and of the largest scale. -/
theorem IsLargestScale.eq_min {q : ℚ} {bound e f : ℤ} (h : IsLargestScale q e) (hq : q ≠ 0)
    (hle : f ≤ bound) (hscale : HasScale q f) (hmax : ∀ g ≤ bound, HasScale q g → g ≤ f) :
    f = min bound e := by
  apply le_antisymm
  · unfold IsLargestScale at h
    rw [if_neg hq] at h
    exact le_min hle (h.2 hscale)
  · exact hmax _ (min_le_left bound e) (h.hasScale.of_le (min_le_right bound e))

/-- The number without the zeros at the end of its coefficient. -/
def normalized (d : Decimal) : Decimal :=
  if d.isZero then ⟨d.negative, 0, 0⟩
  else
    let (zeros, coefficient) := factorOut 10 d.coefficient 0
    ⟨d.negative, coefficient, d.exponent + zeros⟩

/-- A number without zeros at its end is scaled by its exponent and by no larger one. -/
theorem isLargestScale_normalized (d : Decimal) : IsLargestScale d.toRat d.normalized.exponent := by
  unfold IsLargestScale normalized
  by_cases hzero : d.isZero = true
  · rw [if_pos (toRat_of_isZero hzero), if_pos hzero]
  · rw [if_neg (mt (toRat_eq_zero_iff d).mp hzero), if_neg hzero]
    have hcoefficient : d.coefficient ≠ 0 := by simpa [isZero] using hzero
    obtain ⟨zeros, heq, hdvd, hrest⟩ :=
      factorOut_spec (p := 10) (by decide) d.coefficient 0 (Nat.pos_of_ne_zero hcoefficient)
    simp only [heq, Nat.zero_add]
    constructor
    · exact (hasScale_add_iff d zeros).mpr hdvd
    · -- At a higher exponent there would be one more zero at the end.
      intro e he
      by_contra hlt
      have hnext : HasScale d.toRat (d.exponent + (zeros + 1 : ℕ)) := he.of_le (by omega)
      have hmore := (hasScale_add_iff d (zeros + 1)).mp hnext
      rw [pow_succ] at hmore
      exact hrest (Nat.dvd_div_of_mul_dvd hmore)

/-! ### What a quotient is -/

/-- A number is the quotient of two others: equal to it in value, without a negative zero, and with
the smaller one of the difference of the exponents and of the largest scale of the value. -/
structure IsQuotient (a b r : Decimal) : Prop where
  value : r.toRat = a.toRat / b.toRat
  unsigned_zero : r.isZero = true → r.negative = false
  exponent : ∃ e, IsLargestScale (a.toRat / b.toRat) e ∧
    r.exponent = min (a.exponent - b.exponent) e

theorem IsQuotient.not_hasForeignPrime {a b r : Decimal} (h : IsQuotient a b r) :
    ¬ HasForeignPrime (a.toRat / b.toRat).den := by
  intro hforeign
  rw [← not_hasScale_iff, ← h.value] at hforeign
  exact hforeign r.exponent (hasScale_exponent r)

/-- Without negative zeros, the sign and the coefficient follow from the signed coefficient. -/
theorem eq_of_signed_eq {r r' : Decimal} (hsigned : r.signed = r'.signed)
    (hexponent : r.exponent = r'.exponent) (h : r.isZero = true → r.negative = false)
    (h' : r'.isZero = true → r'.negative = false) : r = r' := by
  obtain ⟨negative, coefficient, exponent⟩ := r
  obtain ⟨negative', coefficient', exponent'⟩ := r'
  simp only [isZero, beq_iff_eq] at h h'
  simp only [signed] at hsigned
  simp only at hexponent
  rw [Decimal.mk.injEq]
  cases negative <;> cases negative' <;> simp at h h' hsigned ⊢ <;> omega

/-- Without negative zeros, a decimal follows from its value and its exponent. -/
theorem eq_of_toRat_eq {r r' : Decimal} (hvalue : r.toRat = r'.toRat)
    (hexponent : r.exponent = r'.exponent) (h : r.isZero = true → r.negative = false)
    (h' : r'.isZero = true → r'.negative = false) : r = r' := by
  have hpower : (10 : ℚ) ^ r.exponent ≠ 0 := by positivity
  unfold toRat at hvalue
  rw [← hexponent] at hvalue
  have hsigned : r.signed = r'.signed := by exact_mod_cast mul_right_cancel₀ hpower hvalue
  exact eq_of_signed_eq hsigned hexponent h h'

/-- Two quotients of the same numbers are the same decimal. -/
theorem IsQuotient.unique {a b r r' : Decimal} (h : IsQuotient a b r) (h' : IsQuotient a b r') :
    r = r' := by
  obtain ⟨e, he, hexponent⟩ := h.exponent
  obtain ⟨e', he', hexponent'⟩ := h'.exponent
  have hsame : r.exponent = r'.exponent := by rw [hexponent, hexponent', he.unique he']
  have hvalue : r.toRat = r'.toRat := h.value.trans h'.value.symm
  exact eq_of_toRat_eq hvalue hsame h.unsigned_zero h'.unsigned_zero

/-- The least number of places gives the quotient that is specified. -/
theorem isQuotient_reducedQuotient {a b : Decimal} (ha : a.isZero = false) (hb : b.isZero = false)
    {places : ℕ} (hplaces : ∀ n, reducedDenominator a b ∣ 10 ^ n ↔ places ≤ n) :
    IsQuotient a b (reducedQuotient a b places) := by
  have henough : reducedDenominator a b ∣ 10 ^ places := (hplaces places).mpr le_rfl
  have hvalue := toRat_reducedQuotient hb henough
  have hne : a.toRat / b.toRat ≠ 0 := by
    rw [Ne, div_eq_zero_iff, toRat_eq_zero_iff, toRat_eq_zero_iff, ha, hb]
    decide
  refine ⟨hvalue, ?_, ?_⟩
  · intro hzero
    rw [← toRat_eq_zero_iff, hvalue] at hzero
    exact absurd hzero hne
  -- The result keeps the ideal exponent unless its digits need more places, and never fewer than
  -- they need: the smaller of the two is what is left to compare.
  · have hlargest := isLargestScale_normalized (reducedQuotient a b places)
    rw [hvalue] at hlargest
    refine ⟨_, hlargest, hlargest.eq_min hne ?_ ?_ ?_⟩
    · exact Int.sub_le_self _ (Int.natCast_nonneg places)
    · exact (hasScale_quotient_iff hb places).mpr henough
    · intro g hg hscale
      -- An exponent at most the ideal one counts places below it, where the hypothesis decides.
      obtain ⟨n, hn⟩ := Int.eq_ofNat_of_zero_le (Int.sub_nonneg_of_le hg)
      rw [show g = a.exponent - b.exponent - n by omega, hasScale_quotient_iff hb, hplaces]
        at hscale
      show g ≤ a.exponent - b.exponent - places
      omega

/-- A foreign prime of the reduced fraction of the coefficients is one of the quotient. -/
theorem hasForeignPrime_quotient {a b : Decimal} (hb : b.isZero = false)
    (h : HasForeignPrime (reducedDenominator a b)) :
    HasForeignPrime (a.toRat / b.toRat).den := by
  rw [← not_hasScale_iff]
  intro e he
  -- With a scale there would be one below the difference of the exponents.
  have hlower := he.of_le (min_le_right (a.exponent - b.exponent) e)
  obtain ⟨n, hn⟩ := Int.eq_ofNat_of_zero_le
    (Int.sub_nonneg_of_le (min_le_left (a.exponent - b.exponent) e))
  rw [show min (a.exponent - b.exponent) e = a.exponent - b.exponent - n by omega,
    hasScale_quotient_iff hb] at hlower
  exact not_dvd_pow_of_hasForeignPrime h n hlower

theorem isQuotient_zero {a b : Decimal} (ha : a.isZero = true) :
    IsQuotient a b ⟨false, 0, min (a.exponent - b.exponent) 0⟩ := by
  have hquotient : a.toRat / b.toRat = 0 := by rw [toRat_of_isZero ha, zero_div]
  refine ⟨?_, fun _ => rfl, 0, ?_, rfl⟩
  · rw [hquotient]
    exact toRat_of_isZero rfl
  · unfold IsLargestScale
    rw [if_pos hquotient]

/-- Division by a number that is not zero gives the quotient, unless the quotient has a foreign
prime in its denominator. -/
theorem divide_spec (a : Decimal) {b : Decimal} (hb : b.isZero = false) :
    (∃ r, a.divide b = .ok r ∧ IsQuotient a b r) ∨
      a.divide b = .error (.nonterminating a b) ∧ HasForeignPrime (a.toRat / b.toRat).den := by
  by_cases ha : a.isZero = true
  · exact Or.inl ⟨_, divide_zero ha hb, isQuotient_zero ha⟩
  rw [Bool.not_eq_true] at ha
  have hspec := decimalPlaces?_spec (reducedDenominator_pos (a := a) hb)
  rw [divide_nonzero ha hb]
  cases hplaces : decimalPlaces? (reducedDenominator a b) with
  | none =>
    rw [hplaces] at hspec
    exact Or.inr ⟨rfl, hasForeignPrime_quotient hb hspec⟩
  | some places =>
    rw [hplaces] at hspec
    exact Or.inl ⟨_, rfl, isQuotient_reducedQuotient ha hb hspec⟩

/-- Division gives what is specified as the quotient, and nothing else. -/
theorem divide_eq_ok_iff (a b r : Decimal) :
    a.divide b = .ok r ↔ b.isZero = false ∧ IsQuotient a b r := by
  by_cases hb : b.isZero = true
  · rw [divide_by_zero hb, hb]
    simp
  rw [Bool.not_eq_true] at hb
  rcases divide_spec a hb with ⟨r', heq, hr'⟩ | ⟨heq, hforeign⟩
  · rw [heq, Except.ok.injEq]
    constructor
    · rintro rfl
      exact ⟨hb, hr'⟩
    · rintro ⟨_, hr⟩
      exact hr'.unique hr
  · rw [heq]
    refine iff_of_false (by simp) ?_
    rintro ⟨_, hr⟩
    exact hr.not_hasForeignPrime hforeign

/-- There is no quotient if and only if the divisor is zero or a foreign prime is in the way. -/
theorem exists_divide_eq_error_iff (a b : Decimal) :
    (∃ fault, a.divide b = .error fault) ↔
      b.isZero = true ∨ HasForeignPrime (a.toRat / b.toRat).den := by
  by_cases hb : b.isZero = true
  · exact iff_of_true ⟨_, divide_by_zero hb⟩ (Or.inl hb)
  rw [Bool.not_eq_true] at hb
  rcases divide_spec a hb with ⟨r, heq, hr⟩ | ⟨heq, hforeign⟩
  · refine iff_of_false ?_ ?_
    · rintro ⟨fault, hfault⟩
      rw [hfault] at heq
      cases heq
    · rintro (hzero | hforeign)
      · rw [hzero] at hb
        cases hb
      · exact hr.not_hasForeignPrime hforeign
  · exact iff_of_true ⟨_, heq⟩ (Or.inr hforeign)

/-! ### Dividing the rational numbers -/

/-- The number at another exponent. Zeros are appended to its coefficient, or digits are cut off and
the rest is rounded. -/
def quantized (d : Decimal) (exponent : Int) : Decimal where
  negative := d.negative
  coefficient :=
    if exponent ≤ d.exponent then
      d.coefficient * Numeral.powerOfTen (d.exponent - exponent).toNat
    else roundedEven d.coefficient (exponent - d.exponent).toNat
  exponent := exponent

/-- A rational number as a decimal with as many places as it needs, if it has a finite expansion. -/
def ofRat? (q : ℚ) : Option Decimal :=
  (decimalPlaces? q.den).map fun places =>
    ofSigned (q.num * (Numeral.powerOfTen places / q.den : ℕ)) (-places)

/-- The quotient by way of the rational numbers: the exact one, moved to the smaller one of the
difference of the exponents and of the exponent it has without zeros at the end. -/
def divideRational (a b : Decimal) : Except ArithmeticFault Decimal :=
  if b.isZero then .error .divisionByZero
  else match ofRat? (a.toRat / b.toRat) with
    | none => .error (.nonterminating a b)
    | some exact =>
      .ok (exact.quantized (min (a.exponent - b.exponent) exact.normalized.exponent))

/-- Zeros that are cut off leave nothing to round. -/
theorem roundedEven_mul_pow (coefficient places : ℕ) :
    roundedEven (coefficient * 10 ^ places) places = coefficient := by
  have hshift : Numeral.shiftDown (coefficient * 10 ^ places) places = (coefficient, 0) := by
    rw [Numeral.shiftDown_eq, Nat.mul_div_cancel _ (by positivity), Nat.mul_mod_left]
  have hcompare : compare (2 * 0) (Numeral.powerOfTen places) = .lt :=
    Nat.compare_eq_lt.mpr (show 0 < 10 ^ places by positivity)
  unfold roundedEven
  simp only [hshift, hcompare, ite_self]

/-- Zeros at the end of the coefficient are worth as much in the exponent. -/
theorem toRat_mul_pow (negative : Bool) (coefficient n : ℕ) (exponent : ℤ) :
    toRat ⟨negative, coefficient * 10 ^ n, exponent⟩ =
      toRat ⟨negative, coefficient, exponent + n⟩ := by
  unfold toRat
  rw [signed_mul _ _ _ _ (exponent + n), zpow_add₀ (by norm_num), zpow_natCast]
  push_cast
  ring

/-- Moving a number to one of its scales rounds nothing. -/
theorem toRat_quantized {d : Decimal} {exponent : ℤ} (h : HasScale d.toRat exponent) :
    (d.quantized exponent).toRat = d.toRat := by
  unfold quantized
  by_cases hle : exponent ≤ d.exponent
  · obtain ⟨n, hn⟩ := Int.eq_ofNat_of_zero_le (Int.sub_nonneg_of_le hle)
    rw [if_pos hle, hn, Int.toNat_natCast]
    refine (toRat_mul_pow _ _ n exponent).trans ?_
    rw [show exponent + n = d.exponent by omega]
  · obtain ⟨n, hn⟩ := Int.eq_ofNat_of_zero_le (Int.sub_nonneg_of_le (not_le.mp hle).le)
    obtain rfl : exponent = d.exponent + n := by omega
    obtain ⟨rest, hrest⟩ := (hasScale_add_iff d n).mp h
    have hcoefficient : d.coefficient = rest * 10 ^ n := by rw [hrest, Nat.mul_comm]
    rw [if_neg hle, hn, Int.toNat_natCast, hcoefficient, roundedEven_mul_pow, ← toRat_mul_pow,
      ← hcoefficient]

/-- Of a rational number the decimal is found at its largest scale, if it has one. -/
theorem ofRat?_spec (q : ℚ) :
    match ofRat? q with
    | some exact => exact.toRat = q ∧ (exact.isZero = true → exact.negative = false)
    | none => HasForeignPrime q.den := by
  have hspec := decimalPlaces?_spec q.den_pos
  unfold ofRat?
  cases hplaces : decimalPlaces? q.den with
  | none =>
    rw [hplaces] at hspec
    exact hspec
  | some places =>
    rw [hplaces] at hspec
    constructor
    · rw [toRat_ofSigned, ← zero_sub]
      show ((q.num * (10 ^ places / q.den : ℕ) : ℤ) : ℚ) * 10 ^ (0 - (places : ℤ)) = q
      rw [scaled_mul_zpow ((hspec places).mpr le_rfl), Rat.num_div_den, zpow_zero, mul_one]
    · intro hzero
      simp only [ofSigned, isZero, beq_iff_eq, Int.natAbs_eq_zero] at hzero
      simp only [ofSigned, hzero]
      rfl

/-- **Division is division of the rational numbers**, by way of the exact quotient and of a scale
that it is not rounded to. -/
theorem divide_eq_divideRational (a b : Decimal) : a.divide b = a.divideRational b := by
  unfold divideRational
  by_cases hb : b.isZero = true
  · rw [if_pos hb, divide_by_zero hb]
  rw [if_neg hb]
  rw [Bool.not_eq_true] at hb
  have hspec := ofRat?_spec (a.toRat / b.toRat)
  cases hexact : ofRat? (a.toRat / b.toRat) with
  | none =>
    rw [hexact] at hspec
    -- A value without a finite expansion has a foreign prime in its denominator, which an exact
    -- quotient cannot have.
    rcases divide_spec a hb with ⟨r, _, hr⟩ | ⟨heq, _⟩
    · exact absurd hspec hr.not_hasForeignPrime
    · exact heq
  | some exact =>
    rw [hexact] at hspec
    obtain ⟨hvalue, hunsigned⟩ := hspec
    refine (divide_eq_ok_iff a b _).mpr ⟨hb, ?_⟩
    have hlargest := isLargestScale_normalized exact
    have hsame := toRat_quantized (hlargest.hasScale.of_le
      (min_le_right (a.exponent - b.exponent) exact.normalized.exponent))
    refine ⟨hsame.trans hvalue, ?_, exact.normalized.exponent, ?_, rfl⟩
    · intro hzero
      rw [← toRat_eq_zero_iff, hsame, toRat_eq_zero_iff] at hzero
      exact hunsigned hzero
    · rw [← hvalue]
      exact hlargest

/-- The exact quotient that a quotient is moved from has the same value. -/
theorem IsQuotient.exists_exact {a b r : Decimal} (hb : b.isZero = false) (h : IsQuotient a b r) :
    ∃ exact, ofRat? (a.toRat / b.toRat) = some exact ∧ r = exact.quantized r.exponent ∧
      r.toRat = exact.toRat := by
  have hdivide := (divide_eq_ok_iff a b r).mpr ⟨hb, h⟩
  rw [divide_eq_divideRational, divideRational, if_neg (by simp [hb])] at hdivide
  have hspec := ofRat?_spec (a.toRat / b.toRat)
  cases hexact : ofRat? (a.toRat / b.toRat) with
  | none =>
    rw [hexact] at hdivide
    cases hdivide
  | some exact =>
    rw [hexact] at hdivide hspec
    cases hdivide
    exact ⟨exact, rfl, rfl, h.value.trans hspec.1.symm⟩

/-- **Division is exact, complete and minimally scaled.** There is no quotient if and only if the
divisor is zero or the reduced denominator has a prime factor other than two and five. A quotient
has the exact value and no negative zero, its exponent is the smaller one of the difference of the
exponents and of the largest scale, and moving the exact quotient there rounds nothing. -/
theorem divide_exact_complete_minimal (a b : Decimal) :
    ((∃ fault, a.divide b = .error fault) ↔
      b.toRat = 0 ∨ ∃ p, p.Prime ∧ p ∣ (a.toRat / b.toRat).den ∧ p ≠ 2 ∧ p ≠ 5) ∧
    a.divide b = a.divideRational b ∧
    ∀ r, a.divide b = .ok r →
      r.toRat = a.toRat / b.toRat ∧ ¬ (r.isZero = true ∧ r.negative = true) ∧
      (∃ e, (if a.toRat = 0 then e = 0
          else IsGreatest {e : ℤ | ∃ k : ℤ, a.toRat / b.toRat = k * 10 ^ e} e) ∧
        r.exponent = min (a.exponent - b.exponent) e) ∧
      ∃ exact, ofRat? (a.toRat / b.toRat) = some exact ∧ r = exact.quantized r.exponent ∧
        r.toRat = exact.toRat := by
  refine ⟨?_, divide_eq_divideRational a b, ?_⟩
  · rw [toRat_eq_zero_iff]
    exact exists_divide_eq_error_iff a b
  · intro r hr
    obtain ⟨hb, hquotient⟩ := (divide_eq_ok_iff a b r).mp hr
    refine ⟨hquotient.value, ?_, ?_, hquotient.exists_exact hb⟩
    · rintro ⟨hzero, hnegative⟩
      rw [hquotient.unsigned_zero hzero] at hnegative
      cases hnegative
    · obtain ⟨e, he, hexponent⟩ := hquotient.exponent
      refine ⟨e, ?_, hexponent⟩
      have hdivisor : b.toRat ≠ 0 := by
        rw [Ne, toRat_eq_zero_iff, hb]
        decide
      unfold IsLargestScale at he
      -- `IsLargestScale` branches on the quotient and the statement on the dividend; as the divisor
      -- is not zero these are the same branch.
      by_cases hdividend : a.toRat = 0
      · rw [if_pos hdividend]
        rwa [if_pos (by rw [hdividend, zero_div])] at he
      · rw [if_neg hdividend]
        rwa [if_neg (div_ne_zero hdividend hdivisor)] at he

/-- A thousand is moved up to the exponent that it was read with, and keeps its value. -/
theorem divide_exact_complete_minimal_thousand :
    (⟨false, 1, 3⟩ : Decimal).divide ⟨false, 1, 0⟩ = .ok ⟨false, 1, 3⟩ ∧
    toRat ⟨false, 1, 3⟩ = toRat ⟨false, 1, 3⟩ / toRat ⟨false, 1, 0⟩ := by
  have hdivide : (⟨false, 1, 3⟩ : Decimal).divide ⟨false, 1, 0⟩ = .ok ⟨false, 1, 3⟩ := by
    decide +kernel
  exact ⟨hdivide, ((divide_exact_complete_minimal ⟨false, 1, 3⟩ ⟨false, 1, 0⟩).2.2 _ hdivide).1⟩

end DecimalScript.Decimal
