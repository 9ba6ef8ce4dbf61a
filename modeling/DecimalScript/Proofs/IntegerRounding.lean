import DecimalScript.Builtin.Registry
import DecimalScript.Machine.Session
import DecimalScript.Proofs.ExactArithmetic
import DecimalScript.Proofs.LiteralEvaluation
import Mathlib.Data.Rat.Floor

/-!
# Rounding to integers is exact

Rounding works on sign and magnitude: on the negative side the magnitude is rounded in the opposite
direction. So each direction is related once to the integer next to a quotient of natural numbers,
and once to its opposite under a change of sign. A result is then known by its value and its
exponent, and everything else that is said of rounding follows from the integers.

- `Decimal.Rounding.integer`: the integer that a rational number is rounded to.
- `Decimal.isResult_round`: rounding gives this integer, at the exponent it should have.
- `rounding_is_exact`: what this means for the functions of a script.
-/

namespace DecimalScript.Decimal

/-! ### Integers next to rational numbers -/

namespace Rounding

/-- The direction on the other side of zero. -/
def opposite : Rounding → Rounding
  | floor => ceiling
  | ceiling => floor
  | halfAway => halfAway

/-- The integer that a rational number is rounded to. -/
def integer : Rounding → ℚ → ℤ
  | floor, q => ⌊q⌋
  | ceiling, q => ⌈q⌉
  | halfAway, q => if 0 ≤ q then ⌊q + 1 / 2⌋ else ⌈q - 1 / 2⌉

/-- Rounding a negative is rounding the number in the other direction; rounding to the nearest is
its own opposite. -/
theorem integer_neg (mode : Rounding) (q : ℚ) : mode.integer (-q) = -mode.opposite.integer q := by
  cases mode with
  | floor => exact Int.floor_neg
  | ceiling => exact Int.ceil_neg
  | halfAway =>
    -- On each side of zero half a unit is added away from it.
    show (if 0 ≤ -q then ⌊-q + 1 / 2⌋ else ⌈-q - 1 / 2⌉) = -(if 0 ≤ q then _ else _)
    rcases lt_trichotomy q 0 with hneg | rfl | hpos
    · rw [if_pos (by linarith), if_neg (by linarith), ← Int.floor_neg]
      congr 1
      ring
    · norm_num
    · rw [if_neg (by linarith), if_pos hpos.le, ← Int.ceil_neg]
      congr 1
      ring

/-- An integer is not changed. -/
theorem integer_intCast (mode : Rounding) (n : ℤ) : mode.integer n = n := by
  cases mode with
  | floor => exact Int.floor_intCast n
  | ceiling => exact Int.ceil_intCast n
  | halfAway =>
    show (if 0 ≤ (n : ℚ) then ⌊(n : ℚ) + 1 / 2⌋ else ⌈(n : ℚ) - 1 / 2⌉) = n
    split
    · rw [Int.floor_eq_iff]
      constructor <;> linarith
    · rw [Int.ceil_eq_iff]
      constructor <;> linarith

end Rounding

/-- An integer is nearest to a number, and of two nearest ones it is the one away from zero. -/
def IsNearestAway (q : ℚ) (n : ℤ) : Prop :=
  ∀ k : ℤ, |q - n| ≤ |q - k| ∧ (|q - k| = |q - n| → |k| ≤ |n|)

theorem IsNearestAway.neg {q : ℚ} {n : ℤ} (h : IsNearestAway q n) : IsNearestAway (-q) (-n) := by
  intro k
  obtain ⟨hnear, haway⟩ := h (-k)
  have hn : |-q - ((-n : ℤ) : ℚ)| = |q - n| := by
    rw [← abs_neg]
    push_cast
    ring_nf
  have hk : |-q - k| = |q - ((-k : ℤ) : ℚ)| := by
    rw [← abs_neg]
    push_cast
    ring_nf
  rw [abs_neg] at haway ⊢
  rw [hn, hk]
  exact ⟨hnear, haway⟩

/-- From zero on, the nearest integer is found by adding one half, and ties go up. -/
theorem isNearestAway_of_nonneg {q : ℚ} (hq : 0 ≤ q) : IsNearestAway q ⌊q + 1 / 2⌋ := by
  obtain ⟨hlow, hhigh⟩ := Int.floor_eq_iff.mp (rfl : ⌊q + 1 / 2⌋ = ⌊q + 1 / 2⌋)
  have hn : (0 : ℤ) ≤ ⌊q + 1 / 2⌋ := Int.floor_nonneg.mpr (by linarith)
  generalize ⌊q + 1 / 2⌋ = n at hlow hhigh hn
  have hdistance : |q - n| ≤ 1 / 2 := abs_le.mpr ⟨by linarith, by linarith⟩
  intro k
  rcases lt_trichotomy k n with hbelow | rfl | habove
  · -- Below, only the integer before can be as near, and it is no negative one.
    have hbelow : (k : ℚ) + 1 ≤ n := by exact_mod_cast hbelow
    have hk : |q - k| = q - k := abs_of_nonneg (by linarith)
    rw [hk]
    refine ⟨by linarith, fun hsame => ?_⟩
    have hlower : (-1 : ℚ) < k := by linarith
    have hlower : -1 < k := by exact_mod_cast hlower
    have hupper : k < n := by exact_mod_cast (by linarith : (k : ℚ) < n)
    rw [abs_of_nonneg hn, abs_of_nonneg (by omega)]
    exact hupper.le
  · exact ⟨le_rfl, fun _ => le_rfl⟩
  · have habove : (n : ℚ) + 1 ≤ k := by exact_mod_cast habove
    have hk : |q - k| = k - q := by
      rw [abs_sub_comm]
      exact abs_of_nonneg (by linarith)
    rw [hk]
    exact ⟨by linarith, fun hsame => by linarith⟩

/-- **Rounding from halfway away from zero gives the nearest integer.** -/
theorem isNearestAway_integer (q : ℚ) : IsNearestAway q (Rounding.halfAway.integer q) := by
  by_cases hq : 0 ≤ q
  · show IsNearestAway q (if 0 ≤ q then _ else _)
    rw [if_pos hq]
    exact isNearestAway_of_nonneg hq
  · have hopposite : Rounding.halfAway.integer q = -⌊-q + 1 / 2⌋ := by
      have hneg := Rounding.halfAway.integer_neg (-q)
      rw [neg_neg] at hneg
      rw [hneg]
      exact congrArg (-·) (if_pos (by linarith))
    have hnearest := (isNearestAway_of_nonneg (q := -q) (by linarith)).neg
    rw [neg_neg] at hnearest
    rwa [hopposite]

/-! ### Magnitudes -/

/-- How a magnitude with some decimal places is rounded. -/
def Rounding.magnitude : Rounding → Nat → Nat → Nat
  | floor => cutMagnitude
  | ceiling => raisedMagnitude
  | halfAway => nearestMagnitude

theorem cutMagnitude_eq (c p : Nat) : cutMagnitude c p = c / 10 ^ p := by
  unfold cutMagnitude
  rw [Numeral.shiftDown_eq]

/-- Digits that are cut off raise the last one left, unless all of them are zero. -/
theorem raisedMagnitude_eq (c p : Nat) :
    raisedMagnitude c p = if c % 10 ^ p = 0 then c / 10 ^ p else c / 10 ^ p + 1 := by
  unfold raisedMagnitude
  rw [Numeral.shiftDown_eq]

/-- One place that is kept and half a unit of it are half a unit of all places. -/
theorem nearestMagnitude_eq (c : Nat) {p : Nat} (hp : p ≠ 0) :
    nearestMagnitude c p = (c + 5 * 10 ^ (p - 1)) / 10 ^ p := by
  have hpower : 10 ^ p = 10 ^ (p - 1) * 10 := by
    rw [← pow_succ, Nat.sub_add_cancel (Nat.pos_of_ne_zero hp)]
  unfold nearestMagnitude
  rw [cutMagnitude_eq, hpower, ← Nat.div_div_eq_div_mul,
    Nat.add_mul_div_right _ _ (by positivity : 0 < 10 ^ (p - 1))]

/-- Magnitudes are rounded as the numbers they stand for. -/
theorem Rounding.integer_div (mode : Rounding) (c : Nat) {p : Nat} (hp : p ≠ 0) :
    mode.integer ((c : ℚ) / 10 ^ p) = mode.magnitude c p := by
  have hunit : (0 : ℚ) < 10 ^ p := by positivity
  cases mode with
  | floor =>
    show ⌊(c : ℚ) / 10 ^ p⌋ = (cutMagnitude c p : ℤ)
    rw [cutMagnitude_eq]
    exact_mod_cast Rat.floor_natCast_div_natCast c (10 ^ p)
  | ceiling =>
    show ⌈(c : ℚ) / 10 ^ p⌉ = (raisedMagnitude c p : ℤ)
    have hparts := Nat.div_add_mod c (10 ^ p)
    have hrest : c % 10 ^ p < 10 ^ p := Nat.mod_lt c (by positivity)
    rw [raisedMagnitude_eq, Int.ceil_eq_iff, lt_div_iff₀ hunit, div_le_iff₀ hunit]
    generalize c / 10 ^ p = whole at hparts ⊢
    generalize c % 10 ^ p = rest at hparts hrest ⊢
    have hparts : (c : ℚ) = 10 ^ p * whole + rest := by exact_mod_cast hparts.symm
    have hrest : (rest : ℚ) < 10 ^ p := by exact_mod_cast hrest
    rw [hparts]
    by_cases hzero : rest = 0
    · rw [if_pos hzero, hzero]
      push_cast
      constructor <;> linarith
    · have hpos : (0 : ℚ) < rest := by exact_mod_cast Nat.pos_of_ne_zero hzero
      rw [if_neg hzero]
      push_cast
      constructor <;> linarith
  | halfAway =>
    show (if 0 ≤ (c : ℚ) / 10 ^ p then ⌊(c : ℚ) / 10 ^ p + 1 / 2⌋ else _) = (nearestMagnitude c p : ℤ)
    have hhalf : (c : ℚ) / 10 ^ p + 1 / 2 = ((c + 5 * 10 ^ (p - 1) : ℕ) : ℚ) / (10 ^ p : ℕ) := by
      obtain ⟨k, rfl⟩ := Nat.exists_eq_add_one_of_ne_zero hp
      rw [Nat.add_sub_cancel, pow_succ, pow_succ]
      push_cast
      field_simp
      ring
    -- Half a unit more, and then the quotient is cut.
    rw [if_pos (by positivity), hhalf, Rat.floor_natCast_div_natCast, nearestMagnitude_eq c hp]
    norm_cast

/-! ### Results -/

/-- In front of the point the opposite direction is taken for negative numbers. -/
theorem round_of_neg_exponent {d : Decimal} (h : d.exponent < 0) (mode : Rounding) :
    d.round mode = withoutZeroSign ⟨d.negative,
      (if d.negative then mode.opposite else mode).magnitude d.coefficient (-d.exponent).toNat, 0⟩ := by
  obtain ⟨negative, coefficient, exponent⟩ := d
  unfold round
  rw [if_neg (not_le.mpr h)]
  cases mode <;> cases negative <;> rfl

theorem magnitude_of_neg_exponent {d : Decimal} (h : d.exponent < 0) :
    d.magnitude = (d.coefficient : ℚ) / 10 ^ (-d.exponent).toNat := by
  obtain ⟨n, hn⟩ := Int.eq_ofNat_of_zero_le (Int.neg_nonneg_of_nonpos h.le)
  have hexponent : d.exponent = -(n : ℤ) := by omega
  unfold magnitude
  rw [hn, hexponent, zpow_neg, zpow_natCast, Int.toNat_natCast, div_eq_mul_inv]

/-- Without decimal places a number is an integer. -/
theorem exists_int_of_nonneg_exponent {d : Decimal} (h : 0 ≤ d.exponent) :
    ∃ n : ℤ, d.toRat = n := by
  obtain ⟨n, hn⟩ := Int.eq_ofNat_of_zero_le h
  refine ⟨d.signed * 10 ^ n, ?_⟩
  unfold toRat
  rw [hn, zpow_natCast]
  push_cast
  rfl

/-- **Rounding gives the integer next to the exact value.** -/
theorem isResult_round (x : Decimal) (mode : Rounding) :
    (x.round mode).IsResult (mode.integer x.toRat) (max x.exponent 0) := by
  by_cases hexponent : 0 ≤ x.exponent
  · obtain ⟨n, hn⟩ := exists_int_of_nonneg_exponent hexponent
    have hresult := x.isResult_withoutZeroSign
    unfold round
    rw [if_pos hexponent, max_eq_left hexponent, hn, mode.integer_intCast, ← hn]
    exact hresult
  · rw [not_le] at hexponent
    have hplaces : (-x.exponent).toNat ≠ 0 := by omega
    have hmagnitude := magnitude_of_neg_exponent hexponent
    -- The sign is kept, and the magnitude is a quotient of natural numbers.
    have hvalue : toRat ⟨x.negative, (if x.negative then mode.opposite else mode).magnitude
        x.coefficient (-x.exponent).toNat, 0⟩ = mode.integer x.toRat := by
      rw [toRat_eq, toRat_eq, hmagnitude]
      unfold magnitude
      rw [zpow_zero, mul_one]
      cases x.negative with
      | false =>
        rw [if_neg Bool.false_ne_true, if_neg Bool.false_ne_true, if_neg Bool.false_ne_true,
          mode.integer_div _ hplaces]
        rfl
      | true =>
        rw [if_pos rfl, if_pos rfl, if_pos rfl, mode.integer_neg, mode.opposite.integer_div _ hplaces]
        push_cast
        rfl
    rw [round_of_neg_exponent hexponent, max_eq_right hexponent.le, ← hvalue]
    exact isResult_withoutZeroSign _

/-- What has no sign as a zero is its own result. -/
theorem IsResult.withoutZeroSign_eq {r : Decimal} {value : ℚ} {exponent : ℤ}
    (h : r.IsResult value exponent) : r.withoutZeroSign = r :=
  IsResult.unique r.isResult_withoutZeroSign ⟨rfl, rfl, h.unsigned_zero⟩

theorem IsResult.negate {r : Decimal} {value : ℚ} {exponent : ℤ} (h : r.IsResult value exponent) :
    r.negate.IsResult (-value) exponent := by
  rw [← h.value, ← h.exponent]
  exact r.isResult_negate

/-- Rounding twice is rounding once. -/
theorem round_round (x : Decimal) (mode : Rounding) : (x.round mode).round mode = x.round mode := by
  have honce := x.isResult_round mode
  have htwice := (x.round mode).isResult_round mode
  rw [honce.value, honce.exponent, mode.integer_intCast, max_eq_left (le_max_right _ _)] at htwice
  exact htwice.unique honce

/-- On the other side of zero, rounding goes in the opposite direction. -/
theorem round_negate (x : Decimal) (mode : Rounding) :
    x.negate.round mode = (x.round mode.opposite).negate := by
  have hleft := x.negate.isResult_round mode
  rw [x.isResult_negate.value, x.isResult_negate.exponent, mode.integer_neg, Int.cast_neg] at hleft
  exact hleft.unique (x.isResult_round mode.opposite).negate

/-- Rounding up is rounding down the negative, and the other way around. -/
theorem negate_round_negate (x : Decimal) (mode : Rounding) :
    (x.negate.round mode).negate = x.round mode.opposite := by
  have hback := (x.isResult_round mode.opposite).negate.negate
  rw [neg_neg] at hback
  rw [round_negate]
  exact hback.unique (x.isResult_round mode.opposite)

/-- An integer is not changed in value by rounding, whatever its scale. -/
theorem toRat_round_of_int {x : Decimal} {n : ℤ} (h : x.toRat = n) (mode : Rounding) :
    (x.round mode).toRat = x.toRat := by
  rw [(x.isResult_round mode).value, h, mode.integer_intCast]

/-- Without decimal places there is no point in plain notation. -/
theorem point_not_mem_plain {d : Decimal} (h : 0 ≤ d.exponent) : '.' ∉ d.plain.toList := by
  unfold plain
  rw [String.toList_ofList, plainChars_of_nonneg h]
  intro hpoint
  rcases List.mem_append.mp hpoint with hsign | hdigit
  · unfold signText at hsign
    split at hsign
    · exact absurd (List.mem_singleton.mp hsign) (by decide)
    · cases hsign
  · exact PointedDigits.point_not_mem (fun d hd => Numeral.digits_lt hd) hdigit

end DecimalScript.Decimal

namespace DecimalScript

/-! ### The functions -/

/-- The function of a script that rounds in a direction. -/
def Decimal.Rounding.function : Decimal.Rounding → String
  | floor => "floor"
  | ceiling => "ceil"
  | halfAway => "round"

theorem callBuiltin_round (maxDigits : Nat) (mode : Decimal.Rounding) (x : Decimal) (m : Machine) :
    Session.callBuiltin maxDigits .standard mode.function [.number x] m =
      .done (some (.number (x.round mode))) m := by
  have hgiven : Session.callBuiltin maxDigits .standard mode.function [.number x] m =
      .done (some (.ofDecimal (x.round mode))) m := by
    cases mode <;> rfl
  rw [hgiven, Value.ofDecimal, (x.isResult_round mode).withoutZeroSign_eq]

theorem callBuiltin_abs (maxDigits : Nat) (x : Decimal) (m : Machine) :
    Session.callBuiltin maxDigits .standard "abs" [.number x] m =
      .done (some (.number x.abs)) m := by
  show Outcome.done (some (Value.number x.abs.withoutZeroSign)) m = _
  rw [Decimal.withoutZeroSign_of_not_negative rfl]

/-- **Rounding is exact at any precision.** `floor` gives the greatest integer that is not above a
number, `ceil` the least one that is not below it, and `round` the nearest one, and of two nearest
ones the one away from zero; `abs` gives the absolute value. An integer is not changed in value, and
rounding twice is rounding once. Rounding the opposite is the opposite of rounding in the opposite
direction. What is rounded shows no point, and no result is a negative zero. The machine stays as it
is. -/
theorem rounding_is_exact (maxDigits : Nat) (m : Machine) (x : Decimal) :
    (∀ mode : Decimal.Rounding,
      Session.callBuiltin maxDigits .standard mode.function [.number x] m =
        .done (some (.number (x.round mode))) m) ∧
    Session.callBuiltin maxDigits .standard "abs" [.number x] m = .done (some (.number x.abs)) m ∧
    (∃ n : ℤ, (x.round .floor).toRat = n ∧ n ≤ x.toRat ∧ ∀ k : ℤ, k ≤ x.toRat → k ≤ n) ∧
    (∃ n : ℤ, (x.round .ceiling).toRat = n ∧ x.toRat ≤ n ∧ ∀ k : ℤ, x.toRat ≤ k → n ≤ k) ∧
    (∃ n : ℤ, (x.round .halfAway).toRat = n ∧ Decimal.IsNearestAway x.toRat n) ∧
    x.abs.toRat = |x.toRat| ∧
    (∀ mode, (∃ n : ℤ, x.toRat = n) → (x.round mode).toRat = x.toRat) ∧
    (∀ mode, (x.round mode).round mode = x.round mode) ∧
    x.round .ceiling = (x.negate.round .floor).negate ∧
    x.negate.round .halfAway = (x.round .halfAway).negate ∧
    (∀ mode, '.' ∉ (m.heap.display (.number (x.round mode))).toList) ∧
    (∀ mode, (x.round mode).isZero = true → (x.round mode).negative = false) ∧
    x.abs.negative = false := by
  -- All three modes are one function of the exact value, so each part is read off the integer its
  -- mode gives.
  have hvalue : ∀ mode : Decimal.Rounding, (x.round mode).toRat = mode.integer x.toRat :=
    fun mode => (x.isResult_round mode).value
  refine ⟨fun mode => callBuiltin_round maxDigits mode x m, callBuiltin_abs maxDigits x m, ?_, ?_,
    ?_, x.toRat_abs, ?_, x.round_round, (x.negate_round_negate .floor).symm,
    x.round_negate .halfAway, ?_, fun mode => (x.isResult_round mode).unsigned_zero, rfl⟩
  · exact ⟨⌊x.toRat⌋, hvalue .floor, Int.floor_le _, fun k => Int.le_floor.mpr⟩
  · exact ⟨⌈x.toRat⌉, hvalue .ceiling, Int.le_ceil _, fun k => Int.ceil_le.mpr⟩
  · exact ⟨_, hvalue .halfAway, Decimal.isNearestAway_integer _⟩
  · rintro mode ⟨n, hn⟩
    exact Decimal.toRat_round_of_int hn mode
  · intro mode
    refine Decimal.point_not_mem_plain ?_
    rw [(x.isResult_round mode).exponent]
    exact le_max_right _ _

/-- A number with 36 digits halfway between two integers, an integer with a positive exponent, and a
negative number that is raised to zero. -/
theorem rounding_is_exact_at_halfway :
    let x : Decimal := ⟨true, 123456789012345678901234567890123455, -1⟩
    let y : Decimal := ⟨false, 5, 3⟩
    let z : Decimal := ⟨true, 4, -1⟩
    x.round .halfAway = ⟨true, 12345678901234567890123456789012346, 0⟩ ∧
      Decimal.IsNearestAway x.toRat (-12345678901234567890123456789012346) ∧
      (∀ mode, (y.round mode).toRat = 5000) ∧
      (z.round .ceiling).isZero = true ∧ (z.round .ceiling).negative = false := by
  intro x y z
  have hround : x.round .halfAway = ⟨true, 12345678901234567890123456789012346, 0⟩ := by decide
  have hy : y.toRat = 5000 := by norm_num [y, Decimal.toRat, Decimal.signed]
  have hz : (z.round .ceiling).isZero = true := by decide
  obtain ⟨-, -, -, -, ⟨n, hn, hnearest⟩, -⟩ := rounding_is_exact 9 (.empty {}) x
  obtain ⟨-, -, -, -, -, -, hinteger, -⟩ := rounding_is_exact 9 (.empty {}) y
  obtain ⟨-, -, -, -, -, -, -, -, -, -, -, hzero, -⟩ := rounding_is_exact 9 (.empty {}) z
  refine ⟨hround, ?_, ?_, hz, hzero .ceiling hz⟩
  · have hvalue : (n : ℚ) = -12345678901234567890123456789012346 := by
      rw [← hn, hround]
      norm_num [Decimal.toRat, Decimal.signed]
    obtain rfl : n = -12345678901234567890123456789012346 := by exact_mod_cast hvalue
    exact hnearest
  · intro mode
    rw [hinteger mode ⟨5000, by exact_mod_cast hy⟩, hy]

end DecimalScript
