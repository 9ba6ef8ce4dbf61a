import DecimalScript.Decimal.Numeral
import Mathlib.Data.Nat.Digits.Lemmas
import Mathlib.Tactic.Positivity

/-!
# The digits of a number

`Numeral.digits` cuts a number in the middle until single digits are left. What comes out are the
digits that division by ten gives one after the other, so that the number of digits is known from
the powers of ten that the number lies between. -/

namespace DecimalScript.Numeral

/-- The number that digits stand for, with the least significant digit first. -/
theorem value_eq_ofDigits (base : Nat) (ds : List Nat) :
    value base ds = Nat.ofDigits base ds.reverse := by
  rw [Nat.ofDigits_eq_foldr, List.foldr_reverse]
  unfold value
  congr
  funext n d
  exact Nat.add_comm _ _

/-! ### The last digits -/

theorem lastDigits_lt : ∀ level n later, (∀ d ∈ later, d < 10) →
    ∀ d ∈ lastDigits level n later, d < 10
  | 0, n, later, h => List.forall_mem_cons.mpr ⟨Nat.mod_lt n (by decide), h⟩
  | level + 1, _, later, h => lastDigits_lt level _ _ (lastDigits_lt level _ later h)

/-- Reading on from what was read before: the last digits stand for what is left of the number. -/
theorem foldl_lastDigits : ∀ level n later start,
    (lastDigits level n later).foldl (fun n d => 10 * n + d) start =
      later.foldl (fun n d => 10 * n + d) (start * 10 ^ 2 ^ level + n % 10 ^ 2 ^ level)
  | 0, n, later, start => by
    show later.foldl _ (10 * start + n % 10) = _
    rw [pow_zero, pow_one, Nat.mul_comm]
  | level + 1, n, later, start => by
    show (lastDigits level (n / 10 ^ 2 ^ level) (lastDigits level (n % 10 ^ 2 ^ level) later)).foldl
      _ start = _
    -- First the upper half is read, then the lower half, each of `2 ^ level` digits.
    rw [foldl_lastDigits, foldl_lastDigits]
    congr 1
    have hsquare : 10 ^ 2 ^ (level + 1) = 10 ^ 2 ^ level * 10 ^ 2 ^ level := by
      rw [pow_succ, pow_mul, pow_two]
    rw [hsquare, Nat.mod_mul, Nat.mod_mod]
    ring

/-- Twice as many digits are found at every level. -/
theorem value_lastDigits (level n : Nat) :
    value 10 (lastDigits level n []) = n % 10 ^ 2 ^ level := by
  unfold value
  rw [foldl_lastDigits, Nat.zero_mul, Nat.zero_add]
  rfl

/-- There is room for all digits. -/
theorem lt_pow_sufficientLevel (n : Nat) : n < 10 ^ 2 ^ sufficientLevel n := by
  let thirds := n.log2 / 3
  have hroom : thirds + 1 ≤ 2 ^ sufficientLevel n := by
    show thirds < 2 ^ (thirds.log2 + 1)
    exact Nat.lt_log2_self
  -- Three binary digits are worth less than a decimal one.
  calc n < 2 ^ (n.log2 + 1) := Nat.lt_log2_self
    _ ≤ 2 ^ (3 * (thirds + 1)) := Nat.pow_le_pow_right (by decide) (by omega)
    _ = (2 ^ 3) ^ (thirds + 1) := pow_mul 2 3 (thirds + 1)
    _ ≤ 10 ^ (thirds + 1) := Nat.pow_le_pow_left (by decide) _
    _ ≤ 10 ^ 2 ^ sufficientLevel n := Nat.pow_le_pow_right (by decide) hroom

/-! ### All digits -/

theorem value_dropWhile (ds : List Nat) : value 10 (ds.dropWhile (· == 0)) = value 10 ds := by
  induction ds with
  | nil => rfl
  | cons d ds ih =>
    by_cases hd : d = 0
    · subst hd
      exact ih
    · rw [List.dropWhile_cons_of_neg (by simpa using hd)]

/-- The digits of a positive number are those that division by ten gives. -/
theorem reverse_digits {n : Nat} (hn : n ≠ 0) : (digits n).reverse = Nat.digits 10 n := by
  let kept := (lastDigits (sufficientLevel n) n []).dropWhile (· == 0)
  have hvalue : Nat.ofDigits 10 kept.reverse = n := by
    rw [← value_eq_ofDigits, value_dropWhile, value_lastDigits]
    exact Nat.mod_eq_of_lt (lt_pow_sufficientLevel n)
  have hsmall : ∀ d ∈ kept.reverse, d < 10 := fun d hd =>
    lastDigits_lt _ n [] (fun _ h => (List.not_mem_nil h).elim) d
      ((List.dropWhile_suffix _).subset (List.mem_reverse.mp hd))
  -- Only for zero would nothing be left behind the leading zeros.
  have hdigits : digits n = kept := by
    unfold digits
    split
    · rename_i hnil
      have hzero : n = 0 := by
        rw [← hvalue]
        show Nat.ofDigits 10 ((lastDigits (sufficientLevel n) n []).dropWhile (· == 0)).reverse = 0
        rw [hnil]
        rfl
      exact absurd hzero hn
    · rename_i hcons
      exact hcons.symm
  have hleading : ∀ h : kept.reverse ≠ [], kept.reverse.getLast h ≠ 0 := by
    intro h
    rw [List.getLast_reverse]
    have hhead : (kept.head _ == 0) = false := List.head_dropWhile_not (· == 0)
      fun hnil => h (List.reverse_eq_nil_iff.mpr hnil)
    simpa using hhead
  rw [hdigits, ← Nat.digits_ofDigits 10 (by decide) kept.reverse hsmall hleading, hvalue]

theorem digits_zero : digits 0 = [0] := by
  decide

/-- The digits of a number stand for it. -/
theorem value_digits (n : Nat) : value 10 (digits n) = n := by
  by_cases hn : n = 0
  · subst hn
    decide
  · rw [value_eq_ofDigits, reverse_digits hn, Nat.ofDigits_digits]

theorem digits_lt {n d : Nat} (hd : d ∈ digits n) : d < 10 := by
  by_cases hn : n = 0
  · rw [hn, digits_zero, List.mem_singleton] at hd
    omega
  · rw [← List.mem_reverse, reverse_digits hn] at hd
    exact Nat.digits_lt_base (by decide) hd

/-- A power of ten appends zeros. -/
theorem digits_mul_pow {n : Nat} (hn : n ≠ 0) (k : Nat) :
    digits (n * 10 ^ k) = digits n ++ List.replicate k 0 := by
  have hproduct : n * 10 ^ k ≠ 0 := Nat.mul_ne_zero hn (by positivity)
  rw [← List.reverse_inj, reverse_digits hproduct, List.reverse_append, reverse_digits hn,
    List.reverse_replicate, Nat.mul_comm]
  exact Nat.digits_base_pow_mul (by decide) (Nat.pos_of_ne_zero hn)

/-- Digits are counted as the library writes them; zero has one here. -/
theorem digitCount_eq {n : Nat} (hn : n ≠ 0) : digitCount n = (Nat.digits 10 n).length := by
  rw [← reverse_digits hn, List.length_reverse]
  rfl

/-- A positive number lies between two powers of ten. -/
theorem pow_le_and_lt_pow {n : Nat} (hn : n ≠ 0) :
    10 ^ (digitCount n - 1) ≤ n ∧ n < 10 ^ digitCount n := by
  rw [digitCount_eq hn, Nat.length_digits 10 n (by decide) hn]
  exact ⟨Nat.pow_log_le_self 10 hn, Nat.lt_pow_succ_log_self (by decide) n⟩

theorem digitCount_pos (n : Nat) : 0 < digitCount n := by
  unfold digitCount digits
  split <;> exact Nat.succ_pos _

/-- Also where the power of ten is not formed, its quotient and remainder are found. -/
theorem shiftDown_eq (n places : Nat) :
    shiftDown n places = (n / 10 ^ places, n % 10 ^ places) := by
  unfold shiftDown
  split
  · rename_i hshort
    have hlt : n < 10 ^ places := by
      by_cases hn : n = 0
      · rw [hn]
        positivity
      · exact (pow_le_and_lt_pow hn).2.trans_le (Nat.pow_le_pow_right (by decide) hshort)
    rw [Nat.div_eq_of_lt hlt, Nat.mod_eq_of_lt hlt]
  · rfl

end DecimalScript.Numeral
