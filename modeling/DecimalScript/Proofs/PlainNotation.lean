import DecimalScript.Decimal.Arithmetic
import DecimalScript.Decimal.Notation
import DecimalScript.Proofs.DecimalOrder
import DecimalScript.Proofs.Respelling

/-!
# Plain notation reads back

Plain notation of a decimal without a sign is a numeral with at most one point, and it is read as
the same number. Its scale is the same too, except that a positive exponent has been written out.

- `Decimal.writtenOut`: the number that plain notation shows.
- `plainChars_eq`: plain notation is digits, and a point and digits if there is a fraction.
- `reads_plain_abs`: what stands behind the sign is read as a token of that number.
-/

namespace DecimalScript

/-! ### Digits as characters -/

namespace Numeral

/-- A digit is read from its character. -/
theorem decimalValue?_digitChar {d : Nat} (hd : d < 10) :
    Text.decimalValue? (digitChar d) = some d :=
  (by decide : ∀ d < 10, Text.decimalValue? (digitChar d) = some d) d hd

theorem isDigit_digitChar {d : Nat} (hd : d < 10) : Text.isDigit (digitChar d) = true := by
  unfold Text.isDigit
  rw [decimalValue?_digitChar hd]
  rfl

theorem digitChar_ne_point {d : Nat} (hd : d < 10) : digitChar d ≠ '.' :=
  (by decide : ∀ d < 10, digitChar d ≠ '.') d hd

theorem digitValues?_digitChar : ∀ {ds : List Nat}, (∀ d ∈ ds, d < 10) →
    Decimal.digitValues? (ds.map digitChar) = some ds
  | [], _ => rfl
  | d :: ds, h => by
    obtain ⟨hd, hds⟩ := List.forall_mem_cons.mp h
    have htail : (ds.map digitChar).mapM Text.decimalValue? = some ds := digitValues?_digitChar hds
    unfold Decimal.digitValues?
    rw [List.map_cons, List.mapM_cons, decimalValue?_digitChar hd, htail]
    rfl

/-- Zeros in front of digits do not count. -/
theorem value_zeros_append (k : Nat) (ds : List Nat) :
    value 10 (List.replicate k 0 ++ ds) = value 10 ds := by
  rw [value_eq_ofDigits, value_eq_ofDigits, List.reverse_append, List.reverse_replicate,
    Nat.ofDigits_append_replicate_zero]

end Numeral

/-- Digits, with a point and more digits behind them if there are any. -/
structure PointedDigits where
  whole : List Nat
  fraction : List Nat
  whole_ne_nil : whole ≠ []
  digit_lt : ∀ d ∈ whole ++ fraction, d < 10

namespace PointedDigits

variable (p : PointedDigits)

/-- The point and what stands behind it. -/
def tail : List Char :=
  if p.fraction = [] then [] else '.' :: p.fraction.map Numeral.digitChar

/-- The characters. -/
def chars : List Char :=
  p.whole.map Numeral.digitChar ++ p.tail

/-- Digits and points are characters of numbers. -/
theorem isNumberChar_of_mem {c : Char} (hc : c ∈ p.chars) : Lexer.isNumberChar c = true := by
  have hdigits : ∀ ds : List Nat, (∀ d ∈ ds, d < 10) →
      ∀ c ∈ ds.map Numeral.digitChar, Lexer.isNumberChar c = true := by
    intro ds hds c hc
    obtain ⟨d, hd, rfl⟩ := List.mem_map.mp hc
    simp [Lexer.isNumberChar, Numeral.isDigit_digitChar (hds d hd)]
  obtain ⟨hwhole, hfraction⟩ := List.forall_mem_append.mp p.digit_lt
  unfold chars tail at hc
  rcases List.mem_append.mp hc with hc | hc
  · exact hdigits _ hwhole c hc
  · split at hc
    · exact absurd hc List.not_mem_nil
    · rcases List.mem_cons.mp hc with rfl | hc
      · decide
      · exact hdigits _ hfraction c hc

theorem point_not_mem {ds : List Nat} (hds : ∀ d ∈ ds, d < 10) : '.' ∉ ds.map Numeral.digitChar := by
  intro hpoint
  obtain ⟨d, hd, heq⟩ := List.mem_map.mp hpoint
  exact Numeral.digitChar_ne_point (hds d hd) heq

/-- The digits before the point are read off up to the point. -/
theorem readUnsigned?_chars :
    Decimal.readUnsigned? p.chars =
      some ⟨false, Numeral.value 10 (p.whole ++ p.fraction), -(p.fraction.length : Int)⟩ := by
  obtain ⟨hwhole, hfraction⟩ := List.forall_mem_append.mp p.digit_lt
  -- No digit is a point, so the text is cut between the two digit lists and nowhere else.
  have hnone : ∀ c ∈ p.whole.map Numeral.digitChar, (c != '.') = true := fun c hc =>
    bne_iff_ne.mpr fun h => point_not_mem hwhole (h ▸ hc)
  have hbefore : p.chars.takeWhile (· != '.') = p.whole.map Numeral.digitChar := by
    unfold chars tail
    rw [List.takeWhile_append_of_pos hnone]
    split <;> simp
  have hbehind : (p.chars.dropWhile (· != '.')).drop 1 = p.fraction.map Numeral.digitChar := by
    unfold chars tail
    rw [List.dropWhile_append_of_pos hnone]
    split
    · rename_i hnil
      rw [hnil]
      rfl
    · simp
  have hne : (p.whole ++ p.fraction).isEmpty = false :=
    List.isEmpty_eq_false_iff.mpr (List.append_ne_nil_of_left_ne_nil p.whole_ne_nil _)
  unfold Decimal.readUnsigned?
  dsimp only
  rw [hbefore, hbehind, ← List.map_append, Numeral.digitValues?_digitChar p.digit_lt]
  dsimp only [Option.bind_eq_bind, Option.bind_some]
  rw [hne, List.length_map]
  rfl

/-- There is at most one point. -/
theorem count_point_le : p.chars.count '.' ≤ 1 := by
  obtain ⟨hwhole, hfraction⟩ := List.forall_mem_append.mp p.digit_lt
  unfold chars tail
  rw [List.count_append, List.count_eq_zero_of_not_mem (point_not_mem hwhole)]
  split
  · exact Nat.zero_le 1
  · rw [List.count_cons, List.count_eq_zero_of_not_mem (point_not_mem hfraction)]
    decide

/-- The point is not the last character: with no digit behind it, it is left out. -/
theorem getLast?_ne_point : p.chars.getLast? ≠ some '.' := by
  obtain ⟨hwhole, hfraction⟩ := List.forall_mem_append.mp p.digit_lt
  intro hlast
  unfold chars tail at hlast
  split at hlast
  · rw [List.append_nil] at hlast
    exact point_not_mem hwhole (List.mem_of_getLast? hlast)
  · rename_i hne
    have hnonempty : p.fraction.map Numeral.digitChar ≠ [] := fun h => hne (List.map_eq_nil_iff.mp h)
    rw [← List.singleton_append, ← List.append_assoc,
      List.getLast?_append_of_ne_nil _ hnonempty] at hlast
    exact point_not_mem hfraction (List.mem_of_getLast? hlast)

/-- The characters are read as the number that the digits stand for. -/
theorem scanPlainNumber_chars :
    Lexer.scanPlainNumber p.chars =
      .ok (.number ⟨false, Numeral.value 10 (p.whole ++ p.fraction), -(p.fraction.length : Int)⟩,
        p.chars.length) := by
  have hrun : p.chars.takeWhile Lexer.isNumberChar = p.chars := by
    have hall : (p.chars ++ []).takeWhile Lexer.isNumberChar = p.chars ++ [] :=
      List.takeWhile_append_of_pos fun c hc => p.isNumberChar_of_mem hc
    rwa [List.append_nil] at hall
  have hwell : ¬ (2 ≤ p.chars.count '.' || p.chars.getLast? = some '.') = true := by
    rw [Bool.or_eq_true, decide_eq_true_iff, decide_eq_true_iff, not_or]
    exact ⟨Nat.not_le_of_lt (Nat.lt_succ_of_le p.count_point_le), p.getLast?_ne_point⟩
  unfold Lexer.scanPlainNumber
  dsimp only
  rw [hrun, if_neg hwell, p.readUnsigned?_chars]

/-- The characters are a spelling of a token of that number. -/
theorem reads_chars :
    Lexer.Reads (.number ⟨false, Numeral.value 10 (p.whole ++ p.fraction),
      -(p.fraction.length : Int)⟩) p.chars := by
  obtain ⟨d, ds, hwhole⟩ := List.exists_cons_of_ne_nil p.whole_ne_nil
  have hchars : p.chars = Numeral.digitChar d :: (ds.map Numeral.digitChar ++ p.tail) := by
    unfold chars
    rw [hwhole]
    rfl
  have hdigit : Text.isDigit (Numeral.digitChar d) = true :=
    Numeral.isDigit_digitChar (p.digit_lt d (by rw [hwhole]; exact List.mem_cons_self))
  have hreads := Lexer.reads_plain hdigit (hchars ▸ p.scanPlainNumber_chars)
  rwa [List.length_cons, Nat.add_sub_cancel, List.take_length, ← hchars] at hreads

end PointedDigits

/-! ### Plain notation -/

namespace Decimal

/-- The number that plain notation shows: a positive exponent is written out. -/
def writtenOut (d : Decimal) : Decimal :=
  if d.exponent < 0 then d else ⟨d.negative, d.coefficient * 10 ^ d.exponent.toNat, 0⟩

theorem toRat_writtenOut (d : Decimal) : d.writtenOut.toRat = d.toRat := by
  unfold writtenOut
  split
  · rfl
  · rename_i hexponent
    obtain ⟨n, hn⟩ := Int.eq_ofNat_of_zero_le (not_lt.mp hexponent)
    unfold toRat signed
    rw [hn]
    cases d.negative <;> simp

theorem isWritable_writtenOut {maxDigits : Nat} {d : Decimal} (h : d.isWritable maxDigits = true) :
    d.writtenOut.isWritable maxDigits = true := by
  unfold writtenOut
  split
  · exact h
  · unfold isWritable
    simp

theorem length_numeral (n : Nat) : (Numeral.numeral n).length = Numeral.digitCount n :=
  List.length_map _

theorem replicate_zero_digit (k : Nat) :
    List.replicate k '0' = (List.replicate k 0).map Numeral.digitChar := by
  rw [List.map_replicate]
  rfl

/-- Enough digits of a coefficient for some places behind a point and one in front of it. -/
def paddedDigits (coefficient places : Nat) : List Nat :=
  List.replicate (places + 1 - Numeral.digitCount coefficient) 0 ++ Numeral.digits coefficient

/-- Padding leaves a digit in front of the point. -/
theorem lt_length_paddedDigits (coefficient places : Nat) :
    places < (paddedDigits coefficient places).length := by
  have hlength : (Numeral.digits coefficient).length = Numeral.digitCount coefficient := rfl
  unfold paddedDigits
  rw [List.length_append, List.length_replicate, hlength]
  omega

theorem paddedDigits_lt (coefficient places : Nat) :
    ∀ d ∈ paddedDigits coefficient places, d < 10 := by
  refine List.forall_mem_append.mpr ⟨fun d hd => ?_, fun d hd => Numeral.digits_lt hd⟩
  rw [List.eq_of_mem_replicate hd]
  decide

/-- Padded digits cut in front of the last places. -/
def splitDigits (coefficient places : Nat) : PointedDigits where
  whole := (paddedDigits coefficient places).take
    ((paddedDigits coefficient places).length - places)
  fraction := (paddedDigits coefficient places).drop
    ((paddedDigits coefficient places).length - places)
  whole_ne_nil := by
    have hlt := lt_length_paddedDigits coefficient places
    rw [ne_eq, ← List.length_eq_zero_iff, List.length_take]
    omega
  digit_lt := by
    rw [List.take_append_drop]
    exact paddedDigits_lt coefficient places

theorem length_fraction_splitDigits (coefficient places : Nat) :
    (splitDigits coefficient places).fraction.length = places := by
  have hlt := lt_length_paddedDigits coefficient places
  show (List.drop _ _).length = _
  rw [List.length_drop]
  omega

/-- A point in a numeral splits its digits, with zeros in front if there are too few. -/
theorem pointed_numeral (coefficient : Nat) {places : Nat} (hplaces : places ≠ 0) :
    pointed (Numeral.numeral coefficient) places = (splitDigits coefficient places).chars := by
  have hfraction : (splitDigits coefficient places).fraction ≠ [] := by
    rw [ne_eq, ← List.length_eq_zero_iff, length_fraction_splitDigits]
    exact hplaces
  have hpadded : List.replicate (places + 1 - (Numeral.numeral coefficient).length) '0' ++
      Numeral.numeral coefficient = (paddedDigits coefficient places).map Numeral.digitChar := by
    rw [length_numeral, replicate_zero_digit]
    exact List.map_append.symm
  unfold pointed PointedDigits.chars PointedDigits.tail
  dsimp only
  rw [if_neg hfraction, hpadded, List.length_map, ← List.map_take, ← List.map_drop]
  rfl

/-- A positive exponent puts zeros behind the digits. -/
theorem numeral_mul_pow (coefficient k : Nat) :
    Numeral.numeral (coefficient * 10 ^ k) =
      if coefficient = 0 then Numeral.numeral coefficient
      else Numeral.numeral coefficient ++ List.replicate k '0' := by
  split
  · rename_i hzero
    rw [hzero, Nat.zero_mul]
  · rename_i hne
    unfold Numeral.numeral
    rw [Numeral.digits_mul_pow hne, List.map_append, replicate_zero_digit]

/-- Without places the zeros that the exponent stands for are written. -/
theorem plainChars_of_nonneg {d : Decimal} (h : 0 ≤ d.exponent) :
    d.plainChars = d.signText ++ Numeral.numeral (d.coefficient * 10 ^ d.exponent.toNat) := by
  rw [numeral_mul_pow]
  unfold plainChars isZero
  dsimp only
  rw [if_neg (Int.not_lt.mpr h)]
  by_cases hzero : d.coefficient = 0
  · rw [if_pos (beq_iff_eq.mpr hzero), if_pos hzero]
  · rw [if_neg (mt beq_iff_eq.mp hzero), if_neg hzero, List.append_assoc]

/-- **Plain notation is a sign, digits, and a point with more digits if there is a fraction.** The
digits stand for the coefficient, with the zeros of a positive exponent. -/
theorem plainChars_eq (d : Decimal) :
    ∃ p : PointedDigits, d.plainChars = d.signText ++ p.chars ∧
      Numeral.value 10 (p.whole ++ p.fraction) = d.writtenOut.coefficient ∧
      -(p.fraction.length : Int) = d.writtenOut.exponent := by
  unfold writtenOut
  -- A negative exponent puts a point among the digits, padded with zeros where there are too few;
  -- any other one writes the zeros of the power of ten out.
  by_cases hexponent : d.exponent < 0
  · let places := (-d.exponent).toNat
    have hplaces : places ≠ 0 := by omega
    rw [if_pos hexponent]
    refine ⟨splitDigits d.coefficient places, ?_, ?_, ?_⟩
    · unfold plainChars
      dsimp only
      rw [if_pos hexponent, pointed_numeral _ hplaces]
    · show Numeral.value 10 (List.take _ _ ++ List.drop _ _) = _
      rw [List.take_append_drop, paddedDigits, Numeral.value_zeros_append, Numeral.value_digits]
    · rw [length_fraction_splitDigits]
      omega
  · rw [if_neg hexponent]
    let n := d.coefficient * 10 ^ d.exponent.toNat
    refine ⟨⟨Numeral.digits n, [], fun hnil => ?_, fun d hd => ?_⟩, ?_, ?_, rfl⟩
    · have hcount := Numeral.digitCount_pos n
      unfold Numeral.digitCount at hcount
      rw [hnil] at hcount
      exact absurd hcount (Nat.lt_irrefl 0)
    · rw [List.append_nil] at hd
      exact Numeral.digits_lt hd
    · rw [plainChars_of_nonneg (Int.not_lt.mp hexponent)]
      exact congrArg (d.signText ++ ·) (List.append_nil _).symm
    · rw [List.append_nil]
      exact Numeral.value_digits n

/-- Writing a number out does not change its plain notation. -/
theorem plain_writtenOut (d : Decimal) : d.writtenOut.plain = d.plain := by
  unfold writtenOut
  split
  · rfl
  · rename_i hexponent
    unfold plain
    rw [plainChars_of_nonneg (Int.not_lt.mp hexponent), plainChars_of_nonneg (Int.le_refl 0)]
    simp [signText]

/-- The sign of a number is written in front of its magnitude. -/
theorem plain_eq_abs (d : Decimal) :
    d.plain = String.ofList d.signText ++ d.abs.plain := by
  have habs : d.plainChars = d.signText ++ d.abs.plainChars := by
    obtain ⟨negative, coefficient, exponent⟩ := d
    unfold plainChars abs signText isZero
    dsimp only
    split <;> [skip; split] <;> simp
  unfold plain
  rw [habs, String.ofList_append]

/-- **What stands behind the sign is a spelling of a number token.** -/
theorem reads_plain_abs (d : Decimal) :
    Lexer.Reads (.number d.abs.writtenOut) d.abs.plain.toList := by
  obtain ⟨p, hchars, hvalue, hlength⟩ := d.abs.plainChars_eq
  have hnegative : d.abs.writtenOut.negative = false := by
    unfold writtenOut
    split <;> rfl
  have hnumber : d.abs.writtenOut =
      ⟨false, Numeral.value 10 (p.whole ++ p.fraction), -(p.fraction.length : Int)⟩ := by
    rw [hvalue, hlength, ← hnegative]
  have htext : d.abs.plain.toList = p.chars := by
    unfold plain
    rw [String.toList_ofList, hchars]
    rfl
  rw [hnumber, htext]
  exact p.reads_chars

end Decimal

end DecimalScript
