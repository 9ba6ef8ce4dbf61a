import DecimalScript.Builtin.Registry
import DecimalScript.Machine.Session
import DecimalScript.Proofs.LiteralEvaluation
import DecimalScript.Proofs.NumberSpellings

/-!
# The text of a number reads back

The text of a number is plain notation, and plain notation is one of the many spellings that are
read. So what holds of all spellings holds of it: it is read as the number that it shows, which
differs from the number that was written in its scale at most.

- `Decimal.IsNumber`: what the numbers of scripts are.
- `Decimal.spellsSigned_plainChars`, `Decimal.read?_plain`: plain notation spells the number it shows.
- `number_texts_read_back`: `str` and `num` are inverse on numbers.
-/

namespace DecimalScript

open Eval

/-! ### Plain notation is a spelling -/

/-- Digits around a point spell all of them as a coefficient, with as many places as stand behind
it. -/
theorem PointedDigits.spellsMantissa (p : PointedDigits) :
    SpellsMantissa p.chars (Numeral.value 10 (p.whole ++ p.fraction)) p.fraction.length := by
  obtain ⟨coefficient, places, hspelled, hread⟩ :=
    Decimal.readUnsigned?_eq_some_iff.mp p.readUnsigned?_chars
  injection hread with _ hcoefficient hexponent
  obtain rfl : p.fraction.length = places := by omega
  rwa [hcoefficient]

namespace Decimal

theorem spellsSign_signText (d : Decimal) : SpellsSign d.signText d.negative := by
  unfold signText
  cases d.negative with
  | false => exact .absent
  | true => exact .minus

/-- Plain notation spells the number that it shows. -/
theorem spellsSigned_plainChars (d : Decimal) : SpellsSigned d.plainChars d.writtenOut := by
  obtain ⟨p, hchars, hvalue, hlength⟩ := d.plainChars_eq
  have hscaled := SpellsScaled.scaled p.spellsMantissa .absent
  rw [List.append_nil, hvalue, zero_sub, hlength] at hscaled
  have hsigned := SpellsSigned.signed d.spellsSign_signText hscaled
  rw [← negative_writtenOut d] at hsigned
  rwa [hchars]

/-- Where nothing is ignored, a spelling is a whole text. -/
theorem SpellsSigned.spells {text : List Char} {d : Decimal} (h : SpellsSigned text d) :
    Spells text d := by
  have hkept : text.filter (· != '_') = text := by
    refine List.filter_eq_self.mpr fun c hc => bne_iff_ne.mpr ?_
    rintro rfl
    rcases h.isSpellingChar _ hc with ⟨v, hv⟩ | hmark
    · cases hv
    · revert hmark
      decide
  refine ⟨[], text, [], (List.append_nil text).symm, nofun, ?_⟩
  rwa [hkept]

/-- Writing a number out does not move its leading digit. -/
theorem leadingExponent_writtenOut {d : Decimal} (h : d.isZero = false) :
    d.writtenOut.leadingExponent = d.leadingExponent := by
  have hcoefficient : d.coefficient ≠ 0 := by simpa [isZero] using h
  unfold writtenOut
  by_cases hexponent : d.exponent < 0
  · rw [if_pos hexponent]
  · rw [if_neg hexponent]
    unfold leadingExponent Numeral.digitCount
    dsimp only
    rw [Numeral.digits_mul_pow hcoefficient, List.length_append, List.length_replicate]
    omega

/-- Writing a number out keeps it within bounds. -/
theorem inBounds_writtenOut {d : Decimal} (h : d.inBounds = true) : d.writtenOut.inBounds = true := by
  by_cases hexponent : d.exponent < 0
  · unfold writtenOut
    rwa [if_pos hexponent]
  · have hsmallest : minExponent ≤ d.writtenOut.exponent := by
      unfold writtenOut
      rw [if_neg hexponent]
      show minExponent ≤ 0
      decide
    unfold inBounds at h ⊢
    rw [Bool.and_eq_true, decide_eq_true_eq, decide_eq_true_eq] at h ⊢
    refine ⟨?_, hsmallest⟩
    by_cases hzero : d.isZero = true
    · -- A zero is written with a single digit.
      have hcoefficient : d.coefficient = 0 := by simpa [isZero] using hzero
      unfold writtenOut
      rw [if_neg hexponent, hcoefficient, Nat.zero_mul]
      show (0 + (Numeral.digitCount 0 : Int) - 1) ≤ maxLeadingExponent
      decide
    · rw [leadingExponent_writtenOut (Bool.eq_false_iff.mpr hzero)]
      exact h.1

/-- **Plain notation is read as the number that it shows.** -/
theorem read?_plain {d : Decimal} (h : d.inBounds = true) :
    read? d.plain.toList = some d.writtenOut := by
  unfold plain
  rw [String.toList_ofList]
  exact read?_eq_some_iff.mpr ⟨d.spellsSigned_plainChars.spells, inBounds_writtenOut h⟩

end Decimal

/-! ### The numbers of scripts -/

namespace Decimal

/-- What the numbers of scripts are: they are within bounds, and a zero has no sign. -/
structure IsNumber (d : Decimal) : Prop where
  zero_sign : d.withoutZeroSign = d
  inBounds : d.inBounds = true

theorem IsNumber.writtenOut {d : Decimal} (h : d.IsNumber) : d.writtenOut.IsNumber where
  zero_sign := withoutZeroSign_writtenOut h.zero_sign
  inBounds := inBounds_writtenOut h.inBounds

theorem negative_withoutZeroSign {d : Decimal} (h : d.isZero = true) :
    d.withoutZeroSign.negative = false := by
  unfold withoutZeroSign
  rw [if_pos h]

/-- Scripts have no negative zero. -/
theorem IsNumber.unsigned_zero {d : Decimal} (h : d.IsNumber) (hzero : d.isZero = true) :
    d.negative = false := by
  rw [← h.zero_sign]
  exact negative_withoutZeroSign hzero

/-- Without the sign of a zero, what is within bounds is a number. -/
theorem isNumber_withoutZeroSign {d : Decimal} (h : d.inBounds = true) :
    d.withoutZeroSign.IsNumber := by
  unfold withoutZeroSign
  by_cases hzero : d.isZero = true
  · rw [if_pos hzero]
    exact ⟨withoutZeroSign_of_not_negative rfl, h⟩
  · rw [if_neg hzero]
    exact ⟨if_neg hzero, h⟩

end Decimal

/-- Plain notation: a minus sign or none, digits, and a point with digits behind it or none. -/
def IsPlainNotation (text : List Char) : Prop :=
  ∃ sign ∈ [[], ['-']], ∃ p : PointedDigits, text = sign ++ p.chars

theorem isPlainNotation_plain (d : Decimal) : IsPlainNotation d.plain.toList := by
  obtain ⟨p, hchars, -, -⟩ := d.plainChars_eq
  refine ⟨d.signText, ?_, p, ?_⟩
  · unfold Decimal.signText
    cases d.negative <;> decide
  · unfold Decimal.plain
    rw [String.toList_ofList, hchars]

/-- Without a sign there is no minus in plain notation. -/
theorem minus_not_mem_plain {d : Decimal} (h : d.negative = false) : '-' ∉ d.plain.toList := by
  obtain ⟨p, hchars, -, -⟩ := d.plainChars_eq
  have hsign : d.signText = [] := by
    unfold Decimal.signText
    rw [h]
    rfl
  unfold Decimal.plain
  rw [String.toList_ofList, hchars, hsign, List.nil_append]
  intro hminus
  have hnumber := p.isNumberChar_of_mem hminus
  revert hnumber
  decide

/-! ### The functions -/

section Functions

variable {maxDigits : Nat} {m : Machine}

theorem callBuiltin_num_string (t : String) :
    Session.callBuiltin maxDigits .standard "num" [.string t] m =
      match Decimal.read? t.toList with
      | some d => .done (some (.ofDecimal d)) m
      | none => .failed (.ofRuntime (.notANumber t) Session.hostSpan) m := by
  have hcall : Session.callBuiltin maxDigits .standard "num" [.string t] m =
      (ofExcept Session.hostSpan (Builtin.toNumber (.string t)) >>= fun v => pure (some v)) m := rfl
  rw [hcall]
  unfold Builtin.toNumber
  dsimp only
  cases Decimal.read? t.toList <;> rfl

/-- The function `str` writes a number, if the host can form its text. -/
theorem callBuiltin_str_number (d : Decimal) :
    Session.callBuiltin maxDigits .standard "str" [.number d] m =
      if d.isWritable maxDigits then .done (some (.string d.plain)) m
      else .failed (.ofRuntime (.excess .tooLong) Session.hostSpan) m := by
  have hcall : Session.callBuiltin maxDigits .standard "str" [.number d] m =
      (ofExcept Session.hostSpan (m.heap.write maxDigits (.number d)) >>= fun t =>
        pure (some (.string t))) m := rfl
  have hwrite : m.heap.write maxDigits (.number d) =
      if d.isWritable maxDigits then .ok d.plain else .error (.excess .tooLong) := rfl
  rw [hcall, hwrite]
  cases d.isWritable maxDigits <;> rfl

/-- `num` succeeds on spellings of numbers within bounds, and the machine stays as it is. -/
theorem callBuiltin_num_eq_done_iff {t : String} {result : Option Value} {later : Machine} :
    Session.callBuiltin maxDigits .standard "num" [.string t] m = .done result later ↔
      (∃ d : Decimal, d.Spells t.toList ∧ d.inBounds = true ∧ result = some (.ofDecimal d)) ∧
        later = m := by
  rw [callBuiltin_num_string]
  constructor
  · intro h
    cases hread : Decimal.read? t.toList with
    | none =>
      rw [hread] at h
      cases h
    | some d =>
      rw [hread] at h
      obtain ⟨hspelled, hbounds⟩ := Decimal.read?_eq_some_iff.mp hread
      obtain ⟨hresult, hlater⟩ := Outcome.done.inj h
      exact ⟨⟨d, hspelled, hbounds, hresult.symm⟩, hlater.symm⟩
  · rintro ⟨⟨d, hspelled, hbounds, rfl⟩, rfl⟩
    rw [Decimal.read?_eq_some_iff.mpr ⟨hspelled, hbounds⟩]

/-- The text of a number is read as the number written out. -/
theorem callBuiltin_num_plain {n : Decimal} (hn : n.IsNumber) :
    Session.callBuiltin maxDigits .standard "num" [.string n.plain] m =
      .done (some (.number n.writtenOut)) m := by
  rw [callBuiltin_num_string, Decimal.read?_plain hn.inBounds]
  show Outcome.done (some (Value.number n.writtenOut.withoutZeroSign)) m = _
  rw [hn.writtenOut.zero_sign]

theorem callBuiltin_str_of_isWritable {n : Decimal} (hn : n.isWritable maxDigits = true) :
    Session.callBuiltin maxDigits .standard "str" [.number n] m =
      .done (some (.string n.plain)) m := by
  rw [callBuiltin_str_number, if_pos hn]

end Functions

/-- **`str` and `num` are inverse on numbers.** The text of a number is read as a number of the same
value, scale and text, except that a positive exponent is written out. `num` accepts the spellings
of numbers within bounds and nothing else; what it gives has a text in plain notation, in which a
zero has no sign, and so the text reads back, too. Neither of them changes the machine.

A text that the host cannot hold is refused by `str`; that does not touch what the text would be. -/
theorem number_texts_read_back (maxDigits : Nat) (m : Machine) :
    let str := fun d : Decimal => Session.callBuiltin maxDigits .standard "str" [.number d] m
    let num := fun t : String => Session.callBuiltin maxDigits .standard "num" [.string t] m
    let given := fun v : Value => Outcome.done (some v) m
    (∀ n : Decimal, n.IsNumber →
      m.heap.display (.number n) = n.plain ∧
      (n.isWritable maxDigits = true → str n = given (.string n.plain)) ∧
      ∃ n' : Decimal, num n.plain = given (.number n') ∧ n'.IsNumber ∧ n'.toRat = n.toRat ∧
        (n.exponent ≤ 0 → n'.exponent = n.exponent) ∧ n'.plain = n.plain ∧
        (n.isWritable maxDigits = true → str n' = given (.string n.plain))) ∧
    (∀ t result later, num t = .done result later ↔
      (∃ d : Decimal, d.Spells t.toList ∧ d.inBounds = true ∧ result = some (.ofDecimal d)) ∧
        later = m) ∧
    (∀ t v, num t = given v → ∃ d : Decimal, v = .number d ∧ d.IsNumber ∧
      IsPlainNotation d.plain.toList ∧
      (d.isZero = true → d.negative = false ∧ '-' ∉ d.plain.toList) ∧
      ∃ d' : Decimal, num d.plain = given (.number d') ∧ d'.toRat = d.toRat ∧
        (d'.isZero = true → d'.negative = false)) := by
  intro str num given
  refine ⟨?_, fun t result later => callBuiltin_num_eq_done_iff, ?_⟩
  · intro n hn
    refine ⟨rfl, callBuiltin_str_of_isWritable, n.writtenOut, callBuiltin_num_plain hn,
      hn.writtenOut, n.toRat_writtenOut, ?_, n.plain_writtenOut, ?_⟩
    · intro hexponent
      unfold Decimal.writtenOut
      split
      · rfl
      · show 0 = n.exponent
        omega
    · intro hwritable
      have htext := @callBuiltin_str_of_isWritable maxDigits m _
        (Decimal.isWritable_writtenOut hwritable)
      rwa [n.plain_writtenOut] at htext
  · intro t v hgiven
    obtain ⟨⟨d, -, hbounds, hgive⟩, -⟩ := callBuiltin_num_eq_done_iff.mp hgiven
    obtain rfl := Option.some.inj hgive
    -- What is given is a number, so what holds of all numbers holds of its text.
    have hnumber := Decimal.isNumber_withoutZeroSign hbounds
    refine ⟨d.withoutZeroSign, rfl, hnumber, isPlainNotation_plain _, ?_, _,
      callBuiltin_num_plain hnumber, Decimal.toRat_writtenOut _,
      hnumber.writtenOut.unsigned_zero⟩
    intro hzero
    have hunsigned := hnumber.unsigned_zero hzero
    exact ⟨hunsigned, minus_not_mem_plain hunsigned⟩

/-- A small number at a scale, and a signed zero spelled with a digit of another script, an
underscore, an exponent and blanks. -/
theorem number_texts_read_back_signed :
    let m : Machine := .empty {}
    let num := fun t : String => Session.callBuiltin 9 .standard "num" [.string t] m
    let given := fun v : Value => Outcome.done (some v) m
    let n : Decimal := ⟨true, 50, -5⟩
    let t := " -٠_.0e-2\n"
    n.plain = "-0.00050" ∧
      (∃ n' : Decimal, num "-0.00050" = given (.number n') ∧ n'.toRat = n.toRat ∧
        n'.exponent = -5) ∧
      num t = given (.number ⟨false, 0, -3⟩) ∧ '-' ∉ (Decimal.plain ⟨false, 0, -3⟩).toList := by
  intro m num given n t
  obtain ⟨hnumbers, -, htexts⟩ := number_texts_read_back 9 m
  have hplain : n.plain = "-0.00050" := by decide
  have hn : n.IsNumber := ⟨by decide, by decide⟩
  have hspelling : Decimal.read? t.toList = some ⟨true, 0, -3⟩ := by decide
  have hread : num t = given (.number ⟨false, 0, -3⟩) := by
    show Session.callBuiltin 9 .standard "num" [.string t] m = _
    rw [callBuiltin_num_string, hspelling]
    rfl
  refine ⟨hplain, ?_, hread, ?_⟩
  · obtain ⟨-, -, n', hnum, -, hvalue, hexponent, -, -⟩ := hnumbers n hn
    rw [hplain] at hnum
    exact ⟨n', hnum, hvalue, hexponent (by decide)⟩
  · obtain ⟨d, hd, -, -, hzero, -⟩ := htexts t _ hread
    injection hd with hd
    subst hd
    exact (hzero rfl).2

end DecimalScript
