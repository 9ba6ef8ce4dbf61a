import DecimalScript.Decimal.Reader
import DecimalScript.Proofs.Numerals
import DecimalScript.Proofs.Respelling
import Mathlib.Data.List.Forall2
import Mathlib.Data.List.TakeWhile

/-!
# The texts of numbers

A number is spelled by an optional sign, digits of any script with at most one point among them, and
an optional exponent; underscores stand anywhere between, and blanks around it all. The reader cuts
a text where the first point, the first exponent mark and the last blanks are. That these cuts find
the parts of every spelling, and of nothing else, rests on one fact: a digit is no point, no mark,
no sign, no underscore and no blank.

- `SpellsDigits`, `SpellsMantissa`, `SpellsInteger`, `SpellsExponent`: the parts of a spelling.
- `Decimal.Spells`: a whole text and the number it spells.
- `Decimal.read?_eq_some_iff`: the texts that are read, and as what.
-/

namespace DecimalScript

/-! ### Digits -/

section Mapping

variable {α β : Type} {f : α → Option β}

/-- Mapping gives a list if it gives every one of its members. -/
theorem mapM_eq_some_iff {as : List α} {bs : List β} :
    as.mapM f = some bs ↔ List.Forall₂ (fun a b => f a = some b) as bs := by
  induction as generalizing bs with
  | nil =>
    rw [List.mapM_nil, List.forall₂_nil_left_iff]
    exact ⟨fun h => (Option.some.inj h).symm, fun h => congrArg some h.symm⟩
  | cons a as ih =>
    rw [List.mapM_cons]
    constructor
    · intro h
      obtain ⟨b, hb, hrest⟩ := Option.bind_eq_some_iff.mp h
      obtain ⟨later, hlater, hcons⟩ := Option.bind_eq_some_iff.mp hrest
      obtain rfl := Option.some.inj hcons
      exact .cons hb (ih.mp hlater)
    · intro h
      cases h with
      | cons hb hlater =>
        rw [hb, ih.mpr hlater]
        rfl

theorem mapM_eq_none_iff {as : List α} : as.mapM f = none ↔ ∃ a ∈ as, f a = none := by
  induction as with
  | nil => simp
  | cons a as ih =>
    rw [List.mapM_cons, List.exists_mem_cons_iff, ← ih]
    cases f a <;> cases as.mapM f <;> simp

end Mapping

/-- Decimal digits of any script, with their values. -/
def SpellsDigits (text : List Char) (digits : List Nat) : Prop :=
  List.Forall₂ (fun c d => Text.decimalValue? c = some d) text digits

namespace SpellsDigits

variable {text later : List Char} {digits more : List Nat}

theorem append (h : SpellsDigits text digits) (hlater : SpellsDigits later more) :
    SpellsDigits (text ++ later) (digits ++ more) :=
  List.rel_append h hlater

/-- Digits are cut where their text is. -/
theorem of_append (h : SpellsDigits (text ++ later) digits) :
    ∃ front behind, digits = front ++ behind ∧ SpellsDigits text front ∧
      SpellsDigits later behind := by
  induction text generalizing digits with
  | nil => exact ⟨[], digits, rfl, .nil, h⟩
  | cons c text ih =>
    cases h with
    | cons hvalue hrest =>
      obtain ⟨front, behind, rfl, hfront, hbehind⟩ := ih hrest
      exact ⟨_ :: front, behind, rfl, .cons hvalue hfront, hbehind⟩

/-- Every character among digits is one. -/
theorem exists_value (h : SpellsDigits text digits) {c : Char} (hc : c ∈ text) :
    ∃ d, Text.decimalValue? c = some d := by
  induction h with
  | nil => cases hc
  | cons hvalue _ ih =>
    rcases List.mem_cons.mp hc with rfl | hc
    · exact ⟨_, hvalue⟩
    · exact ih hc

/-- What is no digit does not stand among digits. -/
theorem not_mem (h : SpellsDigits text digits) {c : Char} (hc : Text.decimalValue? c = none) :
    c ∉ text := by
  intro hmem
  obtain ⟨d, hd⟩ := h.exists_value hmem
  rw [hc] at hd
  cases hd

theorem ne_of_mem (h : SpellsDigits text digits) {c d : Char} (hc : c ∈ text)
    (hd : Text.decimalValue? d = none) : c ≠ d := by
  rintro rfl
  exact h.not_mem hd hc

theorem eq_nil_iff (h : SpellsDigits text digits) : text = [] ↔ digits = [] := by
  rw [← List.length_eq_zero_iff, h.length_eq, List.length_eq_zero_iff]

end SpellsDigits

/-- Digits are read if the text spells them, and only then. -/
theorem digitValues?_eq_some_iff {text : List Char} {digits : List Nat} :
    Decimal.digitValues? text = some digits ↔ SpellsDigits text digits :=
  mapM_eq_some_iff

/-! ### Mantissas -/

/-- Digits with at most one point among them, the number of the digits and how many of them stand
behind the point. There is a digit before or behind the point. -/
inductive SpellsMantissa : List Char → (coefficient places : Nat) → Prop
  | whole {text : List Char} {digits : List Nat} (hdigits : SpellsDigits text digits)
    (hne : digits ≠ []) : SpellsMantissa text (Nat.ofDigits 10 digits.reverse) 0
  | pointed {whole fraction : List Char} {digits more : List Nat}
    (hwhole : SpellsDigits whole digits) (hfraction : SpellsDigits fraction more)
    (hne : digits ++ more ≠ []) :
    SpellsMantissa (whole ++ '.' :: fraction) (Nat.ofDigits 10 (digits ++ more).reverse) more.length

namespace Decimal

/-- A text is cut at its first point, if there is one. -/
theorem cut_at_point (text : List Char) :
    let whole := text.takeWhile (· != '.')
    let fraction := (text.dropWhile (· != '.')).drop 1
    text = whole ∧ fraction = [] ∨ text = whole ++ '.' :: fraction := by
  intro whole fraction
  have hparts : whole ++ text.dropWhile (· != '.') = text := List.takeWhile_append_dropWhile
  cases hrest : text.dropWhile (· != '.') with
  | nil =>
    refine .inl ⟨?_, ?_⟩
    · rw [← hparts, hrest, List.append_nil]
    · show (text.dropWhile (· != '.')).drop 1 = []
      rw [hrest]
      rfl
  | cons c later =>
    -- `dropWhile` stops at the first character its test refuses.
    have hpoint : c = '.' := by
      have hhead := List.head?_dropWhile_not (· != '.') text
      rw [hrest] at hhead
      simpa using hhead
    have hfraction : fraction = later := by
      show (text.dropWhile (· != '.')).drop 1 = later
      rw [hrest]
      rfl
    right
    rw [hfraction, ← hpoint, ← hrest, hparts]

/-- What stands before a point has none. -/
theorem takeWhile_whole {whole : List Char} (h : '.' ∉ whole) (fraction : List Char) :
    (whole ++ '.' :: fraction).takeWhile (· != '.') = whole ∧
      ((whole ++ '.' :: fraction).dropWhile (· != '.')).drop 1 = fraction := by
  have hall : ∀ c ∈ whole, (c != '.') = true := fun c hc => bne_iff_ne.mpr fun heq => h (heq ▸ hc)
  rw [List.takeWhile_append_of_pos hall, List.dropWhile_append_of_pos hall]
  simp

/-- The digits on both sides of the first point are one coefficient, of at least one digit. -/
theorem readUnsigned?_eq (text : List Char) :
    readUnsigned? text =
      (digitValues? (text.takeWhile (· != '.') ++ (text.dropWhile (· != '.')).drop 1)).bind
        fun digits => if digits.isEmpty then none else some ⟨false, Numeral.value 10 digits,
          -(((text.dropWhile (· != '.')).drop 1).length : Int)⟩ :=
  rfl

/-- The texts that are read as unsigned numerals are the mantissas. -/
theorem readUnsigned?_eq_some_iff {text : List Char} {d : Decimal} :
    readUnsigned? text = some d ↔ ∃ coefficient places, SpellsMantissa text coefficient places ∧
      d = ⟨false, coefficient, -(places : Int)⟩ := by
  rw [readUnsigned?_eq]
  constructor
  · intro h
    obtain ⟨digits, hvalues, hresult⟩ := Option.bind_eq_some_iff.mp h
    have hne : digits ≠ [] := by
      rintro rfl
      cases hresult
    rw [if_neg (by simpa using hne)] at hresult
    obtain rfl := Option.some.inj hresult
    have hdigits := digitValues?_eq_some_iff.mp hvalues
    rw [Numeral.value_eq_ofDigits]
    rcases cut_at_point text with ⟨hwhole, hfraction⟩ | hpointed
    · rw [hfraction, List.append_nil, ← hwhole] at hdigits
      rw [hfraction]
      exact ⟨_, 0, .whole hdigits hne, rfl⟩
    · obtain ⟨front, behind, rfl, hfront, hbehind⟩ := hdigits.of_append
      have hspelled := SpellsMantissa.pointed hfront hbehind hne
      rw [← hpointed] at hspelled
      exact ⟨_, _, hspelled, by rw [hbehind.length_eq]⟩
  · rintro ⟨coefficient, places, hspelled, rfl⟩
    cases hspelled with
    | @whole _ digits hdigits hne =>
      -- Without a point nothing is cut off.
      have hall : ∀ c ∈ text, (c != '.') = true := fun c hc =>
        bne_iff_ne.mpr (hdigits.ne_of_mem hc rfl)
      have hdrop : text.dropWhile (· != '.') = [] := List.dropWhile_eq_nil_iff.mpr hall
      have htake : text.takeWhile (· != '.') = text := List.takeWhile_eq_self_iff.mpr hall
      rw [htake, hdrop, List.drop_nil, List.append_nil, digitValues?_eq_some_iff.mpr hdigits]
      show (if digits.isEmpty then none else _) = _
      rw [if_neg (by simpa using hne), Numeral.value_eq_ofDigits]
      rfl
    | @pointed whole fraction digits more hwhole hfraction hne =>
      obtain ⟨htake, hdrop⟩ := takeWhile_whole (hwhole.not_mem rfl) fraction
      rw [htake, hdrop, digitValues?_eq_some_iff.mpr (hwhole.append hfraction)]
      show (if (digits ++ more).isEmpty then none else _) = _
      rw [if_neg (by simpa using hne), Numeral.value_eq_ofDigits, hfraction.length_eq]

end Decimal

/-- There are digits in a mantissa, and perhaps a point. -/
theorem SpellsMantissa.digit_or_point {text : List Char} {coefficient places : Nat}
    (h : SpellsMantissa text coefficient places) {c : Char} (hc : c ∈ text) :
    (∃ d, Text.decimalValue? c = some d) ∨ c = '.' := by
  cases h with
  | whole hdigits _ => exact .inl (hdigits.exists_value hc)
  | pointed hwhole hfraction _ =>
    rcases List.mem_append.mp hc with hc | hc
    · exact .inl (hwhole.exists_value hc)
    · rcases List.mem_cons.mp hc with rfl | hc
      · exact .inr rfl
      · exact .inl (hfraction.exists_value hc)

theorem SpellsMantissa.ne_of_mem {text : List Char} {coefficient places : Nat}
    (h : SpellsMantissa text coefficient places) {c d : Char} (hc : c ∈ text)
    (hd : Text.decimalValue? d = none) (hpoint : d ≠ '.') : c ≠ d := by
  rintro rfl
  rcases h.digit_or_point hc with ⟨n, hn⟩ | hc
  · rw [hd] at hn
    cases hn
  · exact hpoint hc

theorem SpellsMantissa.ne_nil {text : List Char} {coefficient places : Nat}
    (h : SpellsMantissa text coefficient places) : text ≠ [] := by
  cases h with
  | whole hdigits hne => exact mt hdigits.eq_nil_iff.mp hne
  | pointed _ _ _ => exact List.append_ne_nil_of_right_ne_nil _ (List.cons_ne_nil _ _)

/-! ### Signs and exponents -/

/-- A sign or none, and whether it is a minus sign. -/
inductive SpellsSign : List Char → (negative : Bool) → Prop
  | absent : SpellsSign [] false
  | plus : SpellsSign ['+'] false
  | minus : SpellsSign ['-'] true

/-- Digits with a sign in front of them, or none. -/
inductive SpellsInteger : List Char → Int → Prop
  | signed {sign text : List Char} {negative : Bool} {digits : List Nat}
    (hsign : SpellsSign sign negative) (hdigits : SpellsDigits text digits) (hne : digits ≠ []) :
    SpellsInteger (sign ++ text)
      (if negative then -(Nat.ofDigits 10 digits.reverse : Nat)
        else (Nat.ofDigits 10 digits.reverse : Nat))

/-- An exponent mark with an integer, or nothing. -/
inductive SpellsExponent : List Char → Int → Prop
  | absent : SpellsExponent [] 0
  | marked {mark : Char} {text : List Char} {n : Int} (hmark : mark = 'e' ∨ mark = 'E')
    (hinteger : SpellsInteger text n) : SpellsExponent (mark :: text) n

/-- A mantissa and an exponent. -/
inductive SpellsScaled : List Char → (coefficient : Nat) → (exponent : Int) → Prop
  | scaled {mantissa text : List Char} {coefficient places : Nat} {shift : Int}
    (hmantissa : SpellsMantissa mantissa coefficient places) (hexponent : SpellsExponent text shift) :
    SpellsScaled (mantissa ++ text) coefficient (shift - places)

namespace Decimal

/-- A sign is read if there is one. -/
theorem readSign_cut (text : List Char) :
    ∃ sign, SpellsSign sign (readSign text).1 ∧ text = sign ++ (readSign text).2 := by
  unfold readSign
  split
  · exact ⟨['-'], .minus, rfl⟩
  · exact ⟨['+'], .plus, rfl⟩
  · exact ⟨[], .absent, rfl⟩

/-- A sign is read, and not more than one. -/
theorem readSign_append {sign text : List Char} {negative : Bool} (hsign : SpellsSign sign negative)
    (htext : ∀ c ∈ text.head?, c ≠ '-' ∧ c ≠ '+') : readSign (sign ++ text) = (negative, text) := by
  cases hsign with
  | plus => rfl
  | minus => rfl
  | absent =>
    rw [List.nil_append]
    unfold readSign
    split
    · exact absurd rfl (htext '-' rfl).1
    · exact absurd rfl (htext '+' rfl).2
    · rfl

/-- An exponent is a whole number with an optional sign. -/
theorem readExponent?_eq (text : List Char) :
    readExponent? text = (digitValues? (readSign text).2).bind fun digits =>
      if digits.isEmpty then none
      else some (if (readSign text).1 then -(Numeral.value 10 digits : Int)
        else (Numeral.value 10 digits : Int)) :=
  rfl

/-- The texts that are read as exponents are the integers. -/
theorem readExponent?_eq_some_iff {text : List Char} {n : Int} :
    readExponent? text = some n ↔ SpellsInteger text n := by
  rw [readExponent?_eq]
  constructor
  · intro h
    obtain ⟨sign, hsign, htext⟩ := readSign_cut text
    obtain ⟨digits, hvalues, hresult⟩ := Option.bind_eq_some_iff.mp h
    have hne : digits ≠ [] := by
      rintro rfl
      cases hresult
    rw [if_neg (by simpa using hne)] at hresult
    obtain rfl := Option.some.inj hresult
    have hspelled := SpellsInteger.signed hsign (digitValues?_eq_some_iff.mp hvalues) hne
    rw [← htext] at hspelled
    rw [Numeral.value_eq_ofDigits]
    exact hspelled
  · intro h
    cases h with
    | @signed sign text negative digits hsign hdigits hne =>
      have hhead : ∀ c ∈ text.head?, c ≠ '-' ∧ c ≠ '+' := fun c hc =>
        have hmem := List.mem_of_head? hc
        ⟨hdigits.ne_of_mem hmem rfl, hdigits.ne_of_mem hmem rfl⟩
      rw [readSign_append hsign hhead, digitValues?_eq_some_iff.mpr hdigits, Option.bind_some,
        if_neg (by simpa using hne), Numeral.value_eq_ofDigits]

/-- A mark of an exponent. -/
def isExponentMark (c : Char) : Bool :=
  c == 'e' || c == 'E'

/-- The first mark of an exponent separates it from the mantissa. -/
theorem readScaled?_eq (text : List Char) :
    readScaled? text = (readUnsigned? (text.takeWhile fun c => !isExponentMark c)).bind fun mantissa =>
      match text.dropWhile fun c => !isExponentMark c with
      | [] => some mantissa
      | _ :: exponentText => (readExponent? exponentText).bind fun shift =>
        some { mantissa with exponent := mantissa.exponent + shift } :=
  rfl

/-- The texts that are read as scaled numerals are the mantissas with exponents. -/
theorem readScaled?_eq_some_iff {text : List Char} {d : Decimal} :
    readScaled? text = some d ↔ ∃ coefficient exponent, SpellsScaled text coefficient exponent ∧
      d = ⟨false, coefficient, exponent⟩ := by
  rw [readScaled?_eq]
  constructor
  · intro h
    have hparts : (text.takeWhile fun c => !isExponentMark c) ++
        (text.dropWhile fun c => !isExponentMark c) = text := List.takeWhile_append_dropWhile
    obtain ⟨mantissa, hmantissa, hresult⟩ := Option.bind_eq_some_iff.mp h
    obtain ⟨coefficient, places, hspelled, rfl⟩ := readUnsigned?_eq_some_iff.mp hmantissa
    rw [← hparts]
    cases hrest : text.dropWhile fun c => !isExponentMark c with
    | nil =>
      rw [hrest] at hresult
      obtain rfl := Option.some.inj hresult
      refine ⟨coefficient, _, .scaled hspelled .absent, ?_⟩
      rw [zero_sub]
    | cons mark exponentText =>
      rw [hrest] at hresult
      obtain ⟨shift, hshift, hsum⟩ := Option.bind_eq_some_iff.mp hresult
      obtain rfl := Option.some.inj hsum
      have hmark : mark = 'e' ∨ mark = 'E' := by
        have hhead := List.head?_dropWhile_not (fun c => !isExponentMark c) text
        rw [hrest] at hhead
        simpa [isExponentMark, or_iff_not_imp_left] using hhead
      refine ⟨coefficient, _,
        .scaled hspelled (.marked hmark (readExponent?_eq_some_iff.mp hshift)), ?_⟩
      rw [neg_add_eq_sub]
  · rintro ⟨coefficient, exponent, hspelled, rfl⟩
    cases hspelled with
    | @scaled mantissa text coefficient places shift hmantissa hexponent =>
      have hall : ∀ c ∈ mantissa, (!isExponentMark c) = true := by
        intro c hc
        have hsmall := hmantissa.ne_of_mem hc (d := 'e') rfl (by decide)
        have hlarge := hmantissa.ne_of_mem hc (d := 'E') rfl (by decide)
        simp [isExponentMark, hsmall, hlarge]
      have hread := readUnsigned?_eq_some_iff.mpr ⟨coefficient, places, hmantissa, rfl⟩
      -- The mantissa goes as far as the mark, or to the end.
      cases hexponent with
      | absent =>
        rw [List.append_nil, List.takeWhile_eq_self_iff.mpr hall, List.dropWhile_eq_nil_iff.mpr hall,
          hread, zero_sub]
        rfl
      | @marked mark text n hmark hinteger =>
        have hstop : ∀ c ∈ (mark :: text).head?, (!isExponentMark c) = false := by
          intro c hc
          cases hc
          rcases hmark with rfl | rfl <;> rfl
        have hdrop : (mark :: text).dropWhile (fun c => !isExponentMark c) = mark :: text :=
          List.dropWhile_cons_of_neg (by simp [hstop mark rfl])
        rw [Lexer.takeWhile_run_append _ hall hstop, List.dropWhile_append_of_pos hall, hdrop, hread]
        show (readExponent? text).bind _ = _
        rw [readExponent?_eq_some_iff.mpr hinteger, Option.bind_some, neg_add_eq_sub]

end Decimal

/-! ### Blanks and underscores -/

namespace Text

/-- Blanks are below the digits or above all of ASCII. -/
theorem isBlank_cases {c : Char} (h : isBlank c = true) :
    c.toNat < 48 ∨ 128 ≤ c.toNat ∧ ∃ range ∈ blankRanges, range.1 ≤ c.toNat ∧ c.toNat ≤ range.2 := by
  simp only [isBlank, Bool.or_eq_true, decide_eq_true_eq] at h
  rcases h with hsmall | hbeyond
  · left
    omega
  · unfold Ranges.containsBeyondAscii Ranges.contains at hbeyond
    simp only [Bool.and_eq_true, decide_eq_true_eq, List.any_eq_true] at hbeyond
    exact .inr hbeyond

/-- The decimal digits of every script stand apart from the blanks. -/
theorem decimalValue?_of_isBlank {c : Char} (h : isBlank c = true) : decimalValue? c = none := by
  have hascii : ¬ c.isDigit = true := by
    intro hc
    have hbounds : 48 ≤ c.toNat ∧ c.toNat ≤ 57 := Char.isDigit_iff_toNat.mp hc
    rcases isBlank_cases h with hsmall | ⟨hbeyond, -⟩ <;> omega
  unfold decimalValue?
  rw [if_neg hascii]
  rcases isBlank_cases h with hsmall | ⟨hbeyond, range, hmem, hrange⟩
  · rw [if_pos (by omega)]
  · have hapart : ∀ range ∈ blankRanges, ∀ first ∈ zeroDigits,
        range.2 < first ∨ first + 10 ≤ range.1 := by decide
    rw [if_neg (by omega), Option.map_eq_none_iff, List.find?_eq_none]
    intro first hfirst hfollows
    rw [Bool.and_eq_true, decide_eq_true_eq, decide_eq_true_eq] at hfollows
    rcases hapart range hmem first hfirst with hbelow | habove <;> omega

/-- Only blanks are trimmed. -/
theorem exists_trim (text : List Char) :
    ∃ front back, text = front ++ (trim text ++ back) ∧ ∀ c ∈ front ++ back, isBlank c = true := by
  let inner := text.dropWhile isBlank
  have hinner : inner = (inner.reverse.dropWhile isBlank).reverse ++
      (inner.reverse.takeWhile isBlank).reverse := by
    rw [← List.reverse_append, List.takeWhile_append_dropWhile, List.reverse_reverse]
  refine ⟨text.takeWhile isBlank, (inner.reverse.takeWhile isBlank).reverse, ?_, ?_⟩
  · show text = _ ++ ((inner.reverse.dropWhile isBlank).reverse ++ _)
    rw [← hinner, List.takeWhile_append_dropWhile]
  · intro c hc
    rcases List.mem_append.mp hc with hc | hc
    · exact Lexer.mem_takeWhile hc
    · exact Lexer.mem_takeWhile (List.mem_reverse.mp hc)

/-- Blanks in front of a text that starts with none are dropped, and nothing else. -/
theorem dropWhile_blanks {blanks text : List Char} (hblanks : ∀ c ∈ blanks, isBlank c = true)
    (htext : ∀ c ∈ text.head?, isBlank c = false) : (blanks ++ text).dropWhile isBlank = text := by
  rw [List.dropWhile_append_of_pos hblanks]
  cases text with
  | nil => rfl
  | cons c text => exact List.dropWhile_cons_of_neg (by simp [htext c rfl])

/-- Blanks around a text without any are trimmed. -/
theorem trim_append {front core back : List Char} (hblanks : ∀ c ∈ front ++ back, isBlank c = true)
    (hcore : ∀ c ∈ core, isBlank c = false) (hne : core ≠ []) :
    trim (front ++ (core ++ back)) = core := by
  obtain ⟨hfront, hback⟩ := List.forall_mem_append.mp hblanks
  have hhead : ∀ c ∈ (core ++ back).head?, isBlank c = false := by
    intro c hc
    rw [List.head?_append_of_ne_nil _ hne] at hc
    exact hcore c (List.mem_of_head? hc)
  have hlast : ∀ c ∈ core.reverse.head?, isBlank c = false := fun c hc =>
    hcore c (List.mem_reverse.mp (List.mem_of_head? hc))
  have hbehind : ∀ c ∈ back.reverse, isBlank c = true := fun c hc =>
    hback c (List.mem_reverse.mp hc)
  unfold trim
  rw [dropWhile_blanks hfront hhead, List.reverse_append, dropWhile_blanks hbehind hlast,
    List.reverse_reverse]

end Text

/-! ### Whole texts -/

/-- The characters that numbers are spelled with, underscores apart. -/
def IsSpellingChar (c : Char) : Prop :=
  (∃ d, Text.decimalValue? c = some d) ∨ c ∈ ['.', 'e', 'E', '+', '-']

/-- No character of a spelling is a blank, so trimming leaves spellings as they are. -/
theorem IsSpellingChar.not_blank {c : Char} (h : IsSpellingChar c) : Text.isBlank c = false := by
  rw [← Bool.not_eq_true]
  intro hblank
  rcases h with ⟨d, hd⟩ | hmark
  · rw [Text.decimalValue?_of_isBlank hblank] at hd
    cases hd
  · have hmarks : ∀ c ∈ ['.', 'e', 'E', '+', '-'], (!Text.isBlank c) = true :=
      List.all_eq_true.mp (by decide)
    have hmark := hmarks c hmark
    rw [hblank] at hmark
    cases hmark

namespace Decimal

/-- A sign and a scaled numeral, and the number that they spell. -/
inductive SpellsSigned : List Char → Decimal → Prop
  | signed {sign text : List Char} {negative : Bool} {coefficient : Nat} {exponent : Int}
    (hsign : SpellsSign sign negative) (hscaled : SpellsScaled text coefficient exponent) :
    SpellsSigned (sign ++ text) ⟨negative, coefficient, exponent⟩

/-- A text spells a number: it is a sign and a scaled numeral, with underscores anywhere between and
blanks around them. -/
def Spells (text : List Char) (d : Decimal) : Prop :=
  ∃ front core back, text = front ++ (core ++ back) ∧ (∀ c ∈ front ++ back, Text.isBlank c = true) ∧
    SpellsSigned (core.filter (· != '_')) d

end Decimal

/-! #### Which characters spellings have -/

theorem SpellsDigits.isSpellingChar {text : List Char} {digits : List Nat}
    (h : SpellsDigits text digits) : ∀ c ∈ text, IsSpellingChar c :=
  fun _ hc => .inl (h.exists_value hc)

theorem SpellsMantissa.isSpellingChar {text : List Char} {coefficient places : Nat}
    (h : SpellsMantissa text coefficient places) : ∀ c ∈ text, IsSpellingChar c := by
  intro c hc
  rcases h.digit_or_point hc with hdigit | rfl
  · exact .inl hdigit
  · exact .inr (by decide)

theorem SpellsSign.isSpellingChar {text : List Char} {negative : Bool} (h : SpellsSign text negative) :
    ∀ c ∈ text, IsSpellingChar c := by
  intro c hc
  cases h with
  | absent => cases hc
  | plus =>
    obtain rfl := List.mem_singleton.mp hc
    exact .inr (by decide)
  | minus =>
    obtain rfl := List.mem_singleton.mp hc
    exact .inr (by decide)

theorem SpellsExponent.isSpellingChar {text : List Char} {n : Int} (h : SpellsExponent text n) :
    ∀ c ∈ text, IsSpellingChar c := by
  cases h with
  | absent => exact nofun
  | marked hmark hinteger =>
    refine List.forall_mem_cons.mpr ⟨?_, ?_⟩
    · rcases hmark with rfl | rfl <;> exact .inr (by decide)
    · cases hinteger with
      | signed hsign hdigits _ =>
        exact List.forall_mem_append.mpr ⟨hsign.isSpellingChar, hdigits.isSpellingChar⟩

theorem SpellsScaled.isSpellingChar {text : List Char} {coefficient : Nat} {exponent : Int}
    (h : SpellsScaled text coefficient exponent) : ∀ c ∈ text, IsSpellingChar c := by
  cases h with
  | scaled hmantissa hexponent =>
    exact List.forall_mem_append.mpr ⟨hmantissa.isSpellingChar, hexponent.isSpellingChar⟩

theorem SpellsScaled.ne_nil {text : List Char} {coefficient : Nat} {exponent : Int}
    (h : SpellsScaled text coefficient exponent) : text ≠ [] := by
  cases h with
  | scaled hmantissa _ => exact List.append_ne_nil_of_left_ne_nil hmantissa.ne_nil _

/-- A scaled numeral starts with its mantissa, and so with no sign. -/
theorem SpellsScaled.head_ne_sign {text : List Char} {coefficient : Nat} {exponent : Int}
    (h : SpellsScaled text coefficient exponent) : ∀ c ∈ text.head?, c ≠ '-' ∧ c ≠ '+' := by
  intro c hc
  cases h with
  | scaled hmantissa _ =>
    rw [List.head?_append_of_ne_nil _ hmantissa.ne_nil] at hc
    have hmem := List.mem_of_head? hc
    exact ⟨hmantissa.ne_of_mem hmem rfl (by decide), hmantissa.ne_of_mem hmem rfl (by decide)⟩

namespace Decimal

theorem SpellsSigned.isSpellingChar {text : List Char} {d : Decimal} (h : SpellsSigned text d) :
    ∀ c ∈ text, IsSpellingChar c := by
  cases h with
  | signed hsign hscaled =>
    exact List.forall_mem_append.mpr ⟨hsign.isSpellingChar, hscaled.isSpellingChar⟩

theorem SpellsSigned.ne_nil {text : List Char} {d : Decimal} (h : SpellsSigned text d) :
    text ≠ [] := by
  cases h with
  | signed _ hscaled => exact List.append_ne_nil_of_right_ne_nil _ hscaled.ne_nil

/-! #### Reading -/

/-- A text is trimmed, loses its underscores and its sign, and is read within the bounds of
exponents. -/
theorem read?_eq (text : List Char) :
    read? text = (readScaled? (readSign ((Text.trim text).filter (· != '_'))).2).bind fun magnitude =>
      if magnitude.inBounds then
        some { magnitude with negative := (readSign ((Text.trim text).filter (· != '_'))).1 }
      else none :=
  rfl

/-- **The texts that are read are the spellings of numbers within bounds.** -/
theorem read?_eq_some_iff {text : List Char} {d : Decimal} :
    read? text = some d ↔ Spells text d ∧ d.inBounds = true := by
  rw [read?_eq]
  constructor
  · intro h
    obtain ⟨front, back, htext, hblanks⟩ := Text.exists_trim text
    obtain ⟨sign, hsign, hcore⟩ := readSign_cut ((Text.trim text).filter (· != '_'))
    obtain ⟨magnitude, hmagnitude, hresult⟩ := Option.bind_eq_some_iff.mp h
    obtain ⟨coefficient, exponent, hscaled, rfl⟩ := readScaled?_eq_some_iff.mp hmagnitude
    have hspelled := SpellsSigned.signed hsign hscaled
    rw [← hcore] at hspelled
    split at hresult
    · rename_i hbounds
      obtain rfl := Option.some.inj hresult
      exact ⟨⟨front, Text.trim text, back, htext, hblanks, hspelled⟩, hbounds⟩
    · cases hresult
  · rintro ⟨⟨front, core, back, rfl, hblanks, hspelled⟩, hbounds⟩
    have hne : core ≠ [] := by
      rintro rfl
      exact hspelled.ne_nil rfl
    -- Underscores are no blanks, and neither is anything else in a spelling.
    have hcore : ∀ c ∈ core, Text.isBlank c = false := by
      intro c hc
      by_cases hunderscore : c = '_'
      · rw [hunderscore]
        decide
      · exact (hspelled.isSpellingChar c
          (List.mem_filter.mpr ⟨hc, bne_iff_ne.mpr hunderscore⟩)).not_blank
    rw [Text.trim_append hblanks hcore hne]
    generalize core.filter (· != '_') = text at hspelled
    cases hspelled with
    | @signed sign text negative coefficient exponent hsign hscaled =>
      rw [readSign_append hsign hscaled.head_ne_sign,
        readScaled?_eq_some_iff.mpr ⟨coefficient, exponent, hscaled, rfl⟩]
      exact if_pos hbounds

end Decimal

end DecimalScript
