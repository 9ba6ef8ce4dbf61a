import DecimalScript.Proofs.NumberSpellings
import DecimalScript.Proofs.TokenPlaces

/-!
# Number literals are read exactly

Where a token starts with a digit, the longest run of digits and points is one literal, or the
longest run of letters and digits behind the mark of a numeral system is. The run is settled before
anything is said of its value, so that also a malformed literal is reported as a whole.

- `Lexer.Stands`: where the tokens of a text start.
- `Lexer.scanPlainNumber_eq`, `Lexer.scanRadixNumber_eq`: the values of the two kinds of literals.
- `number_literals_are_read_exactly`: both, in a source text.
-/

namespace DecimalScript

namespace Lexer

/-! ### Where tokens start -/

/-- `Stands file p text before q c rest`: reading `text` from position `p` on, the tokens `before`
have been read, and the next one starts at `q` with the character `c`, in front of `rest`. -/
inductive Stands (file : Option String) :
    Position → List Char → List Token → Position → Char → List Char → Prop
  | here {p : Position} {text rest : List Char} {gap : Nat} {c : Char}
    (hgap : gapLength text = .ok gap) (hrest : text.drop gap = c :: rest) :
    Stands file p text [] (p.advance (text.take gap)) c rest
  | behind {p q : Position} {text rest later : List Char} {gap n : Nat} {c d : Char}
    {content : TokenContent} {before : List Token} (hgap : gapLength text = .ok gap)
    (hrest : text.drop gap = c :: rest) (htoken : scanToken c rest = .ok (content, n))
    (hlater : Stands file ((p.advance (text.take gap)).advance (c :: rest.take (n - 1)))
      (rest.drop (n - 1)) before q d later) :
    Stands file p text
      (⟨content, String.ofList (c :: rest.take (n - 1)), ⟨file, p.advance (text.take gap),
        (p.advance (text.take gap)).advance (c :: rest.take (n - 1))⟩⟩ :: before) q d later

/-- What is read from the start of a token on. -/
def scanStart (file : Option String) (p : Position) (c : Char) (rest : List Char) : Scan :=
  match scanToken c rest with
  | .error slip => ⟨[], .error (failureAt file p (c :: rest) slip)⟩
  | .ok (content, n) =>
    (scanFrom file (p.advance (c :: rest.take (n - 1))) (rest.drop (n - 1))).cons
      ⟨content, String.ofList (c :: rest.take (n - 1)),
        ⟨file, p, p.advance (c :: rest.take (n - 1))⟩⟩

theorem scanFrom_eq_scanStart {text rest : List Char} {gap : Nat} {c : Char}
    (hgap : gapLength text = .ok gap) (hrest : text.drop gap = c :: rest) (file : Option String)
    (p : Position) : scanFrom file p text = scanStart file (p.advance (text.take gap)) c rest := by
  rw [scanFrom]
  simp only [hgap]
  split
  · rename_i hnil
    rw [hrest] at hnil
    cases hnil
  · rename_i hcons
    rw [hrest] at hcons
    cases hcons
    rfl

variable {file : Option String} {p q : Position} {text rest : List Char} {before : List Token}
  {c : Char}

/-- Reading goes on from where the next token starts. -/
theorem Stands.scanFrom_eq (h : Stands file p text before q c rest) :
    scanFrom file p text =
      ⟨before ++ (scanStart file q c rest).tokens, (scanStart file q c rest).ending⟩ := by
  induction h with
  | here hgap hrest => exact scanFrom_eq_scanStart hgap hrest _ _
  | behind hgap hrest htoken _ ih =>
    rw [scanFrom_eq_scanStart hgap hrest]
    unfold scanStart
    rw [htoken]
    show Scan.cons _ (scanFrom _ _ _) = _
    rw [ih]
    rfl

/-- The position is that of the text in front of the token. -/
theorem Stands.exists_front (h : Stands file p text before q c rest) :
    ∃ front, text = front ++ c :: rest ∧ q = p.advance front := by
  induction h with
  | @here p text rest gap c hgap hrest =>
    refine ⟨text.take gap, ?_, rfl⟩
    rw [← hrest, List.take_append_drop]
  | @behind p q text rest later gap n c d content before hgap hrest htoken _ ih =>
    obtain ⟨front, hfront, rfl⟩ := ih
    refine ⟨text.take gap ++ (c :: rest.take (n - 1) ++ front), ?_, ?_⟩
    · rw [List.append_assoc, List.append_assoc, ← hfront, List.cons_append, List.take_append_drop,
        ← hrest, List.take_append_drop]
    · rw [Position.advance_append, Position.advance_append]

/-! ### What is read there -/

/-- Reading ends behind some tokens with a fault in the characters of a span. -/
structure Scan.FailsBehind (scan : Scan) (before : List Token) (code : String)
    (fault : LexicalFault) (span : Span) : Prop where
  tokens : scan.tokens = before
  ending : ∃ failure, scan.ending = .error failure ∧ failure.fault = .lexical fault ∧
    failure.fault.code = code ∧ failure.span = span

/-- Behind some tokens, reading goes on with another one. -/
def Scan.GoesOnWith (scan : Scan) (before : List Token) (token : Token) : Prop :=
  ∃ later, scan.tokens = before ++ token :: later

theorem Scan.GoesOnWith.not_failsBehind {scan : Scan} {token : Token} {code : String}
    {fault : LexicalFault} {span : Span} (h : scan.GoesOnWith before token) :
    ¬ scan.FailsBehind before code fault span := by
  rintro ⟨htokens, -⟩
  obtain ⟨later, hlater⟩ := h
  rw [htokens, List.self_eq_append_right] at hlater
  cases hlater

variable {source : String}

/-- A slip in what stands at a place makes the scan fail there, with the characters that it covers.
-/
theorem Stands.failsBehind (h : Stands file .start source.toList before q c rest) {run : List Char}
    (hrun : (c :: rest).take run.length = run) {fault : LexicalFault}
    (hslip : scanToken c rest = .error ⟨fault, 0, run.length⟩) :
    (scan source file).FailsBehind before fault.code fault ⟨file, q, q.advance run⟩ := by
  have hread : scanFrom file .start source.toList =
      ⟨before, .error (failureAt file q (c :: rest) ⟨fault, 0, run.length⟩)⟩ := by
    rw [h.scanFrom_eq]
    unfold scanStart
    rw [hslip, List.append_nil]
  unfold scan
  rw [hread]
  refine ⟨rfl, _, rfl, rfl, rfl, ?_⟩
  show (⟨file, q, q.advance ((c :: rest).take run.length)⟩ : Span) = _
  rw [hrun]

/-- A token that is read at a place is the next one of the scan. -/
theorem Stands.goesOnWith (h : Stands file .start source.toList before q c rest) {run : List Char}
    (hrun : (c :: rest).take run.length = run) (hne : run ≠ []) {content : TokenContent}
    (htoken : scanToken c rest = .ok (content, run.length)) :
    (scan source file).GoesOnWith before
      ⟨content, String.ofList run, ⟨file, q, q.advance run⟩⟩ := by
  have hlexeme : c :: rest.take (run.length - 1) = run := by
    obtain ⟨d, ds, rfl⟩ := List.exists_cons_of_ne_nil hne
    rw [List.length_cons, List.take_succ_cons] at hrun
    rw [List.length_cons, Nat.add_sub_cancel]
    exact hrun
  unfold scan
  rw [h.scanFrom_eq]
  unfold scanStart
  rw [htoken]
  show ∃ later, before ++ _ :: _ = before ++ _ :: later
  rw [hlexeme]
  exact ⟨_, rfl⟩

/-! ### Literals without a mark -/

/-- The values of the digits in a text. -/
def digitsIn (text : List Char) : List Nat :=
  text.filterMap Text.decimalValue?

/-- What stands behind the first point of a text. -/
def behindPoint (text : List Char) : List Char :=
  (text.dropWhile (· != '.')).drop 1

/-- Characters of which each is a decimal digit. -/
theorem spellsDigits_digitsIn {text : List Char}
    (h : ∀ c ∈ text, (Text.decimalValue? c).isSome = true) : SpellsDigits text (digitsIn text) := by
  induction text with
  | nil => exact .nil
  | cons c text ih =>
    obtain ⟨hc, htext⟩ := List.forall_mem_cons.mp h
    obtain ⟨d, hd⟩ := Option.isSome_iff_exists.mp hc
    unfold digitsIn
    rw [List.filterMap_cons_some hd]
    exact .cons hd (ih htext)

/-- Digits with at most one point among them are a mantissa. -/
theorem spellsMantissa_digitsIn {run : List Char} (hchars : ∀ c ∈ run, isNumberChar c = true)
    (hdecimal : ∀ c ∈ run, Text.isDigit c = true → (Text.decimalValue? c).isSome = true)
    (hpoints : run.count '.' ≤ 1) (hne : digitsIn run ≠ []) :
    SpellsMantissa run (Nat.ofDigits 10 (digitsIn run).reverse)
      (digitsIn (behindPoint run)).length := by
  have hvalue : ∀ c ∈ run, c ≠ '.' → (Text.decimalValue? c).isSome = true := by
    intro c hc hpoint
    rcases Bool.or_eq_true_iff.mp (hchars c hc) with hdigit | hmark
    · exact hdecimal c hc hdigit
    · exact absurd (of_decide_eq_true hmark) hpoint
  by_cases hpoint : '.' ∈ run
  · obtain ⟨whole, fraction, rfl, hwhole⟩ := List.eq_append_cons_of_mem hpoint
    -- Behind the first point there is no other one.
    have hfraction : '.' ∉ fraction := by
      rw [List.count_append, List.count_cons_self] at hpoints
      exact List.count_eq_zero.mp (by omega)
    have hparts : digitsIn (whole ++ '.' :: fraction) = digitsIn whole ++ digitsIn fraction := by
      unfold digitsIn
      rw [List.filterMap_append, List.filterMap_cons_none (by rfl)]
    have hbehind : behindPoint (whole ++ '.' :: fraction) = fraction :=
      (Decimal.takeWhile_whole hwhole fraction).2
    rw [hparts] at hne
    rw [hparts, hbehind]
    refine .pointed (spellsDigits_digitsIn fun c hc => ?_) (spellsDigits_digitsIn fun c hc => ?_) hne
    · exact hvalue c (List.mem_append_left _ hc) fun h => hwhole (h ▸ hc)
    · exact hvalue c (List.mem_append_right _ (List.mem_cons_of_mem _ hc)) fun h =>
        hfraction (h ▸ hc)
  · have hall : ∀ c ∈ run, c ≠ '.' := by
      rintro c hc rfl
      exact hpoint hc
    have hbehind : behindPoint run = [] := by
      unfold behindPoint
      rw [List.dropWhile_eq_nil_iff.mpr fun c hc => bne_iff_ne.mpr (hall c hc)]
      rfl
    rw [hbehind]
    exact .whole (spellsDigits_digitsIn fun c hc => hvalue c hc (hall c hc)) hne

/-- Two points, or one at the end, make a literal malformed, whatever its digits are. -/
theorem scanPlainNumber_malformed {text run : List Char} (hrun : text.takeWhile isNumberChar = run)
    (h : 2 ≤ run.count '.' ∨ run.getLast? = some '.') :
    scanPlainNumber text = .error ⟨.invalidNumber (String.ofList run), 0, run.length⟩ := by
  unfold scanPlainNumber
  dsimp only
  rw [hrun, if_pos (by simpa using h)]

/-- Any other literal is read as its digits, with as many places as there are behind the point. -/
theorem scanPlainNumber_eq {text run : List Char} (hrun : text.takeWhile isNumberChar = run)
    (hdecimal : ∀ c ∈ run, Text.isDigit c = true → (Text.decimalValue? c).isSome = true)
    (hne : digitsIn run ≠ []) (h : ¬ (2 ≤ run.count '.' ∨ run.getLast? = some '.')) :
    scanPlainNumber text = .ok (.number ⟨false, Nat.ofDigits 10 (digitsIn run).reverse,
      -((digitsIn (behindPoint run)).length : Int)⟩, run.length) := by
  have hchars : ∀ c ∈ run, isNumberChar c = true := fun c hc => mem_takeWhile (hrun ▸ hc)
  have hpoints : run.count '.' ≤ 1 := by
    rw [not_or] at h
    omega
  have hread := Decimal.readUnsigned?_eq_some_iff.mpr
    ⟨_, _, spellsMantissa_digitsIn hchars hdecimal hpoints hne, rfl⟩
  unfold scanPlainNumber
  dsimp only
  rw [hrun, if_neg (by simpa using h), hread]

/-! ### Literals of a numeral system -/

namespace Radix

/-- The letters that mark a numeral system. -/
def letters : Radix → List Char
  | hexadecimal => ['x', 'X']
  | octal => ['o', 'O']
  | binary => ['b', 'B']

/-- The digits of the numeral systems, with small letters. -/
def smallDigits : List Char :=
  ['0', '1', '2', '3', '4', '5', '6', '7', '8', '9', 'a', 'b', 'c', 'd', 'e', 'f']

/-- The digits of the numeral systems, with large letters. -/
def largeDigits : List Char :=
  ['0', '1', '2', '3', '4', '5', '6', '7', '8', '9', 'A', 'B', 'C', 'D', 'E', 'F']

/-- A character is the digit of a value in a numeral system. -/
def IsDigit (radix : Radix) (c : Char) (v : Nat) : Prop :=
  v < radix.base ∧ (smallDigits[v]? = some c ∨ largeDigits[v]? = some c)

theorem ofLetter?_eq_some_iff {c : Char} {radix : Radix} :
    ofLetter? c = some radix ↔ c ∈ radix.letters := by
  constructor
  · intro h
    unfold ofLetter? at h
    split at h <;> cases h <;> decide
  · intro h
    cases radix <;> simp only [letters, List.mem_cons, List.not_mem_nil, or_false] at h <;>
      rcases h with rfl | rfl <;> rfl

/-- The value of a digit in the largest numeral system. -/
def largestValue? (c : Char) : Option Nat :=
  if c.isDigit then some (c.toNat - 48)
  else if 'a' ≤ c ∧ c ≤ 'f' then some (c.toNat - 87)
  else if 'A' ≤ c ∧ c ≤ 'F' then some (c.toNat - 55)
  else none

/-- What has a value is the digit of this value. -/
theorem digit_of_largestValue? {c : Char} {v : Nat} (h : largestValue? c = some v) :
    smallDigits[v]? = some c ∨ largeDigits[v]? = some c := by
  have hrange : ∀ {a b : Char}, a ≤ c ∧ c ≤ b → a.toNat ≤ c.toNat ∧ c.toNat ≤ b.toNat := by
    intro a b h
    exact ⟨UInt32.le_iff_toNat_le.mp h.1, UInt32.le_iff_toNat_le.mp h.2⟩
  -- A character at a distance from the first one of its range is known by the distance.
  have hchar : ∀ {first : Nat}, c.toNat = first + v → c = Char.ofNat (first + v) := by
    intro first h
    rw [← h, Char.ofNat_toNat]
  unfold largestValue? at h
  split at h
  · rename_i hdigit
    have hbounds : 48 ≤ c.toNat ∧ c.toNat ≤ 57 := Char.isDigit_iff_toNat.mp hdigit
    have hv : c.toNat - 48 = v := Option.some.inj h
    have hdigits : ∀ v < 10, smallDigits[v]? = some (Char.ofNat (48 + v)) := by decide
    left
    rw [hchar (by omega : c.toNat = 48 + v)]
    exact hdigits v (by omega)
  · split at h
    · rename_i hsmall
      have hbounds : 97 ≤ c.toNat ∧ c.toNat ≤ 102 := hrange hsmall
      have hv : c.toNat - 87 = v := Option.some.inj h
      have hdigits : ∀ v < 16, 10 ≤ v → smallDigits[v]? = some (Char.ofNat (87 + v)) := by decide
      left
      rw [hchar (by omega : c.toNat = 87 + v)]
      exact hdigits v (by omega) (by omega)
    · split at h
      · rename_i hlarge
        have hbounds : 65 ≤ c.toNat ∧ c.toNat ≤ 70 := hrange hlarge
        have hv : c.toNat - 55 = v := Option.some.inj h
        have hdigits : ∀ v < 16, 10 ≤ v → largeDigits[v]? = some (Char.ofNat (55 + v)) := by decide
        right
        rw [hchar (by omega : c.toNat = 55 + v)]
        exact hdigits v (by omega) (by omega)
      · cases h

theorem largestValue?_of_digit {c : Char} {v : Nat}
    (h : smallDigits[v]? = some c ∨ largeDigits[v]? = some c) : largestValue? c = some v := by
  have hsmall : ∀ v, largestValue? (smallDigits.get v) = some v.1 := by decide
  have hlarge : ∀ v, largestValue? (largeDigits.get v) = some v.1 := by decide
  rcases h with h | h
  · obtain ⟨hv, rfl⟩ := List.getElem?_eq_some_iff.mp h
    exact hsmall ⟨v, hv⟩
  · obtain ⟨hv, rfl⟩ := List.getElem?_eq_some_iff.mp h
    exact hlarge ⟨v, hv⟩

theorem digitValue?_eq_some_iff {radix : Radix} {c : Char} {v : Nat} :
    radix.digitValue? c = some v ↔ radix.IsDigit c v := by
  show (largestValue? c).filter (· < radix.base) = some v ↔ _
  rw [Option.filter_eq_some_iff, decide_eq_true_eq]
  constructor
  · rintro ⟨hvalue, hbase⟩
    exact ⟨hbase, digit_of_largestValue? hvalue⟩
  · rintro ⟨hbase, hdigit⟩
    exact ⟨largestValue?_of_digit hdigit, hbase⟩

end Radix

variable {radix : Radix} {letter : Char} {later run : List Char}

/-- No digit, or a character that is no digit of the system, makes a literal malformed. -/
theorem scanRadixNumber_malformed (hrun : later.takeWhile Text.isAlphanumeric = run)
    (h : run = [] ∨ ∃ d ∈ run, ∀ v, ¬ radix.IsDigit d v) :
    scanRadixNumber radix letter later = .error ⟨.invalidRadixNumber radix.name
      (String.ofList ('0' :: letter :: run)), 0, run.length + 2⟩ := by
  unfold scanRadixNumber
  dsimp only
  rw [hrun]
  rcases h with rfl | ⟨d, hmem, hd⟩
  · rfl
  · have hnone : radix.digitValue? d = none :=
      Option.eq_none_iff_forall_ne_some.mpr fun v hv => hd v (Radix.digitValue?_eq_some_iff.mp hv)
    rw [mapM_eq_none_iff.mpr ⟨d, hmem, hnone⟩]

/-- Any other literal is read as its digits. -/
theorem scanRadixNumber_eq (hrun : later.takeWhile Text.isAlphanumeric = run)
    (h : ¬ (run = [] ∨ ∃ d ∈ run, ∀ v, ¬ radix.IsDigit d v)) :
    ∃ digits, List.Forall₂ radix.IsDigit run digits ∧
      scanRadixNumber radix letter later =
        .ok (.number (.ofNat (Nat.ofDigits radix.base digits.reverse)), run.length + 2) := by
  rw [not_or] at h
  obtain ⟨hne, hdigits⟩ := h
  -- `mapM` stops at the first character that is no digit, which the hypothesis rules out.
  cases hvalues : run.mapM radix.digitValue? with
  | none =>
    obtain ⟨d, hmem, hd⟩ := mapM_eq_none_iff.mp hvalues
    refine absurd ⟨d, hmem, fun v hv => ?_⟩ hdigits
    rw [Radix.digitValue?_eq_some_iff.mpr hv] at hd
    cases hd
  | some digits =>
    have hspelled : List.Forall₂ radix.IsDigit run digits :=
      (mapM_eq_some_iff.mp hvalues).imp fun _ _ => Radix.digitValue?_eq_some_iff.mp
    refine ⟨digits, hspelled, ?_⟩
    unfold scanRadixNumber
    dsimp only
    rw [hrun, hvalues]
    cases hspelled with
    | nil => exact absurd rfl hne
    | cons _ _ =>
      show Except.ok (TokenContent.number (.ofNat (Numeral.value radix.base _)), _) = _
      rw [Numeral.value_eq_ofDigits]

/-! ### Both kinds -/

/-- A zero with the letter of a numeral system starts a number of that system. -/
theorem scanToken_marked (hletter : letter ∈ radix.letters) :
    scanToken '0' (letter :: later) = scanRadixNumber radix letter later := by
  rw [scanToken_digit (by decide)]
  simp only [scanNumber, Radix.ofLetter?_eq_some_iff.mpr hletter]

theorem scanToken_unmarked (hdigit : Text.isDigit c = true)
    (hmark : ∀ radix : Radix, ∀ letter ∈ radix.letters, ∀ later,
      c :: rest ≠ '0' :: letter :: later) :
    scanToken c rest = scanPlainNumber (c :: rest) := by
  rw [scanToken_digit hdigit]
  unfold scanNumber
  split
  · rename_i letter later htext
    cases hletter : Radix.ofLetter? letter with
    | none => rfl
    | some radix =>
      exact absurd htext (hmark radix letter (Radix.ofLetter?_eq_some_iff.mp hletter) later)
  · rfl

/-- Tokens are read nowhere but where they start. -/
theorem exists_stands (file : Option String) (p : Position) (text : List Char) (before : List Token)
    {token : Token} {later : List Token}
    (h : (scanFrom file p text).tokens = before ++ token :: later) :
    ∃ c rest, Stands file p text before token.span.start c rest := by
  fun_induction scanFrom file p text generalizing before with
  -- Only where a token is read is there one to be found.
  | case1 => exact absurd h.symm (List.append_ne_nil_of_right_ne_nil _ (List.cons_ne_nil _ _))
  | case2 => exact absurd h.symm (List.append_ne_nil_of_right_ne_nil _ (List.cons_ne_nil _ _))
  | case3 => exact absurd h.symm (List.append_ne_nil_of_right_ne_nil _ (List.cons_ne_nil _ _))
  | case4 p text gap hgap start c rest hdrop content n hscan lexeme stop first ih =>
    cases before with
    | nil =>
      obtain ⟨rfl, -⟩ := List.cons.inj h
      exact ⟨c, rest, .here hgap hdrop⟩
    | cons token' before =>
      obtain ⟨rfl, hlater⟩ := List.cons.inj h
      obtain ⟨d, later, hstands⟩ := ih _ hlater
      exact ⟨d, later, .behind hgap hdrop hscan hstands⟩

end Lexer

open Lexer in
/-- **Number literals are read exactly.** Let a token of a source text start with a digit.

Without a mark of a numeral system behind a leading zero, the longest run of digits and points is
the literal. It is refused as a whole if it has more than one point or ends in one. Otherwise it
stands for its digits, with as many decimal places as there are digits behind the point.

With a mark, the literal is the mark and the longest run of letters and digits behind it. It is
refused as a whole if the run is empty or has a character that is no digit of the system. Otherwise
it stands for its digits to the base of the system, without decimal places.

A script may have letters and digits of any script, and digits of any script stand for their decimal
values. -/
theorem number_literals_are_read_exactly {file : Option String} {source : String}
    {before : List Token} {q : Position} {c : Char} {rest : List Char}
    (hstands : Stands file .start source.toList before q c rest) (hdigit : Text.isDigit c = true) :
    (∃ front, source.toList = front ++ c :: rest ∧ q = .advance .start front) ∧
    ((∀ radix : Radix, ∀ letter ∈ radix.letters, ∀ later, c :: rest ≠ '0' :: letter :: later) →
      ∀ run, run = (c :: rest).takeWhile isNumberChar →
      (∀ d ∈ run, Text.isDigit d = true → (Text.decimalValue? d).isSome = true) →
      let place : Span := ⟨file, q, q.advance run⟩
      let malformed := 2 ≤ run.count '.' ∨ run.getLast? = some '.'
      ((scan source file).FailsBehind before "E006" (.invalidNumber (String.ofList run)) place ↔
        malformed) ∧
      (¬ malformed → (scan source file).GoesOnWith before
        ⟨.number ⟨false, Nat.ofDigits 10 (digitsIn run).reverse,
          -((digitsIn (behindPoint run)).length : Int)⟩, String.ofList run, place⟩)) ∧
    (∀ radix : Radix, ∀ letter ∈ radix.letters, ∀ later, c :: rest = '0' :: letter :: later →
      ∀ run, run = later.takeWhile Text.isAlphanumeric →
      let literal := '0' :: letter :: run
      let place : Span := ⟨file, q, q.advance literal⟩
      let malformed := run = [] ∨ ∃ d ∈ run, ∀ v, ¬ radix.IsDigit d v
      ((scan source file).FailsBehind before "E007"
          (.invalidRadixNumber radix.name (String.ofList literal)) place ↔ malformed) ∧
      (¬ malformed → ∃ digits, List.Forall₂ radix.IsDigit run digits ∧
        (scan source file).GoesOnWith before
          ⟨.number (.ofNat (Nat.ofDigits radix.base digits.reverse)), String.ofList literal,
            place⟩)) := by
  refine ⟨hstands.exists_front, ?_, ?_⟩
  · intro hmark run hrun hdecimal place malformed
    have htoken := scanToken_unmarked hdigit hmark
    have htake : (c :: rest).take run.length = run := by
      rw [hrun, take_takeWhile]
    -- The first character is a digit, so there is a run and it has a value.
    have hmem : c ∈ run := by
      rw [hrun, List.takeWhile_cons_of_pos (by simp [isNumberChar, hdigit])]
      exact List.mem_cons_self
    have hne : digitsIn run ≠ [] := by
      obtain ⟨v, hv⟩ := Option.isSome_iff_exists.mp (hdecimal c hmem hdigit)
      exact List.ne_nil_of_mem (List.mem_filterMap.mpr ⟨c, hmem, hv⟩)
    by_cases h : malformed
    · have hfails := hstands.failsBehind htake
        (htoken.trans (scanPlainNumber_malformed hrun.symm h))
      exact ⟨iff_of_true hfails h, absurd h⟩
    · have hgoes := hstands.goesOnWith htake (List.ne_nil_of_mem hmem)
        (htoken.trans (scanPlainNumber_eq hrun.symm hdecimal hne h))
      exact ⟨iff_of_false hgoes.not_failsBehind h, fun _ => hgoes⟩
  · rintro radix letter hletter later ⟨rfl, rfl⟩ run hrun literal place malformed
    have htoken : scanToken '0' (letter :: later) = scanRadixNumber radix letter later :=
      scanToken_marked hletter
    -- The mark belongs to the literal in front of the run.
    have htake : ('0' :: letter :: later).take literal.length = literal := by
      show '0' :: letter :: later.take run.length = _
      rw [hrun, take_takeWhile, ← hrun]
    by_cases h : malformed
    · have hfails := hstands.failsBehind htake
        (htoken.trans (scanRadixNumber_malformed hrun.symm h))
      exact ⟨iff_of_true hfails h, absurd h⟩
    · obtain ⟨digits, hdigits, hread⟩ := scanRadixNumber_eq hrun.symm h
      have hgoes := hstands.goesOnWith htake (List.cons_ne_nil _ _) (htoken.trans hread)
      exact ⟨iff_of_false hgoes.not_failsBehind h, fun _ => ⟨digits, hdigits, hgoes⟩⟩

open Lexer in
/-- Three literals in a row: digits of both sizes behind a mark, leading and last zeros, and two
points of which one is at the end. -/
theorem number_literals_are_read_exactly_in_row :
    let hexadecimal : Token := ⟨.number (.ofNat 255), "0xfF", ⟨none, ⟨1, 1, 0⟩, ⟨1, 5, 4⟩⟩⟩
    let plain : Token := ⟨.number ⟨false, 750, -2⟩, "007.50", ⟨none, ⟨1, 6, 5⟩, ⟨1, 12, 11⟩⟩⟩
    let scan := scan "0xfF 007.50 1.2." none
    scan.GoesOnWith [] hexadecimal ∧ scan.GoesOnWith [hexadecimal] plain ∧
      scan.FailsBehind [hexadecimal, plain] "E006" (.invalidNumber "1.2.")
        ⟨none, ⟨1, 13, 12⟩, ⟨1, 17, 16⟩⟩ := by
  intro hexadecimal plain scan
  have hstart : gapLength "0xfF 007.50 1.2.".toList = .ok 0 := by decide +kernel
  have hfirst : scanToken '0' "xfF 007.50 1.2.".toList = .ok (.number (.ofNat 255), 4) := by
    rfl
  have hblank : gapLength " 007.50 1.2.".toList = .ok 1 := by decide +kernel
  have hsecond : scanToken '0' "07.50 1.2.".toList = .ok (.number ⟨false, 750, -2⟩, 6) := by
    rfl
  have hspace : gapLength " 1.2.".toList = .ok 1 := by decide +kernel
  have hstands : Stands none .start "0xfF 007.50 1.2.".toList [] .start '0'
      "xfF 007.50 1.2.".toList := .here hstart rfl
  have hbehind : Stands none .start "0xfF 007.50 1.2.".toList [hexadecimal] ⟨1, 6, 5⟩ '0'
      "07.50 1.2.".toList := .behind hstart rfl hfirst (.here hblank rfl)
  have hlast : Stands none .start "0xfF 007.50 1.2.".toList [hexadecimal, plain] ⟨1, 13, 12⟩ '1'
      ".2.".toList := .behind hstart rfl hfirst (.behind hblank rfl hsecond (.here hspace rfl))
  -- That every digit has a value is checked by evaluation, over the few characters of the text.
  have hdecimal : ∀ {text : List Char},
      (text.all fun d => !Text.isDigit d || (Text.decimalValue? d).isSome) = true →
      ∀ d ∈ text, Text.isDigit d = true → (Text.decimalValue? d).isSome = true := by
    intro text hall d hd hdigit
    have hvalue := List.all_eq_true.mp hall d hd
    rwa [hdigit] at hvalue
  refine ⟨?_, ?_, ?_⟩
  · have hsmall : Radix.hexadecimal.IsDigit 'f' 15 := ⟨by decide, .inl rfl⟩
    have hlarge : Radix.hexadecimal.IsDigit 'F' 15 := ⟨by decide, .inr rfl⟩
    have hmarked := (number_literals_are_read_exactly hstands (by decide)).2.2 .hexadecimal 'x'
      (by decide) _ rfl "fF".toList (by decide)
    obtain ⟨digits, hdigits, hgoes⟩ := hmarked.2 (by simpa using ⟨⟨15, hsmall⟩, 15, hlarge⟩)
    have hread : "fF".toList.mapM Radix.hexadecimal.digitValue? = some digits :=
      mapM_eq_some_iff.mpr (hdigits.imp fun _ _ => Radix.digitValue?_eq_some_iff.mpr)
    obtain rfl : [15, 15] = digits := Option.some.inj hread
    exact hgoes
  · have hmark : ∀ radix : Radix, ∀ letter ∈ radix.letters, ∀ later,
        '0' :: "07.50 1.2.".toList ≠ '0' :: letter :: later := by
      rintro radix letter hletter later heq
      cases heq
      cases radix <;> revert hletter <;> decide
    exact ((number_literals_are_read_exactly hbehind (by decide)).2.1 hmark "007.50".toList
      (by decide) (hdecimal (by decide))).2 (by decide)
  · exact ((number_literals_are_read_exactly hlast (by decide)).2.1 nofun "1.2.".toList
      (by decide) (hdecimal (by decide))).1.mpr (by decide)

end DecimalScript
