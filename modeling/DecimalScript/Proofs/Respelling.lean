import DecimalScript.Proofs.StringSpellings

/-!
# Spellings that read back

A token is read the same way wherever its spelling stands, provided that what comes next does not go
on with it (`Lexer.ends`). `Lexer.Reads` says so for one spelling; it holds of marks, reserved words
and quoted strings by what they are, and of numbers and names because they were read before: what is
read as a number or a name in one place reads back in every other.
-/

namespace DecimalScript.Lexer

/-! ### Runs of characters -/

section Runs

variable {α : Type} {p : α → Bool} {run : List α}

/-- The longest run of a class is the same in front of anything that does not go on with it. -/
theorem takeWhile_run_append (rest : List α) (hrun : ∀ a ∈ run, p a = true)
    (hrest : ∀ a ∈ rest.head?, p a = false) : (run ++ rest).takeWhile p = run := by
  rw [List.takeWhile_append_of_pos hrun]
  cases rest with
  | nil => simp
  | cons a rest => simp [hrest a rfl]

theorem mem_takeWhile {text : List α} {a : α} (h : a ∈ text.takeWhile p) : p a = true :=
  List.all_eq_true.mp List.all_takeWhile a h

theorem takeWhile_takeWhile (text : List α) :
    (text.takeWhile p).takeWhile p = text.takeWhile p := by
  have hempty := takeWhile_run_append [] (fun _ (h : _ ∈ text.takeWhile p) => mem_takeWhile h) nofun
  rwa [List.append_nil] at hempty

/-- A run at the start of a text is as much of the text as it is long. -/
theorem take_takeWhile (text : List α) : text.take (text.takeWhile p).length = text.takeWhile p :=
  (List.prefix_iff_eq_take.mp (List.takeWhile_prefix p)).symm

end Runs

/-! ### Spellings -/

/-- A character that can stand directly behind a mark without going on with it. -/
def markEnds : Mark → Char → Bool
  | .slash, next => next != '/' && next != '*'
  | .assign, next | .not, next | .lt, next | .gt, next => next != '='
  | _, _ => true

/-- A character that can stand directly behind a token without going on with it. -/
def ends : TokenContent → Char → Bool
  | .number _, next => !Text.isAlphanumeric next && next != '.'
  | .string _, _ => true
  | .name _, next | .word _, next => !isNameChar next
  | .mark m, next => markEnds m next

/-- A spelling of a token: in front of anything that does not go on with it, it starts no gap and is
read as that token. -/
def Reads (content : TokenContent) (lexeme : List Char) : Prop :=
  ∃ c cs, lexeme = c :: cs ∧ ∀ rest : List Char, (∀ next ∈ rest.head?, ends content next = true) →
    gapLength (c :: (cs ++ rest)) = .ok 0 ∧ scanToken c (cs ++ rest) = .ok (content, cs.length + 1)

/-- A blank goes on with no token. -/
theorem ends_of_isGapBlank (content : TokenContent) {c : Char} (hc : isGapBlank c = true) :
    ends content c = true := by
  simp only [isGapBlank, Bool.or_eq_true, decide_eq_true_eq] at hc
  rcases hc with ((rfl | rfl) | rfl) | rfl
  all_goals
    cases content with
    | mark m => cases m <;> rfl
    | _ => rfl

/-- A text that starts with neither a blank nor a comment has no gap in front. -/
theorem gapLength_eq_zero {c : Char} {rest : List Char} (hblank : isGapBlank c = false)
    (hcomment : c = '/' → ∀ d ∈ rest.head?, d ≠ '/' ∧ d ≠ '*') :
    gapLength (c :: rest) = .ok 0 := by
  unfold gapLength
  simp only [hblank, Bool.false_eq_true, if_false]
  split
  · exact absurd rfl (hcomment rfl '/' rfl).1
  · exact absurd rfl (hcomment rfl '*' rfl).2
  · rfl

/-- Nothing that starts a gap is in a class that a token starts with. -/
theorem starts_no_gap {p : Char → Bool} {c : Char} (hc : p c = true)
    (hp : p ' ' = false ∧ p '\t' = false ∧ p '\r' = false ∧ p '\n' = false ∧ p '/' = false) :
    isGapBlank c = false ∧ c ≠ '/' := by
  obtain ⟨hblank, htab, hreturn, hline, hslash⟩ := hp
  have hne : ∀ {d : Char}, p d = false → c ≠ d := by
    rintro d hd rfl
    rw [hd] at hc
    cases hc
  refine ⟨?_, hne hslash⟩
  simp [isGapBlank, hne hblank, hne htab, hne hreturn, hne hline]

/-! ### What a token is read from -/

theorem scanName_content {text : List Char} {content : TokenContent} {n : Nat}
    (h : scanName text = (content, n)) :
    (∃ w, content = .word w) ∨ ∃ name, content = .name name := by
  unfold scanName at h
  simp only at h
  split at h <;> cases h
  · exact .inl ⟨_, rfl⟩
  · exact .inr ⟨_, rfl⟩

theorem scanMark_content {c : Char} {next : Option Char} {content : TokenContent} {n : Nat}
    (h : scanMark c next = .ok (content, n)) : ∃ m, content = .mark m := by
  unfold scanMark at h
  split at h
  · cases h
    exact ⟨_, rfl⟩
  · split at h
    · cases h
      exact ⟨_, rfl⟩
    · split at h <;> cases h

/-- Strings are read from quotes, numbers from digits and names from letters; everything else is a
mark. -/
theorem scanToken_cases {c : Char} {rest : List Char} {content : TokenContent} {n : Nat}
    (h : scanToken c rest = .ok (content, n)) :
    (c ∈ quotes ∧ scanQuoted c rest = .ok (content, n)) ∨
      (Text.isDigit c = true ∧ scanNumber (c :: rest) = .ok (content, n)) ∨
      (Text.isDigit c = false ∧ isNameStart c = true ∧ scanName (c :: rest) = (content, n)) ∨
      scanMark c rest.head? = .ok (content, n) := by
  unfold scanToken at h
  split at h
  · next hquote => exact .inl ⟨mem_quotes_iff.mpr (by simpa using hquote), h⟩
  · by_cases hdigit : Text.isDigit c = true
    · rw [if_pos hdigit] at h
      exact .inr (.inl ⟨hdigit, h⟩)
    · rw [if_neg hdigit] at h
      by_cases hstart : isNameStart c = true
      · rw [if_pos hstart] at h
        exact .inr (.inr (.inl ⟨Bool.eq_false_iff.mpr hdigit, hstart, Except.ok.inj h⟩))
      · rw [if_neg hstart] at h
        exact .inr (.inr (.inr h))

/-! ### Names and reserved words -/

theorem isNameChar_of_isNameStart {c : Char} (h : isNameStart c = true) : isNameChar c = true := by
  unfold isNameStart at h
  unfold isNameChar Text.isAlphanumeric
  rcases Bool.or_eq_true_iff.mp h with hletter | hline
  · simp [hletter]
  · simp [hline]

/-- A name starts with no quote and no digit, which are looked for first. -/
theorem scanToken_name_start {c : Char} (hstart : isNameStart c = true)
    (hdigit : Text.isDigit c = false) (rest : List Char) : scanToken c rest = .ok (scanName (c :: rest)) := by
  have hquote : ¬ (c = '\x22' || c = '\x27') = true := by
    intro h
    rcases Bool.or_eq_true_iff.mp h with h | h <;> rw [of_decide_eq_true h] at hstart <;>
      revert hstart <;> decide
  unfold scanToken
  rw [if_neg hquote, if_neg (by simp [hdigit]), if_pos hstart]

/-- Only the run of name characters matters to a name. -/
theorem scanName_congr {text text' : List Char}
    (h : text.takeWhile isNameChar = text'.takeWhile isNameChar) : scanName text = scanName text' := by
  unfold scanName
  rw [h]

/-- A name that is read is the whole run. -/
theorem scanName_eq_name {text : List Char} {name : String} {n : Nat}
    (h : scanName text = (.name name, n)) :
    name.toList = text.takeWhile isNameChar ∧ n = (text.takeWhile isNameChar).length := by
  unfold scanName at h
  simp only at h
  split at h
  · cases h
  · cases h
    exact ⟨String.toList_ofList, rfl⟩

/-- What is read as a run of name characters reads back. -/
theorem reads_name {c : Char} {cs : List Char} {content : TokenContent}
    (hstart : isNameStart c = true) (hdigit : Text.isDigit c = false)
    (hchars : ∀ d ∈ cs, isNameChar d = true)
    (hends : ∀ d, ends content d = true → isNameChar d = false)
    (hcontent : scanName (c :: cs) = (content, cs.length + 1)) : Reads content (c :: cs) := by
  refine ⟨c, cs, rfl, fun rest hrest => ?_⟩
  have hall : ∀ d ∈ c :: cs, isNameChar d = true := by
    rintro d (_ | ⟨_, hd⟩)
    · exact isNameChar_of_isNameStart hstart
    · exact hchars d hd
  have hrun : ((c :: cs) ++ rest).takeWhile isNameChar = c :: cs :=
    takeWhile_run_append rest hall fun d hd => hends d (hrest d hd)
  have hwhole : (c :: cs).takeWhile isNameChar = c :: cs := by
    have hempty := takeWhile_run_append [] hall nofun
    rwa [List.append_nil] at hempty
  obtain ⟨hblank, hslash⟩ := starts_no_gap hstart (by decide)
  refine ⟨gapLength_eq_zero hblank fun h => absurd h hslash, ?_⟩
  rw [scanToken_name_start hstart hdigit, ← hcontent]
  exact congrArg _ (scanName_congr (hrun.trans hwhole.symm))

theorem reads_word (w : Word) : Reads (.word w) w.text.toList := by
  cases w <;> exact reads_name (by decide) (by decide) (List.all_eq_true.mp (by decide))
    (by simp [ends]) (by decide)

theorem scanNumber_content {text : List Char} {content : TokenContent} {n : Nat}
    (h : scanNumber text = .ok (content, n)) : ∃ value, content = .number value := by
  -- A leading zero without a radix letter is a plain number too, so this case comes up twice.
  have hplain : ∀ {text : List Char}, scanPlainNumber text = .ok (content, n) →
      ∃ value, content = .number value := by
    intro text h
    unfold scanPlainNumber at h
    simp only at h
    split at h
    · cases h
    · split at h <;> cases h
      exact ⟨_, rfl⟩
  unfold scanNumber at h
  split at h
  · split at h
    · unfold scanRadixNumber at h
      simp only at h
      split at h <;> cases h
      exact ⟨_, rfl⟩
    · exact hplain h
  · exact hplain h

/-- A name reads back: its spelling is the name itself. -/
theorem reads_of_name {c : Char} {rest : List Char} {name : String} {n : Nat}
    (h : scanToken c rest = .ok (.name name, n)) :
    c :: rest.take (n - 1) = name.toList ∧ Reads (.name name) name.toList := by
  rcases scanToken_cases h with ⟨-, hstring⟩ | ⟨-, hnumber⟩ | ⟨hdigit, hstart, hname⟩ | hmark
  · obtain ⟨_, _, _, _, hcontent⟩ := exists_spells_of_scanQuoted hstring
    cases hcontent
  · obtain ⟨_, hcontent⟩ := scanNumber_content hnumber
    cases hcontent
  · have hrun : (c :: rest).takeWhile isNameChar = c :: rest.takeWhile isNameChar :=
      List.takeWhile_cons_of_pos (isNameChar_of_isNameStart hstart)
    obtain ⟨hspelling, rfl⟩ := scanName_eq_name hname
    rw [hrun] at hspelling hname
    refine ⟨by rw [hspelling, hrun]; simp [take_takeWhile], ?_⟩
    rw [hspelling]
    refine reads_name hstart hdigit (fun d hd => mem_takeWhile hd) (by simp [ends]) ?_
    refine (scanName_congr ?_).trans hname
    rw [← hrun, takeWhile_takeWhile]
  · obtain ⟨_, hcontent⟩ := scanMark_content hmark
    cases hcontent

/-! ### Numbers -/

/-- The letter of a radix mark is alphanumeric, and no digit or point. -/
theorem radix_letter {c : Char} {radix : Radix} (h : Radix.ofLetter? c = some radix) :
    Text.isAlphanumeric c = true ∧ isNumberChar c = false := by
  unfold Radix.ofLetter? at h
  split at h <;> first | decide | cases h

theorem isAlphanumeric_of_isDigit {c : Char} (h : Text.isDigit c = true) :
    Text.isAlphanumeric c = true := by
  simp [Text.isAlphanumeric, h]

theorem scanToken_digit {c : Char} (hdigit : Text.isDigit c = true) (rest : List Char) :
    scanToken c rest = scanNumber (c :: rest) := by
  have hquote : ¬ (c = '\x22' || c = '\x27') = true := by
    intro h
    rcases Bool.or_eq_true_iff.mp h with h | h <;> rw [of_decide_eq_true h] at hdigit <;>
      revert hdigit <;> decide
  unfold scanToken
  rw [if_neg hquote, if_pos hdigit]

/-- Without a radix mark behind the first character, a number is digits and points. -/
theorem scanNumber_eq_plain {c : Char} {cs : List Char}
    (h : ∀ d ∈ cs.head?, Radix.ofLetter? d = none) :
    scanNumber (c :: cs) = scanPlainNumber (c :: cs) := by
  unfold scanNumber
  split
  · next letter rest heq =>
    cases heq
    simp [h letter rfl]
  · rfl

theorem scanPlainNumber_congr {text text' : List Char}
    (h : text.takeWhile isNumberChar = text'.takeWhile isNumberChar) :
    scanPlainNumber text = scanPlainNumber text' := by
  unfold scanPlainNumber
  rw [h]

theorem scanPlainNumber_length {text : List Char} {content : TokenContent} {n : Nat}
    (h : scanPlainNumber text = .ok (content, n)) :
    n = (text.takeWhile isNumberChar).length := by
  unfold scanPlainNumber at h
  simp only at h
  split at h
  · cases h
  · split at h <;> cases h
    rfl

/-- What ends a number does not go on with it. -/
theorem isNumberChar_of_ends {value : Decimal} {d : Char} (h : ends (.number value) d = true) :
    isNumberChar d = false := by
  simp only [ends, Bool.and_eq_true, Bool.not_eq_true', bne_iff_ne] at h
  obtain ⟨hletter, hpoint⟩ := h
  cases hdigit : Text.isDigit d with
  | false => simp [isNumberChar, hdigit, hpoint]
  | true =>
    rw [isAlphanumeric_of_isDigit hdigit] at hletter
    cases hletter

/-- Without a radix mark, a number reads back. -/
theorem reads_plain {c : Char} {rest : List Char} {value : Decimal} {n : Nat}
    (hdigit : Text.isDigit c = true)
    (h : scanPlainNumber (c :: rest) = .ok (.number value, n)) :
    Reads (.number value) (c :: rest.take (n - 1)) := by
  have hrun : (c :: rest).takeWhile isNumberChar = c :: rest.takeWhile isNumberChar :=
    List.takeWhile_cons_of_pos (by simp [isNumberChar, hdigit])
  obtain rfl := scanPlainNumber_length h
  rw [hrun] at h ⊢
  refine ⟨c, rest.takeWhile isNumberChar, by simp [take_takeWhile], fun more hmore => ?_⟩
  -- Behind the first character stand digits and points, and then nothing alphanumeric.
  have hletter : ∀ d ∈ (rest.takeWhile isNumberChar ++ more).head?, Radix.ofLetter? d = none := by
    intro d hd
    cases hradix : Radix.ofLetter? d with
    | none => rfl
    | some radix =>
      obtain ⟨hletter, hnumber⟩ := radix_letter hradix
      cases hchars : rest.takeWhile isNumberChar with
      | nil =>
        rw [hchars] at hd
        have hend := hmore d hd
        simp [ends, hletter] at hend
      | cons first chars =>
        have hfirst : first ∈ rest.takeWhile isNumberChar := by simp [hchars]
        have hnumber' := mem_takeWhile hfirst
        rw [hchars] at hd
        cases hd
        rw [hnumber'] at hnumber
        cases hnumber
  have hsame : ((c :: rest.takeWhile isNumberChar) ++ more).takeWhile isNumberChar =
      (c :: rest).takeWhile isNumberChar := by
    rw [← hrun]
    refine takeWhile_run_append more (fun d hd => mem_takeWhile hd) fun d hd => ?_
    exact isNumberChar_of_ends (hmore d hd)
  obtain ⟨hblank, hslash⟩ := starts_no_gap hdigit (by decide)
  refine ⟨gapLength_eq_zero hblank fun h => absurd h hslash, ?_⟩
  rw [scanToken_digit hdigit, scanNumber_eq_plain hletter]
  exact (scanPlainNumber_congr hsame).trans h

/-- A number of a numeral system takes its mark and all letters and digits behind. -/
theorem scanRadixNumber_eq_ok {radix : Radix} {letter : Char} {rest : List Char}
    {content : TokenContent} {n : Nat} (h : scanRadixNumber radix letter rest = .ok (content, n)) :
    n = (rest.takeWhile Text.isAlphanumeric).length + 2 := by
  unfold scanRadixNumber at h
  simp only at h
  split at h <;> cases h
  rfl

/-- With a radix mark, a number reads back. -/
theorem reads_radix {radix : Radix} {letter : Char} {rest : List Char} {value : Decimal} {n : Nat}
    (hradix : Radix.ofLetter? letter = some radix)
    (h : scanRadixNumber radix letter rest = .ok (.number value, n)) :
    Reads (.number value) ('0' :: (letter :: rest).take (n - 1)) := by
  obtain rfl := scanRadixNumber_eq_ok h
  refine ⟨'0', letter :: rest.takeWhile Text.isAlphanumeric, by simp [take_takeWhile],
    fun more hmore => ?_⟩
  -- What stands behind ends the token, so it adds no character to the run.
  have hsame : (rest.takeWhile Text.isAlphanumeric ++ more).takeWhile Text.isAlphanumeric =
      rest.takeWhile Text.isAlphanumeric := by
    refine takeWhile_run_append more (fun d hd => mem_takeWhile hd) fun d hd => ?_
    have hend := hmore d hd
    simp only [ends, Bool.and_eq_true, Bool.not_eq_true'] at hend
    exact hend.1
  refine ⟨gapLength_eq_zero (by decide) nofun, ?_⟩
  rw [scanToken_digit (by decide)]
  unfold scanNumber
  simp only [List.cons_append, hradix]
  have hcongr : scanRadixNumber radix letter (rest.takeWhile Text.isAlphanumeric ++ more) =
      scanRadixNumber radix letter rest := by
    unfold scanRadixNumber
    rw [hsame]
  exact hcongr.trans h

/-- A number reads back. -/
theorem reads_of_number {c : Char} {rest : List Char} {value : Decimal} {n : Nat}
    (h : scanToken c rest = .ok (.number value, n)) :
    Reads (.number value) (c :: rest.take (n - 1)) := by
  -- Only the branch for a digit scans to a number.
  rcases scanToken_cases h with ⟨-, hstring⟩ | ⟨hdigit, hnumber⟩ | ⟨-, -, hname⟩ | hmark
  · obtain ⟨_, _, _, _, hcontent⟩ := exists_spells_of_scanQuoted hstring
    cases hcontent
  · unfold scanNumber at hnumber
    split at hnumber
    · next letter rest heq =>
      cases heq
      cases hradix : Radix.ofLetter? letter with
      | none =>
        simp only [hradix] at hnumber
        exact reads_plain hdigit hnumber
      | some radix =>
        simp only [hradix] at hnumber
        exact reads_radix hradix hnumber
    · exact reads_plain hdigit hnumber
  · unfold scanName at hname
    simp only at hname
    split at hname <;> cases hname
  · obtain ⟨_, hcontent⟩ := scanMark_content hmark
    cases hcontent

/-! ### Marks and strings -/

/-- A character that starts neither a string nor a number nor a name starts a mark. -/
theorem scanToken_mark {c : Char}
    (h : (c = '\x22' || c = '\x27' || Text.isDigit c || isNameStart c) = false) (rest : List Char) :
    scanToken c rest = scanMark c rest.head? := by
  simp only [Bool.or_eq_false_iff] at h
  unfold scanToken
  simp [h]

/-- A mark of one character is read if nothing longer can be, and no gap. -/
theorem reads_single {c : Char} {m : Mark}
    (hstart : (c = '\x22' || c = '\x27' || Text.isDigit c || isNameStart c) = false)
    (hblank : isGapBlank c = false)
    (hcomment : c = '/' → ∀ d, markEnds m d = true → d ≠ '/' ∧ d ≠ '*')
    (hsingle : singleMark? c = some m) (hdouble : ∀ d, markEnds m d = true → doubleMark? c d = none) :
    Reads (.mark m) [c] := by
  refine ⟨c, [], rfl, fun rest hrest => ?_⟩
  refine ⟨gapLength_eq_zero hblank fun h d hd => hcomment h d (hrest d hd), ?_⟩
  have hnone : rest.head?.bind (doubleMark? c) = none := by
    cases hhead : rest.head? with
    | none => rfl
    | some d => exact hdouble d (hrest d hhead)
  rw [List.nil_append, scanToken_mark hstart]
  unfold scanMark
  simp [hnone, hsingle]

/-- A mark of two characters is read whatever follows. -/
theorem reads_double {c d : Char} {m : Mark}
    (hstart : (c = '\x22' || c = '\x27' || Text.isDigit c || isNameStart c) = false)
    (hblank : isGapBlank c = false) (hslash : c ≠ '/') (hdouble : doubleMark? c d = some m) :
    Reads (.mark m) [c, d] := by
  refine ⟨c, [d], rfl, fun rest _ => ⟨gapLength_eq_zero hblank fun h => absurd h hslash, ?_⟩⟩
  rw [scanToken_mark hstart]
  unfold scanMark
  simp [hdouble]

/-- Every mark is spelled by one or two characters. -/
theorem mark_spelling (m : Mark) :
    (∃ c, m.text.toList = [c] ∧ singleMark? c = some m) ∨
      ∃ c d, m.text.toList = [c, d] ∧ doubleMark? c d = some m := by
  cases m <;> first | exact .inl ⟨_, rfl, rfl⟩ | exact .inr ⟨_, _, rfl, rfl⟩

theorem doubleMark?_eq_none {c d : Char} (hd : d ≠ '=') (hand : c ≠ '&') (hor : c ≠ '|') :
    doubleMark? c d = none := by
  unfold doubleMark?
  split <;> first | rfl | contradiction

/-- Marks are read as themselves. -/
theorem reads_mark (m : Mark) : Reads (.mark m) m.text.toList := by
  rcases mark_spelling m with ⟨c, htext, hsingle⟩ | ⟨c, d, htext, hdouble⟩
  · rw [htext]
    have hchar := hsingle
    unfold singleMark? at hchar
    split at hchar <;> cases hchar <;> refine reads_single (by decide) (by decide) ?_ hsingle ?_ <;>
      first
        | simp [markEnds, doubleMark?]; done
        | exact fun d hd => doubleMark?_eq_none (by simpa [markEnds] using hd) (by decide) (by decide)
  · rw [htext]
    have hchar := hdouble
    unfold doubleMark? at hchar
    split at hchar <;> cases hchar <;>
      exact reads_double (by decide) (by decide) (by decide) hdouble

/-- What is spelled between quotes reads back. -/
theorem reads_spelled {quote : Char} {body value : List Char} (hquote : quote ∈ quotes)
    (h : Escape.Spells quote body value) :
    Reads (.string (String.ofList value)) (quote :: (body ++ [quote])) := by
  refine ⟨quote, body ++ [quote], rfl, fun rest _ => ⟨?_, ?_⟩⟩
  · rcases mem_quotes_iff.mp hquote with rfl | rfl <;> exact gapLength_eq_zero (by decide) nofun
  · have hstart : (quote = '\x22' || quote = '\x27') = true := by
      simpa using mem_quotes_iff.mp hquote
    unfold scanToken
    rw [if_pos hstart, List.append_assoc, List.singleton_append, scanQuoted_of_spells hquote h,
      List.length_append, List.length_singleton]

theorem reads_string (value : String) : Reads (.string value) (Escape.quote value).toList := by
  unfold Escape.quote Escape.quotedChars
  rw [String.toList_ofList]
  have hreads := reads_spelled (by decide) (Escape.spells_flatMap_quotedChar value.toList)
  rwa [String.ofList_toList] at hreads

/-! ### The tokens of a text -/

/-- The spelling of a token reads back, if it is a number or a name; a name is its own spelling. -/
def Spelled (token : Token) : Prop :=
  match token.content with
  | .number value => Reads (.number value) token.lexeme.toList
  | .name name => Reads (.name name) name.toList
  | _ => True

/-- A token is spelled by the characters that it was read from. -/
theorem spelled_of_scanToken {c : Char} {rest : List Char} {content : TokenContent} {n : Nat}
    {span : Span} (h : scanToken c rest = .ok (content, n)) :
    Spelled ⟨content, String.ofList (c :: rest.take (n - 1)), span⟩ := by
  unfold Spelled
  cases content with
  | number value =>
    show Reads (.number value) (String.ofList (c :: rest.take (n - 1))).toList
    rw [String.toList_ofList]
    exact reads_of_number h
  | name name => exact (reads_of_name h).2
  | _ => trivial

/-- Every token of a text was read from a place in it. -/
theorem exists_scanToken_of_mem {file : Option String} {p : Position} {text : List Char}
    {token : Token} (h : token ∈ (scanFrom file p text).tokens) :
    ∃ c rest n start stop content, scanToken c rest = .ok (content, n) ∧
      token = ⟨content, String.ofList (c :: rest.take (n - 1)), ⟨file, start, stop⟩⟩ := by
  fun_induction scanFrom file p text with
  | case1 => cases h
  | case2 => cases h
  | case3 => cases h
  | case4 p text gap hgap start c rest hdrop content n hscan lexeme stop next ih =>
    rcases List.mem_cons.mp h with rfl | hlater
    · exact ⟨c, rest, n, start, stop, content, hscan, rfl⟩
    · exact ih hlater

/-- Every token that is read has a spelling that reads back. -/
theorem spelled_of_mem {file : Option String} {p : Position} {text : List Char} {token : Token}
    (h : token ∈ (scanFrom file p text).tokens) : Spelled token := by
  obtain ⟨c, rest, n, start, stop, content, hscan, rfl⟩ := exists_scanToken_of_mem h
  exact spelled_of_scanToken hscan

/-- Behind its gap, a text is at its end. -/
theorem scanFrom_end {text : List Char} {gap : Nat} (hgap : gapLength text = .ok gap)
    (hdrop : text.drop gap = []) (file : Option String) (p : Position) :
    scanFrom file p text = ⟨[], .ok (p.advance (text.take gap))⟩ := by
  unfold scanFrom
  simp only [hgap]
  split
  · rfl
  · next h =>
    rw [hdrop] at h
    cases h

/-- Behind its gap, a text goes on with a token. -/
theorem scanFrom_next {text rest : List Char} {gap n : Nat} {c : Char} {content : TokenContent}
    (hgap : gapLength text = .ok gap) (hdrop : text.drop gap = c :: rest)
    (htoken : scanToken c rest = .ok (content, n)) (file : Option String) (p : Position) :
    ∃ span stop, scanFrom file p text = (scanFrom file stop (rest.drop (n - 1))).cons
      ⟨content, String.ofList (c :: rest.take (n - 1)), span⟩ := by
  rw [scanFrom]
  simp only [hgap]
  split
  · next h =>
    rw [hdrop] at h
    cases h
  · next h =>
    rw [hdrop] at h
    cases h
    simp only [htoken]
    exact ⟨_, _, rfl⟩

/-- Blanks in front of a text belong to the gap in front of it. -/
theorem gapLength_blanks {gap text : List Char} (hgap : ∀ c ∈ gap, isGapBlank c = true) {n : Nat}
    (htext : gapLength text = .ok n) : gapLength (gap ++ text) = .ok (gap.length + n) := by
  induction gap with
  | nil => simpa using htext
  | cons c gap ih =>
    have hlater := ih fun d hd => hgap d (List.mem_cons_of_mem c hd)
    unfold gapLength
    simp only [List.cons_append, hgap c List.mem_cons_self, if_true, hlater, shiftGap,
      List.length_cons]
    congr 1
    omega

theorem scanFrom_blanks {gap : List Char} (hgap : ∀ c ∈ gap, isGapBlank c = true)
    (file : Option String) (p : Position) :
    ∃ stop, scanFrom file p gap = ⟨[], .ok stop⟩ := by
  have hnil : gapLength [] = .ok 0 := by simp [gapLength]
  have hlength := gapLength_blanks hgap hnil
  rw [List.append_nil] at hlength
  exact ⟨_, scanFrom_end hlength (by simp) file p⟩

/-- A spelling behind a gap is read as its token, and what comes next is read from its end. -/
theorem scanFrom_token {gap lexeme rest : List Char} {content : TokenContent}
    (hgap : ∀ {text : List Char} {n : Nat}, gapLength text = .ok n →
      gapLength (gap ++ text) = .ok (gap.length + n)) (hreads : Reads content lexeme)
    (hrest : ∀ next ∈ rest.head?, ends content next = true) (file : Option String) (p : Position) :
    ∃ span stop, scanFrom file p (gap ++ (lexeme ++ rest)) =
      (scanFrom file stop rest).cons ⟨content, String.ofList lexeme, span⟩ := by
  obtain ⟨c, cs, rfl, hscan⟩ := hreads
  obtain ⟨hzero, htoken⟩ := hscan rest hrest
  have hlength := hgap hzero
  have hdrop : (gap ++ (c :: (cs ++ rest))).drop (gap.length + 0) = c :: (cs ++ rest) := by simp
  obtain ⟨span, stop, hscan⟩ := scanFrom_next hlength hdrop htoken file p
  refine ⟨span, stop, ?_⟩
  simpa using hscan

end DecimalScript.Lexer
