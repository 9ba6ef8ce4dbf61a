import DecimalScript.Proofs.TokenPlaces

/-!
# Tokens do not depend on layout

A text that was read can be laid out anew: its lexemes with other separators between them. Reading
it gives the same tokens, because a blank goes on with no token, so that every lexeme is read again
as what it was, and because separators are skipped as a whole.

- `Lexer.reads_of_scanToken`: whatever is read as a token reads back. For numbers and names this is
  known; reserved words and marks are their own spellings, and a string ends at its closing quote.
- `Lexer.gapLength_gap`: a gap is skipped, and not more than the gap.
- `tokens_do_not_depend_on_layout`: the lexemes of a text in another layout.
-/

namespace DecimalScript

namespace Lexer

/-! ### Strings, words and marks read back -/

/-- A string literal that was read reads back, whatever stands behind it. -/
theorem reads_quoted {quote : Char} {rest : List Char} {content : TokenContent} {n : Nat}
    (hquote : quote ∈ quotes) (h : scanQuoted quote rest = .ok (content, n)) :
    Reads content (quote :: rest.take (n - 1)) := by
  obtain ⟨body, value, hliteral, hspells, rfl⟩ := exists_spells_of_scanQuoted h
  rw [hliteral]
  exact reads_spelled hquote hspells

/-- A reserved word is its own spelling. -/
theorem scanName_eq_word {c : Char} {rest : List Char} {w : Word} {n : Nat}
    (hstart : isNameStart c = true) (h : scanName (c :: rest) = (.word w, n)) :
    w.text.toList = c :: rest.take (n - 1) := by
  have hrun : (c :: rest).takeWhile isNameChar = c :: rest.takeWhile isNameChar :=
    List.takeWhile_cons_of_pos (isNameChar_of_isNameStart hstart)
  unfold scanName at h
  simp only [hrun] at h
  split at h
  · next hword =>
    cases h
    have hspelling := List.find?_some hword
    rw [eq_of_beq hspelling]
    simp [take_takeWhile]
  · cases h

theorem text_of_singleMark {c : Char} {m : Mark} (h : singleMark? c = some m) :
    m.text.toList = [c] := by
  unfold singleMark? at h
  split at h <;> cases h <;> rfl

theorem text_of_doubleMark {c d : Char} {m : Mark} (h : doubleMark? c d = some m) :
    m.text.toList = [c, d] := by
  unfold doubleMark? at h
  split at h <;> cases h <;> rfl

/-- A mark is its own spelling. -/
theorem scanMark_spelling {c : Char} {rest : List Char} {content : TokenContent} {n : Nat}
    (h : scanMark c rest.head? = .ok (content, n)) :
    ∃ m, content = .mark m ∧ m.text.toList = c :: rest.take (n - 1) := by
  unfold scanMark at h
  split at h
  · next m hdouble =>
    cases h
    obtain ⟨d, hd, hmark⟩ := Option.bind_eq_some_iff.mp hdouble
    obtain ⟨later, rfl⟩ := List.head?_eq_some_iff.mp hd
    exact ⟨m, rfl, text_of_doubleMark hmark⟩
  · split at h
    · next m hsingle =>
      cases h
      exact ⟨m, rfl, text_of_singleMark hsingle⟩
    · split at h <;> cases h

/-- Whatever is read as a token reads back. -/
theorem reads_of_scanToken {c : Char} {rest : List Char} {content : TokenContent} {n : Nat}
    (h : scanToken c rest = .ok (content, n)) : Reads content (c :: rest.take (n - 1)) := by
  rcases scanToken_cases h with ⟨hquote, hstring⟩ | ⟨-, hnumber⟩ | ⟨hdigit, hstart, hname⟩ | hmark
  · exact reads_quoted hquote hstring
  · obtain ⟨value, rfl⟩ := scanNumber_content hnumber
    exact reads_of_number h
  · rcases scanName_content hname with ⟨w, rfl⟩ | ⟨name, rfl⟩
    · rw [← scanName_eq_word hstart hname]
      exact reads_word w
    · obtain ⟨hspelling, hreads⟩ := reads_of_name h
      rw [hspelling]
      exact hreads
  · obtain ⟨m, rfl, htext⟩ := scanMark_spelling hmark
    rw [← htext]
    exact reads_mark m

/-! ### Gaps are skipped -/

/-- A comment ends with the first `*/`. -/
theorem commentLength?_append {comment : List Char} (h : ¬ ['*', '/'] <:+: comment)
    (rest : List Char) :
    commentLength? (comment ++ '*' :: '/' :: rest) = some (comment.length + 2) := by
  induction comment with
  | nil => rfl
  | cons c comment ih =>
    rw [List.infix_cons_iff, not_or] at h
    obtain ⟨hleads, hinfix⟩ := h
    rw [List.cons_append, commentLength?, ih hinfix]
    · simp [Nat.add_right_comm]
    · -- What stands before the last two characters does not end with the first of them.
      intro later hc hslash
      cases comment with
      | nil => cases hslash
      | cons d comment =>
        cases hc
        cases hslash
        exact hleads ⟨comment, rfl⟩

theorem lineLength_append {line rest : List Char} (hline : '\n' ∉ line)
    (hrest : rest.head? = some '\n' ∨ rest = []) : lineLength (line ++ rest) = line.length := by
  unfold lineLength
  rw [takeWhile_run_append rest]
  · intro c hc
    exact bne_iff_ne.mpr fun h => hline (h ▸ hc)
  · intro c hc
    rcases hrest with hfeed | rfl
    · rw [hfeed] at hc
      cases hc
      rfl
    · cases hc

/-- A gap is skipped in front of anything; one that may be open at its end is the last piece. -/
theorem gapLength_gap {last : Bool} {gap text : List Char} (h : Gap last gap)
    (hlast : last = true → text = []) {n : Nat} (htext : gapLength text = .ok n) :
    gapLength (gap ++ text) = .ok (gap.length + n) := by
  have hshift : ∀ {k m total : Nat}, total = k + m → shiftGap k (.ok m) = .ok total := by
    rintro k m _ rfl
    rfl
  induction h with
  | empty => simpa using htext
  | @blank c rest hc _ ih =>
    have hblank : isGapBlank c = true := by simpa [isGapBlank, or_assoc] using hc
    unfold gapLength
    simp only [List.cons_append, hblank, if_true, ih]
    exact hshift (by rw [List.length_cons]; omega)
  | @lineComment line rest hline hend _ ih =>
    -- A line comment that no line feed ends must be the last thing in the text.
    have hstops : (rest ++ text).head? = some '\n' ∨ rest ++ text = [] := by
      rcases hend with hfeed | ⟨rfl, hopen⟩
      · left
        rw [List.head?_append, hfeed]
        rfl
      · exact .inr (hlast hopen)
    have hslash : isGapBlank '/' = false := by decide
    unfold gapLength
    simp only [List.cons_append, List.append_assoc, hslash, Bool.false_eq_true, if_false,
      lineLength_append hline hstops, List.drop_left, ih]
    exact hshift (by simp only [List.length_cons, List.length_append]; omega)
  | @blockComment comment rest hcomment _ ih =>
    have hslash : isGapBlank '/' = false := by decide
    -- The scan looks for the closing mark in everything behind the opening one, where the comment's
    -- own text comes first.
    have hdrop : (comment ++ '*' :: '/' :: (rest ++ text)).drop (comment.length + 2) =
        rest ++ text := by
      simp
    unfold gapLength
    simp only [List.cons_append, List.append_assoc, hslash, Bool.false_eq_true, if_false,
      commentLength?_append hcomment, hdrop, ih]
    exact hshift (by simp only [List.length_cons, List.length_append]; omega)

/-! ### Another layout -/

/-- A separator does not touch the token in front of it: it starts with a blank, if it is not empty.
-/
def StartsBlank (gap : List Char) : Prop :=
  ∀ c ∈ gap.head?, isGapBlank c = true

/-- Separators behind tokens, one for each. Between two tokens there is one that is not empty and
whose comments are all closed. Behind the last token there may be none, and a line comment may be
open. -/
def Separators : List (List Char) → Prop
  | [] => True
  | [gap] => StartsBlank gap ∧ Gap true gap
  | gap :: next :: gaps =>
    gap ≠ [] ∧ StartsBlank gap ∧ Gap false gap ∧ Separators (next :: gaps)

/-- The lexemes of tokens, each with the separator behind it. -/
def laidOut : List Token → List (List Char) → List Char
  | token :: tokens, gap :: gaps => token.lexeme.toList ++ (gap ++ laidOut tokens gaps)
  | _, _ => []

/-- The separator behind the first of some tokens is the last one if there are no others. -/
theorem Separators.cons {gap : List Char} {gaps : List (List Char)} (h : Separators (gap :: gaps))
    {tokens : List Token} (hcount : gaps.length = tokens.length) :
    StartsBlank gap ∧ Gap tokens.isEmpty gap ∧ Separators gaps ∧ (gap = [] → tokens = []) := by
  cases gaps with
  | nil =>
    obtain rfl := List.eq_nil_of_length_eq_zero hcount.symm
    exact ⟨h.1, h.2, trivial, fun _ => rfl⟩
  | cons next gaps =>
    obtain ⟨hne, hblank, hgap, hlater⟩ := h
    cases tokens with
    | nil => cases hcount
    | cons token tokens => exact ⟨hblank, hgap, hlater, fun hnil => absurd hnil hne⟩

/-- Tokens that read back are read from their lexemes in any layout. -/
theorem scanFrom_laidOut (file : Option String) (tokens : List Token) {front : List Char}
    {behind : List (List Char)} (p : Position)
    (hreads : ∀ token ∈ tokens, Reads token.content token.lexeme.toList)
    (hfront : Gap tokens.isEmpty front) (hcount : behind.length = tokens.length)
    (hbehind : Separators behind) :
    ∃ read stop, scanFrom file p (front ++ laidOut tokens behind) = ⟨read, .ok stop⟩ ∧
      read.map (fun t => (t.content, t.lexeme)) = tokens.map (fun t => (t.content, t.lexeme)) := by
  induction tokens generalizing front behind p with
  | nil =>
    obtain rfl := List.eq_nil_of_length_eq_zero hcount
    have hnil : gapLength [] = .ok 0 := by simp [gapLength]
    have hlength := gapLength_gap hfront (fun _ => rfl) hnil
    exact ⟨[], _, scanFrom_end hlength (by simp) file p, rfl⟩
  | cons token tokens ih =>
    cases behind with
    | nil => cases hcount
    | cons gap behind =>
      obtain ⟨hread, hlaterRead⟩ := List.forall_mem_cons.mp hreads
      have hlaterCount : behind.length = tokens.length := Nat.succ.inj hcount
      obtain ⟨hblank, hgap, hlater, hempty⟩ := hbehind.cons hlaterCount
      -- The separator starts with a blank, which goes on with no token.
      have hends : ∀ next ∈ (gap ++ laidOut tokens behind).head?,
          ends token.content next = true := by
        intro next hnext
        cases gap with
        | nil =>
          rw [hempty rfl] at hnext
          cases hnext
        | cons c gap => exact ends_of_isGapBlank _ (hblank next hnext)
      obtain ⟨span, stop, hscan⟩ :=
        scanFrom_token (gapLength_gap hfront fun h => by cases h) hread hends file p
      obtain ⟨read, stop', hscanLater, hspellings⟩ := ih stop hlaterRead hgap hlaterCount hlater
      refine ⟨⟨token.content, token.lexeme, span⟩ :: read, stop', ?_, ?_⟩
      · show scanFrom file p (front ++ (token.lexeme.toList ++ (gap ++ laidOut tokens behind))) = _
        rw [hscan, hscanLater, String.ofList_toList]
        rfl
      · simp [hspellings]

/-- Every token of a text reads back from its lexeme. -/
theorem reads_of_mem {file : Option String} {p : Position} {text : List Char} {token : Token}
    (h : token ∈ (scanFrom file p text).tokens) : Reads token.content token.lexeme.toList := by
  obtain ⟨c, rest, n, start, stop, content, hscan, rfl⟩ := exists_scanToken_of_mem h
  show Reads content (String.ofList (c :: rest.take (n - 1))).toList
  rw [String.toList_ofList]
  exact reads_of_scanToken hscan

end Lexer

/-- **Tokens do not depend on layout.** Write the lexemes of a text down again, with any blanks and
comments in front of the first one, and behind each one any that start with a blank; between two
lexemes there have to be some. This can be read to its end, and gives tokens with the same contents
and lexemes in the same order. If the first text has a fault, the same holds of the tokens in front
of it. -/
theorem tokens_do_not_depend_on_layout (source : String) (file file' : Option String)
    (front : List Char) (behind : List (List Char)) :
    let tokens := (Lexer.scan source file).tokens
    behind.length = tokens.length → Lexer.Gap tokens.isEmpty front → Lexer.Separators behind →
      ∃ read stop, Lexer.scan (String.ofList (front ++ Lexer.laidOut tokens behind)) file' =
          ⟨read, .ok stop⟩ ∧
        read.map (fun t => (t.content, t.lexeme)) =
          tokens.map (fun t => (t.content, t.lexeme)) := by
  intro tokens hcount hfront hbehind
  obtain ⟨read, stop, hread, hsame⟩ := Lexer.scanFrom_laidOut file' tokens .start
    (fun token htoken => Lexer.reads_of_mem htoken) hfront hcount hbehind
  refine ⟨read, stop, ?_, hsame⟩
  unfold Lexer.scan
  rw [String.toList_ofList, hread]
  rfl

/-- A slash in front of a string of slashes, with comments around both: the one behind the slash
starts with a blank, and the last one is open. -/
theorem tokens_do_not_depend_on_layout_comments :
    let tokens := (Lexer.scan "a/'//'" none).tokens
    let front := ['/', '*', '\x27', '*', '/']
    let behind := [[' '], ['\t', '/', '/', 'y', '\n'], ['\n', '/', '/', 'z']]
    behind.length = tokens.length ∧ Lexer.Gap tokens.isEmpty front ∧ Lexer.Separators behind ∧
      ∃ read stop,
        Lexer.scan "/*'*/a /\t//y\n'//'\n//z" none = ⟨read, .ok stop⟩ ∧
        read.map (fun t => (t.content, t.lexeme)) =
          [(.name "a", "a"), (.mark .slash, "/"), (.string "//", "'//'")] := by
  intro tokens front behind
  have hcount : behind.length = tokens.length := by decide +kernel
  have hempty : tokens.isEmpty = false := by decide +kernel
  have hfront : Lexer.Gap tokens.isEmpty front :=
    hempty ▸ .blockComment (show ¬ ['*', '/'] <:+: ['\x27'] by decide) .empty
  have hbehind : Lexer.Separators behind := by
    have hcomment : Lexer.Gap false behind[1] :=
      .blank (by decide) (.lineComment (show '\n' ∉ ['y'] by decide) (.inl rfl)
        (.blank (by decide) .empty))
    have hopen : Lexer.Gap true behind[2] :=
      .blank (by decide) (.lineComment (show '\n' ∉ ['z'] by decide) (.inr ⟨rfl, rfl⟩) .empty)
    refine ⟨by decide, ?_, .blank (by decide) .empty, by decide, ?_, hcomment, ?_, hopen⟩ <;>
      · rintro _ ⟨⟩
        decide
  have htext : String.ofList (front ++ Lexer.laidOut tokens behind) =
      "/*'*/a /\t//y\n'//'\n//z" := by
    decide +kernel
  obtain ⟨read, stop, hread, hsame⟩ :=
    tokens_do_not_depend_on_layout "a/'//'" none none front behind hcount hfront hbehind
  rw [htext] at hread
  exact ⟨hcount, hfront, hbehind, read, stop, hread, hsame.trans (by decide +kernel)⟩

end DecimalScript
