import DecimalScript.Token.Lexer

/-!
# What string literals spell

A string literal is known by what stands between its quotes: characters that stand for themselves,
and escapes. The reader accepts exactly these literals, whatever comes behind the closing quote, and
quoting writes one of them.

- `Escape.Spells`: what characters between quotes stand for.
- `Escape.spells_flatMap_quotedChar`: what quoting writes stands for what was quoted.
- `Lexer.scanString_of_spells`, `Lexer.exists_spells_of_scanString`: the reader accepts what is
  spelled, and nothing else.
-/

namespace DecimalScript

namespace Escape

/-- `Spells quote body value`: between two quotes of a kind, `body` stands for `value`. -/
inductive Spells (quote : Char) : List Char → List Char → Prop
  | empty : Spells quote [] []
  | plain {c : Char} {body value : List Char} (hslash : c ≠ '\\') (hquote : c ≠ quote)
    (h : Spells quote body value) : Spells quote (c :: body) (c :: value)
  | escaped {letter c : Char} {body value : List Char} (hletter : unescape? letter = some c)
    (h : Spells quote body value) : Spells quote ('\\' :: letter :: body) (c :: value)

/-- An escape stands for the character it was chosen for. -/
theorem unescape_escape {c letter : Char} (h : escape? c = some letter) :
    unescape? letter = some c := by
  unfold escape? at h
  split at h <;> cases h <;> rfl

/-- What is written for a character stands for it. -/
theorem Spells.quotedChar_append {body value : List Char} (h : Spells '\x27' body value)
    (c : Char) : Spells '\x27' (quotedChar c ++ body) (c :: value) := by
  unfold quotedChar
  cases hescape : escape? c with
  | some letter => exact .escaped (unescape_escape hescape) h
  | none =>
    refine .plain ?_ ?_ h
    · rintro rfl
      cases hescape
    · rintro rfl
      cases hescape

/-- What is written between single quotes spells the string. -/
theorem spells_flatMap_quotedChar (value : List Char) :
    Spells '\x27' (value.flatMap quotedChar) value := by
  induction value with
  | nil => exact .empty
  | cons c value ih =>
    rw [List.flatMap_cons]
    exact ih.quotedChar_append c

end Escape

namespace Lexer

open Escape (Spells)

variable {quote : Char}

theorem StringScan.after_eq_closed {c : Char} {k n : Nat} {scan : StringScan} {value : List Char}
    (h : scan.after c k = .closed value n) :
    ∃ value' n', scan = .closed value' n' ∧ value = c :: value' ∧ n = k + n' := by
  cases scan with
  | closed value' n' =>
    cases h
    exact ⟨value', n', rfl, rfl, rfl⟩
  | unclosed => cases h
  | badEscape offset letter => cases h

/-- A character that is no backslash stands for itself, or closes the string. -/
theorem scanString_cons {c : Char} (hc : c ≠ '\\') (rest : List Char) :
    scanString quote (c :: rest) =
      if c = quote then .closed [] 1 else (scanString quote rest).after c 1 := by
  rw [scanString]
  · exact fun h => absurd h hc
  · exact fun _ _ h => absurd h hc

/-- What spells a string is read as it, up to the first quote that is not escaped. -/
theorem scanString_of_spells {body value : List Char} (hquote : quote ≠ '\\')
    (h : Spells quote body value) (later : List Char) :
    scanString quote (body ++ quote :: later) = .closed value (body.length + 1) := by
  induction h with
  | empty => exact (scanString_cons hquote later).trans (if_pos rfl)
  | @plain c body value hslash hne _ ih =>
    rw [List.cons_append, scanString_cons hslash, if_neg hne, ih]
    show StringScan.closed (c :: value) (1 + (body.length + 1)) = _
    rw [Nat.add_comm, List.length_cons]
  | @escaped letter c body value hletter _ ih =>
    rw [List.cons_append, List.cons_append, scanString, hletter]
    show StringScan.after c 2 (scanString quote (body ++ quote :: later)) = _
    rw [ih]
    show StringScan.closed (c :: value) (2 + (body.length + 1)) = _
    rw [Nat.add_comm, List.length_cons, List.length_cons]

/-- What is read as a string spells it. -/
theorem exists_spells_of_scanString {text value : List Char} {n : Nat}
    (h : scanString quote text = .closed value n) :
    ∃ body later, text = body ++ quote :: later ∧ Spells quote body value ∧ n = body.length + 1 := by
  fun_induction scanString quote text generalizing value n with
  | case1 => cases h
  | case2 => cases h
  | case3 letter rest c hletter ih =>
    obtain ⟨value', n', hclosed, rfl, rfl⟩ := StringScan.after_eq_closed h
    obtain ⟨body, later, rfl, hspells, rfl⟩ := ih hclosed
    exact ⟨'\\' :: letter :: body, later, rfl, .escaped hletter hspells, Nat.add_comm 2 _⟩
  | case4 => cases h
  | case5 rest =>
    cases h
    exact ⟨[], rest, rfl, .empty, rfl⟩
  | case6 c rest hnone hletter hquote ih =>
    obtain ⟨value', n', hclosed, rfl, rfl⟩ := StringScan.after_eq_closed h
    obtain ⟨body, later, rfl, hspells, rfl⟩ := ih hclosed
    -- A backslash would have been read as an escape, since a closing quote is behind it.
    have hslash : c ≠ '\\' := by
      rintro rfl
      obtain ⟨d, rest, hrest⟩ := List.exists_cons_of_ne_nil
        (List.append_ne_nil_of_right_ne_nil body (List.cons_ne_nil quote later))
      exact hletter d rest rfl hrest
    exact ⟨c :: body, later, rfl, .plain hslash hquote hspells, Nat.add_comm 1 _⟩

/-! ### Literals with their quotes -/

/-- The characters that open and close a string literal. -/
def quotes : List Char := ['\x22', '\x27']

theorem mem_quotes_iff : quote ∈ quotes ↔ quote = '\x22' ∨ quote = '\x27' := by
  simp [quotes]

theorem ne_slash_of_mem_quotes (h : quote ∈ quotes) : quote ≠ '\\' := by
  rcases mem_quotes_iff.mp h with rfl | rfl <;> decide

/-- A spelling between its quotes is a string token. -/
theorem scanQuoted_of_spells {body value : List Char} (hquote : quote ∈ quotes)
    (h : Spells quote body value) (later : List Char) :
    scanQuoted quote (body ++ quote :: later) =
      .ok (.string (String.ofList value), body.length + 2) := by
  unfold scanQuoted
  rw [scanString_of_spells (ne_slash_of_mem_quotes hquote) h]

theorem exists_spells_of_scanQuoted {rest : List Char} {content : TokenContent} {n : Nat}
    (h : scanQuoted quote rest = .ok (content, n)) :
    ∃ body value, rest.take (n - 1) = body ++ [quote] ∧ Spells quote body value ∧
      content = .string (String.ofList value) := by
  unfold scanQuoted at h
  split at h
  · next value length hclosed =>
    cases h
    obtain ⟨body, later, rfl, hspells, rfl⟩ := exists_spells_of_scanString hclosed
    refine ⟨body, value, ?_, hspells, rfl⟩
    rw [Nat.add_sub_cancel, List.take_length_add_append]
    rfl
  · cases h
  · cases h

end Lexer

end DecimalScript
