import DecimalScript.Proofs.NumberLiterals
import DecimalScript.Proofs.Respelling

/-!
# Quoting is undone by reading

Where a token starts, a quoted text is read as one string literal, whatever comes behind it. That no
quoted text starts another one then follows from reading alone: the reader could not tell the two
apart.

- `Lexer.scanFrom_reads`, `Lexer.Stands.scan_reads`: a spelling in a text, and what is read behind it.
- `Escape.eq_of_quote_starts`: no quoted text starts another one.
- `Lexer.exists_spells_of_mem`: every string that is read was spelled between two quotes.
- `quoting_is_undone_in_any_context`: both directions, for quoted texts.
-/

namespace DecimalScript

namespace Lexer

/-! ### A literal in a text -/

section Reading

variable {file : Option String} {c : Char} {rest lexeme later : List Char} {content : TokenContent}

/-- Where a token starts, a spelling that reads back is read as its token. What is behind it is read
as it would be read by itself. -/
theorem scanStart_reads (hreads : Reads content lexeme) (htext : c :: rest = lexeme ++ later)
    (hends : ∀ next ∈ later.head?, ends content next = true) (p : Position) :
    scanStart file p c rest = (scanFrom file (p.advance lexeme) later).cons
      ⟨content, String.ofList lexeme, ⟨file, p, p.advance lexeme⟩⟩ := by
  obtain ⟨d, cs, rfl, hscan⟩ := hreads
  obtain ⟨rfl, rfl⟩ : c = d ∧ rest = cs ++ later := List.cons.inj htext
  unfold scanStart
  rw [(hscan later hends).2]
  simp only [Nat.add_sub_cancel, List.take_left, List.drop_left]

theorem scanFrom_reads (hreads : Reads content lexeme)
    (hends : ∀ next ∈ later.head?, ends content next = true) (p : Position) :
    scanFrom file p (lexeme ++ later) = (scanFrom file (p.advance lexeme) later).cons
      ⟨content, String.ofList lexeme, ⟨file, p, p.advance lexeme⟩⟩ := by
  obtain ⟨c, cs, rfl, hscan⟩ := id hreads
  rw [List.cons_append, scanFrom_eq_scanStart (hscan later hends).1 rfl]
  exact scanStart_reads hreads rfl hends p

/-- A token that reads back is read wherever a token can start. -/
theorem Stands.scan_reads {source : String} {before : List Token} {q : Position}
    (h : Stands file .start source.toList before q c rest) (hreads : Reads content lexeme)
    (htext : c :: rest = lexeme ++ later)
    (hends : ∀ next ∈ later.head?, ends content next = true) :
    let stop := q.advance lexeme
    let behind := scanFrom file stop later
    scan source file =
      ⟨before ++ ⟨content, String.ofList lexeme, ⟨file, q, stop⟩⟩ :: behind.tokens,
        behind.ending.mapError (·.quoting (Text.lines source))⟩ := by
  intro stop behind
  unfold scan
  rw [h.scanFrom_eq, scanStart_reads hreads htext hends]
  rfl

end Reading

/-- Every string of a text was spelled between two quotes of a kind. -/
theorem exists_spells_of_mem {file : Option String} {p : Position} {text : List Char}
    {token : Token} {value : String} (h : token ∈ (scanFrom file p text).tokens)
    (hvalue : token.content = .string value) :
    ∃ quote ∈ quotes, ∃ body, token.lexeme.toList = quote :: (body ++ [quote]) ∧
      Escape.Spells quote body value.toList := by
  obtain ⟨c, rest, n, start, stop, content, hscan, rfl⟩ := exists_scanToken_of_mem h
  obtain rfl : content = .string value := hvalue
  rcases scanToken_cases hscan with ⟨hquote, hstring⟩ | ⟨-, hnumber⟩ | ⟨-, -, hname⟩ | hmark
  · obtain ⟨body, value', hliteral, hspells, hcontent⟩ := exists_spells_of_scanQuoted hstring
    cases hcontent
    refine ⟨c, hquote, body, ?_, ?_⟩
    · rw [String.toList_ofList, hliteral]
    · rwa [String.toList_ofList]
  · obtain ⟨_, hcontent⟩ := scanNumber_content hnumber
    cases hcontent
  · rcases scanName_content hname with ⟨_, hcontent⟩ | ⟨_, hcontent⟩ <;> cases hcontent
  · obtain ⟨_, hcontent⟩ := scanMark_content hmark
    cases hcontent

end Lexer

namespace Escape

/-- **No quoted text starts another one.** -/
theorem eq_of_quote_starts {s t : String} (h : (quote s).toList <+: (quote t).toList) : s = t := by
  -- The same text is read as a literal of one value and of the other.
  have hread : ∀ (s : String) (later : List Char),
      ∃ n, Lexer.scanString '\x27' (s.toList.flatMap quotedChar ++ '\x27' :: later) =
        .closed s.toList n := fun s later =>
    ⟨_, Lexer.scanString_of_spells (by decide) (spells_flatMap_quotedChar _) later⟩
  obtain ⟨later, hlater⟩ := h
  simp only [quote, quotedChars, String.toList_ofList, List.cons_append, List.append_assoc,
    List.cons.injEq, true_and, List.nil_append] at hlater
  obtain ⟨n, hs⟩ := hread s later
  obtain ⟨m, ht⟩ := hread t []
  rw [hlater, ht] at hs
  exact String.toList_inj.mp (Lexer.StringScan.closed.inj hs).1.symm

theorem quote_injective : Function.Injective quote := fun _ _ h =>
  eq_of_quote_starts (h ▸ List.prefix_rfl)

end Escape

open Lexer Escape in
/-- **Quoting is undone by reading, in any context.** In front of any text, a quoted text is read as
one string literal. The value of this is what was quoted and its lexeme is what quoting wrote;
behind it, the other text is read as it would be read by itself. So it is wherever a token starts in
a source text.

Hence quoting is injective, and no quoted text starts another one. Conversely, a string of a source
text was spelled between two quotes of either kind, and its value in quotes is read as a string with
this value. -/
theorem quoting_is_undone_in_any_context (file : Option String) :
    (∀ (p : Position) (value : String) (later : List Char),
      let stop := p.advance (quote value).toList
      scanFrom file p ((quote value).toList ++ later) =
        (scanFrom file stop later).cons ⟨.string value, quote value, ⟨file, p, stop⟩⟩) ∧
    (∀ {source : String} {before : List Token} {q : Position} {c : Char} {rest later : List Char}
      {value : String}, Stands file .start source.toList before q c rest →
      c :: rest = (quote value).toList ++ later →
      let stop := q.advance (quote value).toList
      let behind := scanFrom file stop later
      scan source file =
        ⟨before ++ ⟨.string value, quote value, ⟨file, q, stop⟩⟩ :: behind.tokens,
          behind.ending.mapError (·.quoting (Text.lines source))⟩) ∧
    Function.Injective quote ∧
    (∀ {s t : String}, (quote s).toList <+: (quote t).toList → s = t) ∧
    (∀ {source : String} {token : Token} {value : String}, token ∈ (scan source file).tokens →
      token.content = .string value →
      (∃ mark ∈ quotes, ∃ body, token.lexeme.toList = mark :: (body ++ [mark]) ∧
        Spells mark body value.toList) ∧
      ∃ place stop, scan (quote value) file =
        ⟨[⟨.string value, quote value, place⟩], .ok stop⟩) := by
  have hlexeme : ∀ value : String, String.ofList (quote value).toList = quote value :=
    fun _ => String.ofList_toList
  -- A string ends at its quote, whatever stands behind: it is the one token without a condition on
  -- the next character.
  have hbefore : ∀ (p : Position) (value : String) (later : List Char),
      scanFrom file p ((quote value).toList ++ later) =
        (scanFrom file (p.advance (quote value).toList) later).cons
          ⟨.string value, quote value, ⟨file, p, p.advance (quote value).toList⟩⟩ := by
    intro p value later
    rw [scanFrom_reads (reads_string value) (fun _ _ => rfl), hlexeme]
  refine ⟨hbefore, ?_, quote_injective, eq_of_quote_starts, ?_⟩
  · intro source before q c rest later value hstands htext stop behind
    rw [hstands.scan_reads (reads_string value) htext (fun _ _ => rfl), hlexeme]
  · intro source token value htoken hvalue
    refine ⟨exists_spells_of_mem htoken hvalue, ?_⟩
    have hend : gapLength [] = .ok 0 := by simp [gapLength]
    -- The token found in the text is spelled by its value's quotation when it stands alone.
    have hread := hbefore .start value []
    rw [List.append_nil, scanFrom_end hend rfl] at hread
    unfold scan
    rw [hread]
    exact ⟨_, _, rfl⟩

open Lexer Escape in
/-- A quoted text behind other tokens, with another literal directly behind it: a double quote,
which needs its escape there and none between single quotes. -/
theorem quoting_is_undone_in_any_context_beside_literal :
    let before : List Token := [⟨.name "a", "a", ⟨none, ⟨1, 1, 0⟩, ⟨1, 2, 1⟩⟩⟩,
      ⟨.mark .assign, "=", ⟨none, ⟨1, 2, 1⟩, ⟨1, 3, 2⟩⟩⟩]
    let quoted : Token := ⟨.string "'\\", "'\\'\\\\'", ⟨none, ⟨1, 3, 2⟩, ⟨1, 9, 8⟩⟩⟩
    let behind : Token := ⟨.string "\"", "\"\\\"\"", ⟨none, ⟨1, 9, 8⟩, ⟨1, 13, 12⟩⟩⟩
    scan "a='\\'\\\\'\"\\\"\"" none = ⟨before ++ [quoted, behind], .ok ⟨1, 13, 12⟩⟩ ∧
      (∃ place stop, scan "'\"'" none = ⟨[⟨.string "\"", "'\"'", place⟩], .ok stop⟩) ∧
      ¬ (quote "\\").toList <+: (quote "\\'").toList := by
  intro before quoted behind
  obtain ⟨-, hcontext, -, hstarts, hspelled⟩ := quoting_is_undone_in_any_context none
  have hname : gapLength "a='\\'\\\\'\"\\\"\"".toList = .ok 0 := by decide +kernel
  have hassign : gapLength "='\\'\\\\'\"\\\"\"".toList = .ok 0 := by decide +kernel
  have hquote : gapLength "'\\'\\\\'\"\\\"\"".toList = .ok 0 := by decide +kernel
  have hfirst : scanToken 'a' "='\\'\\\\'\"\\\"\"".toList = .ok (.name "a", 1) := by rfl
  have hsecond : scanToken '=' "'\\'\\\\'\"\\\"\"".toList = .ok (.mark .assign, 1) := by rfl
  have hstands : Stands none .start "a='\\'\\\\'\"\\\"\"".toList before ⟨1, 3, 2⟩ '\x27'
      "\\'\\\\'\"\\\"\"".toList :=
    .behind hname rfl hfirst (.behind hassign rfl hsecond (.here hquote rfl))
  have hscan : scan "a='\\'\\\\'\"\\\"\"" none =
      ⟨before ++ [quoted, behind], .ok ⟨1, 13, 12⟩⟩ := by
    have hspells : Spells '\x22' ['\\', '\x22'] ['\x22'] := .escaped rfl .empty
    have hend : gapLength [] = .ok 0 := by decide +kernel
    have hbehind : scanFrom none ⟨1, 9, 8⟩ "\"\\\"\"".toList = ⟨[behind], .ok ⟨1, 13, 12⟩⟩ := by
      have hends : ∀ next ∈ ([] : List Char).head?, ends (.string "\"") next = true := nofun
      refine (scanFrom_reads (reads_spelled (by decide) hspells) hends _).trans ?_
      rw [scanFrom_end hend rfl]
      rfl
    have hstop : Position.advance ⟨1, 3, 2⟩ (quote "'\\").toList = ⟨1, 9, 8⟩ := by rfl
    have hread := hcontext hstands
      (show _ = (quote "'\\").toList ++ "\"\\\"\"".toList from rfl)
    rw [hstop] at hread
    dsimp only at hread
    rw [hread, hbehind]
    rfl
  refine ⟨hscan, ?_, fun h => absurd (hstarts h) (by decide)⟩
  have hmem : behind ∈ (scan "a='\\'\\\\'\"\\\"\"" none).tokens := by
    rw [hscan]
    exact List.mem_append_right _ (List.mem_cons_of_mem _ List.mem_cons_self)
  exact (hspelled hmem rfl).2

end DecimalScript
