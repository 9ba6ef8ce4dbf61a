import DecimalScript.Proofs.QuotedLines

/-!
# What a diagnostic points at

A text that is run on its own fails at one of its expressions. The diagnostic has the span of that
expression, and quotes the line on which it starts: what stands around its offset between two line
feeds, or the ends of the text. The column counts from the start of this line.

- `Text.LineAround`: a line, and what stands before and behind it. `Text.exists_lineAround`: there
  is one around every character but a line feed.
- `Text.LineAround.getElem?_rowsOf`: it is the row whose number counts the line feeds before it.
- `Lexer.exists_char_of_mem`: tokens do not start with a line feed; so expressions do not either.
- `diagnostics_point_at_failing_construct`: all of it for a run.

A run may also fail where there is no expression, in the text that is read before it runs; such
faults are the subject of `FaultLines`. Here the text has been read, and its rows are cut where its
tokens count lines, so the quoted row is the right one whatever else ends a line elsewhere.
-/

namespace DecimalScript

/-! ### Lines -/

namespace Text

/-- The line of a text around an offset: no line feed is in it, and before and behind it there is
one or the end of the text. -/
structure LineAround (text : List Char) (offset : Nat) (before line later : List Char) : Prop where
  text_eq : text = before ++ (line ++ later)
  no_feed : '\n' ∉ line
  starts : before = [] ∨ before.getLast? = some '\n'
  stops : later.head? = some '\n' ∨ later = []
  start_le : before.length ≤ offset
  lt_stop : offset < before.length + line.length

theorem rowsOf_ne_nil (text : List Char) : rowsOf text ≠ [] := by
  intro hnil
  have hlength := length_rowsOf text
  rw [hnil] at hlength
  cases hlength

/-- A line feed ends a row. -/
theorem rowsOf_append_feed (text later : List Char) :
    rowsOf (text ++ '\n' :: later) = rowsOf text ++ rowsOf later := by
  induction text with
  | nil =>
    show rowsOf ('\n' :: later) = [] :: rowsOf later
    rw [rowsOf]
    cases hrows : rowsOf later with
    | nil => exact absurd hrows (rowsOf_ne_nil later)
    | cons row rows => rfl
  | cons c text ih =>
    rw [List.cons_append, rowsOf, rowsOf, ih]
    -- There is always a row for the character to be put in front of.
    cases hrows : rowsOf text with
    | nil => exact absurd hrows (rowsOf_ne_nil text)
    | cons row rows =>
      by_cases hc : c = '\n'
      · simp [hc]
      · simp [hc]

theorem rowsOf_of_no_feed {line : List Char} (h : '\n' ∉ line) : rowsOf line = [line] := by
  induction line with
  | nil => rfl
  | cons c line ih =>
    rw [rowsOf, ih (List.not_mem_of_not_mem_cons h)]
    exact if_neg (Ne.symm (List.ne_of_not_mem_cons h))

/-- The first row goes up to the first line feed. -/
theorem head?_rowsOf {line later : List Char} (hline : '\n' ∉ line)
    (hlater : later.head? = some '\n' ∨ later = []) :
    (rowsOf (line ++ later)).head? = some line := by
  rcases hlater with hfeed | rfl
  · obtain ⟨rest, rfl⟩ := List.head?_eq_some_iff.mp hfeed
    rw [rowsOf_append_feed, rowsOf_of_no_feed hline]
    rfl
  · rw [List.append_nil, rowsOf_of_no_feed hline]
    rfl

/-- As many rows come before a line as line feeds do. -/
theorem LineAround.getElem?_rowsOf {text before line later : List Char} {offset : Nat}
    (h : LineAround text offset before line later) :
    (rowsOf text)[before.count '\n']? = some line := by
  have hfirst := head?_rowsOf h.no_feed h.stops
  rw [List.head?_eq_getElem?] at hfirst
  rw [h.text_eq]
  rcases h.starts with rfl | hfeed
  · exact hfirst
  · obtain ⟨front, rfl⟩ := List.getLast?_eq_some_iff.mp hfeed
    have hcount : (front ++ ['\n']).count '\n' = (rowsOf front).length := by
      rw [length_rowsOf, List.count_append]
      rfl
    rw [List.append_assoc, List.singleton_append, rowsOf_append_feed, hcount,
      List.getElem?_append_right (Nat.le_refl _), Nat.sub_self]
    exact hfirst

/-- The line has the character at the offset, as far in as the offset is behind its start. -/
theorem LineAround.exists_char {text before row later : List Char} {offset : Nat}
    (h : LineAround text offset before row later) :
    ∃ c, row[offset - before.length]? = some c ∧ text[offset]? = some c := by
  have hstart := h.start_le
  have hstop := h.lt_stop
  have hinside : offset - before.length < row.length := by omega
  refine ⟨row[offset - before.length], List.getElem?_eq_getElem hinside, ?_⟩
  rw [h.text_eq, List.getElem?_append_right hstart, List.getElem?_append_left hinside]
  exact List.getElem?_eq_getElem hinside

/-- Around every character but a line feed there is a line. The column of the character counts from
the start of this line, and its line number counts the line feeds before it. -/
theorem exists_lineAround {text : List Char} {offset : Nat} {c : Char}
    (hchar : text[offset]? = some c) (hc : c ≠ '\n') :
    ∃ before line later, LineAround text offset before line later ∧
      (Position.inText text offset).line = 1 + before.count '\n' ∧
      (Position.inText text offset).column + before.length = 1 + offset := by
  obtain ⟨hlt, hget⟩ := List.getElem?_eq_some_iff.mp hchar
  -- Backwards and forwards, the line goes on up to the next line feed.
  obtain ⟨back, front, hbefore, hback, hbackFree, hfront⟩ :=
    Lexer.exists_line (text.take offset).reverse
  obtain ⟨ahead, later, hbehind, -, haheadFree, hlater⟩ := Lexer.exists_line (text.drop offset)
  have htake : text.take offset = front.reverse ++ back.reverse := by
    rw [← List.reverse_append, ← hbefore, List.reverse_reverse]
  have hlength : front.length + back.length = offset := by
    have hmin := congrArg List.length htake
    rw [List.length_take_of_le (Nat.le_of_lt hlt), List.length_append, List.length_reverse,
      List.length_reverse] at hmin
    exact hmin.symm
  -- The character itself is ahead, because it is no line feed.
  have hahead : 0 < ahead.length := by
    rw [List.length_pos_iff]
    rintro rfl
    have hhead : later.head? = some c := by
      rw [← hchar, ← List.head?_drop, hbehind, List.nil_append]
    rcases hlater with hfeed | rfl
    · exact hc (Option.some.inj (hhead.symm.trans hfeed))
    · cases hhead
  refine ⟨front.reverse, back.reverse ++ ahead, later, ⟨?_, ?_, ?_, hlater, ?_, ?_⟩, ?_, ?_⟩
  · rw [List.append_assoc, ← hbehind, ← List.append_assoc, ← htake, List.take_append_drop]
  · intro hmem
    rcases List.mem_append.mp hmem with hmem | hmem
    · exact hbackFree (List.mem_reverse.mp hmem)
    · exact haheadFree hmem
  · rcases hfront with hfeed | rfl
    · right
      rw [List.getLast?_reverse]
      exact hfeed
    · exact .inl rfl
  · rw [List.length_reverse]
    omega
  · simp only [List.length_reverse, List.length_append]
    omega
  · show 1 + (text.take offset).count '\n' = _
    have hnone : back.reverse.count '\n' = 0 := by
      rw [List.count_reverse]
      exact List.count_eq_zero_of_not_mem hbackFree
    rw [htake, List.count_append, hnone, Nat.add_zero]
  · show 1 + Lexer.lineLength (text.take offset).reverse + _ = _
    rw [← hback, List.length_reverse]
    omega

end Text

/-! ### First characters -/

namespace Lexer

/-- No token starts with a line feed. -/
theorem scanToken_feed (rest : List Char) :
    scanToken '\n' rest = .error ⟨.unexpectedCharacter '\n', 0, 1⟩ := by
  have hdigit : Text.isDigit '\n' = false := by decide
  have hname : isNameStart '\n' = false := by decide
  unfold scanToken
  rw [if_neg (by decide), hdigit, hname]
  cases rest with
  | nil => rfl
  | cons c rest => rfl

/-- No token is empty, and none starts with a line feed. -/
theorem exists_char_of_mem {file : Option String} {p : Position} {text : List Char} {token : Token}
    (h : token ∈ (scanFrom file p text).tokens) :
    ∃ c rest, token.lexeme.toList = c :: rest ∧ c ≠ '\n' := by
  obtain ⟨c, rest, n, start, stop, content, hscan, rfl⟩ := exists_scanToken_of_mem h
  refine ⟨c, rest.take (n - 1), String.toList_ofList, ?_⟩
  rintro rfl
  rw [scanToken_feed] at hscan
  cases hscan

end Lexer

/-- A lexeme starts with the character at the offset of its token. -/
theorem Token.StandsIn.getElem?_start {token : Token} {text : List Char} (h : token.StandsIn text)
    {c : Char} {rest : List Char} (hlexeme : token.lexeme.toList = c :: rest) :
    text[token.span.start.offset]? = some c := by
  have hextract := h.lexeme_eq
  rw [hlexeme, List.extract_eq_take_drop] at hextract
  rw [← List.head?_drop]
  cases hdrop : text.drop token.span.start.offset with
  | nil =>
    rw [hdrop, List.take_nil] at hextract
    cases hextract
  | cons d later =>
    have hpos := Nat.sub_pos_of_lt h.start_lt_stop
    rw [hdrop, List.take_cons hpos] at hextract
    rw [(List.cons.inj hextract).1]
    rfl

/-! ### Expressions of a text -/

namespace Program

/-- Around the start of every expression of a program that was read there is a line. It has the
number of the line and the column of the expression. -/
theorem exists_line_of_place {source : String} {file : Option String} {quoteLines : Bool}
    {program : Program} (h : parse source file quoteLines = .ok program) {span : Span}
    (hspan : span ∈ placesStmts program.statements) :
    ∃ before line later,
      Text.LineAround source.toList span.start.offset before line later ∧
      Text.lineAt? (Text.rows source) span.start.line = some (String.ofList line) ∧
      span.start.column + before.length = 1 + span.start.offset := by
  obtain ⟨token, htoken, hstands, -, hstart⟩ := exists_token_of_place h hspan
  obtain ⟨c, rest, hlexeme, hc⟩ := Lexer.exists_char_of_mem htoken
  have hchar := hstands.getElem?_start hlexeme
  rw [hstart]
  obtain ⟨before, line, later, haround, hline, hcolumn⟩ := Text.exists_lineAround hchar hc
  rw [← hstands.start.2] at hline hcolumn
  refine ⟨before, line, later, haround, ?_, hcolumn⟩
  have hsource : source.isEmpty ≠ true := by
    intro hempty
    rw [String.isEmpty_iff.mp hempty] at hchar
    cases hchar
  unfold Text.lineAt? Text.rows
  rw [hline, if_neg (by omega), if_neg hsource, Nat.add_sub_cancel_left, List.getElem?_map,
    haround.getElem?_rowsOf]
  rfl

end Program

/-- **Diagnostics point at the failing construct.** If a text that can be read is run in a new
session and fails, then the diagnostic has the span of an expression of the program. What it quotes
is the line of the text on which the span starts, between two line feeds or the ends of the text. At
the column of the span, counted from one, this line has the character that the text has at the
offset of the span. -/
theorem diagnostics_point_at_failing_construct (config : Config) (registry : Registry)
    (arrays : Array (Array Value)) (dictionaries : Array Dictionary) (limits : Limits)
    (budget : Nat) (source : String) (file : Option String) {program : Program} {failure : Failure}
    (hparse : Program.parse source file = .ok program)
    (hfails : (Session.runSource limits budget source file
      (Session.start config registry { arrays, dictionaries })).failure? = some failure) :
    let diagnostic := failure.diagnostic
    let start := diagnostic.span.start
    diagnostic.span ∈ placesStmts program.statements ∧
      ∃ before row later, Text.LineAround source.toList start.offset before row later ∧
        diagnostic.sourceLine = some (String.ofList row) ∧
        1 ≤ start.column ∧ ∃ c, row[start.column - 1]? = some c ∧
          source.toList[start.offset]? = some c := by
  intro diagnostic start
  let input : Session.Input := ⟨source, file, budget⟩
  have hread : Program.parse input.source input.file = .ok program := hparse
  have hplaces : input.places = placesStmts program.statements :=
    Session.Input.places_of_parse hread
  have hstart := Heap.relocate_of_native (r := .sparing input.places)
    (Session.blank_start config registry arrays dictionaries).2
  obtain ⟨hspan, hquoted⟩ :=
    (Session.Input.stays_run hread (List.Subset.refl _) hstart).2 failure hfails
  rw [hplaces] at hspan
  obtain ⟨before, row, later, haround, hrow, hcolumn⟩ :=
    Program.exists_line_of_place hparse hspan
  obtain ⟨c, hinRow, hinText⟩ := haround.exists_char
  have hle := haround.start_le
  have hindex : failure.span.start.column - 1 = failure.span.start.offset - before.length := by
    omega
  have hcounted : 1 ≤ failure.span.start.column := by omega
  rw [← hindex] at hinRow
  exact ⟨hspan, before, row, later, haround, hquoted.trans hrow, hcounted, c, hinRow, hinText⟩

/-- A built-in function fails on the second line, within an operation and behind blanks. -/
theorem diagnostics_point_at_failing_construct_builtin :
    let source := "a = [1];\n  b = 1 + len(2);"
    let span : Span := ⟨none, ⟨2, 11, 19⟩, ⟨2, 17, 25⟩⟩
    let failure : Failure :=
      { Failure.ofRuntime (.expectedKind [.string, .array, .dictionary] .number) span with
        sourceLine := some "  b = 1 + len(2);" }
    ∃ program, Program.parse source none = .ok program ∧
      (Session.runSource {} 9 source none (Session.start {} .standard)).failure? = some failure ∧
      span ∈ placesStmts program.statements ∧
      ∃ row, "  b = 1 + len(2);" = String.ofList row ∧
        ∃ c, row[10]? = some c ∧ source.toList[19]? = some c := by
  intro source span failure
  let start := Session.start {} .standard
  have hfails : (Session.runSource {} 9 source none start).failure? = some failure := by
    decide +kernel
  have hreads : (Program.parse source none).isOk = true := by decide +kernel
  cases hparse : Program.parse source none with
  | error refusal =>
    rw [hparse] at hreads
    cases hreads
  | ok program =>
    obtain ⟨hspan, before, row, later, -, hquoted, -, hchar⟩ :=
      diagnostics_point_at_failing_construct {} .standard #[] #[] {} 9 source none hparse hfails
    exact ⟨program, rfl, hfails, hspan, row, Option.some.inj hquoted, hchar⟩

end DecimalScript
