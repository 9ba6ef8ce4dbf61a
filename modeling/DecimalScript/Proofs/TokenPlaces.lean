import DecimalScript.Proofs.Respelling
import Mathlib.Data.List.Induction

/-!
# Tokens tile their text

Reading a text advances a position over gaps and lexemes, one after the other, so the position is
always the one behind everything read so far. What that position has to be is said here by the text
alone: its line counts the line feeds before it, and its column the characters behind the last of
them.

- `Position.LiesIn`: a position is right for a text.
- `Lexer.Gap`: blanks and complete comments; `Lexer.gap_take_gapLength`: what is skipped is a gap.
- `Lexer.Tiles`: tokens cover a text up to gaps.
- `tokens_tile_their_text`: the tokens of every text do, also where reading it fails.
-/

namespace DecimalScript

/-! ### Positions of a text -/

namespace Position

/-- The position before the character at an offset of a text. Its line is one more than the line
feeds before it, its column one more than the characters since the last of them. -/
def inText (text : List Char) (offset : Nat) : Position where
  line := 1 + (text.take offset).count '\n'
  column := 1 + ((text.take offset).reverse.takeWhile (· != '\n')).length
  offset := offset

/-- The position is the one of its offset in a text. -/
def LiesIn (p : Position) (text : List Char) : Prop :=
  p.offset ≤ text.length ∧ p = inText text p.offset

theorem advance_append (p : Position) (text later : List Char) :
    p.advance (text ++ later) = (p.advance text).advance later :=
  List.foldl_append

/-- Advancing over a text from the start leads to the position behind all of it. -/
theorem advance_start (text : List Char) : start.advance text = inText text text.length := by
  induction text using List.reverseRecOn with
  | nil => rfl
  | append_singleton text c ih =>
    rw [advance_append, ih]
    show (inText text text.length).next c = _
    unfold next inText
    rw [List.take_length, List.take_length, List.reverse_concat, List.count_append]
    by_cases hc : c = '\n'
    · subst hc
      simp [Nat.add_assoc]
    · simp [hc, Nat.add_comm]

theorem offset_advance_start (text : List Char) : (start.advance text).offset = text.length := by
  rw [advance_start]
  rfl

/-- What follows behind an offset does not matter. -/
theorem inText_append {text : List Char} {offset : Nat} (h : offset ≤ text.length)
    (later : List Char) : inText (text ++ later) offset = inText text offset := by
  unfold inText
  rw [List.take_append_of_le_length h]

/-- The position behind the start of a text lies in the text. -/
theorem liesIn_advance_start (text later : List Char) :
    (start.advance text).LiesIn (text ++ later) := by
  unfold LiesIn
  rw [offset_advance_start, inText_append (Nat.le_refl _), ← advance_start]
  exact ⟨by simp, rfl⟩

end Position

namespace Lexer

/-! ### Gaps -/

/-- Blanks and complete comments. A line comment goes on to a line feed, or to the end of the text
if the gap is the last piece of it; a block comment ends with the first `*/` in it. -/
inductive Gap (last : Bool) : List Char → Prop
  | empty : Gap last []
  | blank {c : Char} {rest : List Char} (hc : c ∈ [' ', '\t', '\r', '\n']) (h : Gap last rest) :
    Gap last (c :: rest)
  | lineComment {line rest : List Char} (hline : '\n' ∉ line)
    (hend : rest.head? = some '\n' ∨ rest = [] ∧ last = true) (h : Gap last rest) :
    Gap last ('/' :: '/' :: (line ++ rest))
  | blockComment {comment rest : List Char} (hcomment : ¬ ['*', '/'] <:+: comment)
    (h : Gap last rest) : Gap last ('/' :: '*' :: (comment ++ '*' :: '/' :: rest))

/-- A comment's text is what stands before the first `*/`. -/
theorem commentLength?_eq_some {text : List Char} {n : Nat} (h : commentLength? text = some n) :
    ∃ comment rest, text = comment ++ '*' :: '/' :: rest ∧ ¬ ['*', '/'] <:+: comment ∧
      n = comment.length + 2 := by
  fun_induction commentLength? text generalizing n with
  | case1 => cases h
  | case2 rest =>
    cases h
    exact ⟨[], rest, rfl, by simp, rfl⟩
  | case3 c rest hne ih =>
    obtain ⟨k, hk, rfl⟩ := Option.map_eq_some_iff.mp h
    obtain ⟨comment, later, rfl, hinner, rfl⟩ := ih hk
    refine ⟨c :: comment, later, rfl, ?_, rfl⟩
    -- A closing mark inside the comment would either start here or lie further on.
    rw [List.infix_cons_iff]
    rintro (hstarts | hinfix)
    · obtain ⟨more, hmore⟩ := hstarts
      cases hmore
      exact hne _ rfl rfl
    · exact hinner hinfix

/-- A gap behind a gap ends where both together do. -/
theorem shiftGap_eq_ok {n k : Nat} {x : Except Nat Nat} (h : shiftGap n x = .ok k) :
    ∃ j, x = .ok j ∧ k = n + j := by
  cases x with
  | ok j =>
    cases h
    exact ⟨j, rfl, rfl⟩
  | error j => cases h

/-- A line's text has no line feed, and behind it stands one or nothing. -/
theorem exists_line (text : List Char) :
    ∃ line rest, text = line ++ rest ∧ line.length = lineLength text ∧ '\n' ∉ line ∧
      (rest.head? = some '\n' ∨ rest = []) := by
  refine ⟨text.takeWhile (· != '\n'), text.dropWhile (· != '\n'),
    List.takeWhile_append_dropWhile.symm, rfl, ?_, ?_⟩
  · intro hmem
    simpa using mem_takeWhile hmem
  · cases hrest : text.dropWhile (· != '\n') with
    | nil => exact .inr rfl
    | cons c rest =>
      have hhead := List.head?_dropWhile_not (· != '\n') text
      rw [hrest] at hhead
      left
      simpa using hhead

/-- A line feed is skipped. -/
theorem head?_take_gapLength {text : List Char} {n : Nat} (h : gapLength text = .ok n)
    (hhead : text.head? = some '\n') : (text.take n).head? = some '\n' := by
  obtain ⟨rest, rfl⟩ := List.head?_eq_some_iff.mp hhead
  unfold gapLength at h
  rw [if_pos (by rfl)] at h
  obtain ⟨k, -, rfl⟩ := shiftGap_eq_ok h
  rw [Nat.add_comm]
  rfl

/-- What is skipped goes on behind what was skipped first. -/
theorem Gap.of_front (front rest : List Char) {k n : Nat} (hn : n = front.length + k)
    (h : Gap (rest.drop k).isEmpty (front ++ rest.take k)) :
    Gap ((front ++ rest).drop n).isEmpty ((front ++ rest).take n) := by
  rw [hn, List.drop_length_add_append, List.take_length_add_append]
  exact h

/-- What is skipped in front of a token, or at the end of a text, is a gap. -/
theorem gap_take_gapLength {text : List Char} {n : Nat} (h : gapLength text = .ok n) :
    Gap (text.drop n).isEmpty (text.take n) := by
  -- The scan recurses behind each blank and comment, which is where the gap gets its next piece.
  fun_induction gapLength text generalizing n with
  | case1 =>
    cases h
    exact .empty
  | case2 c rest hblank ih =>
    obtain ⟨k, hk, rfl⟩ := shiftGap_eq_ok h
    refine Gap.of_front [c] rest rfl (.blank ?_ (ih hk))
    simpa [isGapBlank, or_assoc] using hblank
  | case3 text hblank ih =>
    obtain ⟨k, hk, rfl⟩ := shiftGap_eq_ok h
    obtain ⟨line, rest, htext, hlength, hline, hend⟩ := exists_line text
    have hrest : text.drop (lineLength text) = rest := by
      rw [← hlength, htext]
      simp
    rw [hrest] at ih hk
    rw [← hlength, htext]
    refine Gap.of_front ('/' :: '/' :: line) rest ?_ (.lineComment hline ?_ (ih hk))
    · simp only [List.length_cons]
      omega
    · rcases hend with hfeed | rfl
      · exact .inl (head?_take_gapLength hk hfeed)
      · exact .inr (by simp)
  | case4 text m hcomment hblank ih =>
    obtain ⟨k, hk, rfl⟩ := shiftGap_eq_ok h
    obtain ⟨comment, rest, rfl, hinner, rfl⟩ := commentLength?_eq_some hcomment
    have hrest : (comment ++ '*' :: '/' :: rest).drop (comment.length + 2) = rest := by simp
    rw [hrest] at ih hk
    have hgap := Gap.of_front ('/' :: '*' :: (comment ++ ['*', '/'])) rest
      (n := 2 + (comment.length + 2) + k) (k := k) (by simp; omega)
      (by simpa using Gap.blockComment hinner (ih hk))
    simpa using hgap
  | case5 => cases h
  | case6 =>
    cases h
    exact .empty

end Lexer

/-! ### Tokens between gaps -/

/-- A token stands in a text where its span says: both ends are right, and between them is its
lexeme, which is not empty. -/
structure Token.StandsIn (token : Token) (text : List Char) : Prop where
  start : token.span.start.LiesIn text
  stop : token.span.stop.LiesIn text
  lexeme_ne : token.lexeme ≠ ""
  lexeme_eq : token.lexeme.toList =
    text.extract token.span.start.offset token.span.stop.offset

theorem Token.StandsIn.start_lt_stop {token : Token} {text : List Char} (h : token.StandsIn text) :
    token.span.start.offset < token.span.stop.offset := by
  rw [← Nat.not_le]
  intro hle
  refine h.lexeme_ne (String.toList_eq_nil_iff.mp ?_)
  rw [h.lexeme_eq, List.extract_eq_take_drop, Nat.sub_eq_zero_of_le hle, List.take_zero]

namespace Lexer

/-- From an offset on, a text consists of tokens, each behind a gap, up to another offset. -/
def Tiles (text : List Char) : (offset : Nat) → List Token → (reached : Nat) → Prop
  | offset, [], reached => reached = offset
  | offset, token :: tokens, reached =>
    offset ≤ token.span.start.offset ∧ Gap false (text.extract offset token.span.start.offset) ∧
      token.StandsIn text ∧ Tiles text token.span.stop.offset tokens reached

/-- How a text goes on behind its last token: a gap up to its end; or a fault, the ends of which are
right. -/
def Closes (text : List Char) (reached : Nat) : Except Failure Position → Prop
  | .ok stop => stop = .inText text text.length ∧ Gap true (text.drop reached)
  | .error failure => reached ≤ failure.span.start.offset ∧
      failure.span.start.offset ≤ failure.span.stop.offset ∧
      failure.span.start.LiesIn text ∧ failure.span.stop.LiesIn text

/-- What is between two offsets is the piece that lies between them. -/
theorem extract_append (before piece later : List Char) :
    (before ++ (piece ++ later)).extract before.length (before ++ piece).length = piece := by
  rw [List.extract_eq_take_drop, List.drop_left, List.length_append, Nat.add_sub_cancel_left,
    List.take_left]

/-- What is read behind a text stands there. -/
theorem standsIn_read (content : TokenContent) (file : Option String) (before later : List Char)
    {lexeme : List Char} (h : lexeme ≠ []) :
    Token.StandsIn ⟨content, String.ofList lexeme,
        ⟨file, Position.start.advance before, (Position.start.advance before).advance lexeme⟩⟩
      (before ++ (lexeme ++ later)) := by
  rw [← Position.advance_append]
  refine ⟨Position.liesIn_advance_start before _, ?_, ?_, ?_⟩
  · rw [← List.append_assoc]
    exact Position.liesIn_advance_start (before ++ lexeme) later
  · simpa using h
  · rw [Position.offset_advance_start, Position.offset_advance_start, extract_append,
      String.toList_ofList]

/-- Characters at fault behind a text have their ends there. -/
theorem closes_failureAt (file : Option String) (before text : List Char) (slip : Slip)
    {reached : Nat} (hreached : reached ≤ before.length) :
    Closes (before ++ text) reached
      (.error (failureAt file (Position.start.advance before) text slip)) := by
  let skipped := text.take slip.offset
  let wrong := (text.drop slip.offset).take slip.length
  -- The failure's span covers `wrong`, and what the scan read before it is `skipped`.
  have htext : before ++ text =
      before ++ skipped ++ (wrong ++ (text.drop slip.offset).drop slip.length) := by
    rw [List.take_append_drop, List.append_assoc, List.take_append_drop]
  let failure := failureAt file (Position.start.advance before) text slip
  have hstart : failure.span.start = Position.start.advance (before ++ skipped) :=
    (Position.advance_append _ _ _).symm
  have hstop : failure.span.stop = Position.start.advance (before ++ skipped ++ wrong) := by
    rw [Position.advance_append, ← hstart]
    rfl
  show reached ≤ failure.span.start.offset ∧
    failure.span.start.offset ≤ failure.span.stop.offset ∧
    failure.span.start.LiesIn _ ∧ failure.span.stop.LiesIn _
  rw [hstart, hstop, Position.offset_advance_start, Position.offset_advance_start, htext]
  refine ⟨?_, by simp, Position.liesIn_advance_start _ _, ?_⟩
  · rw [List.length_append]
    omega
  · rw [← List.append_assoc]
    exact Position.liesIn_advance_start _ _

/-- Behind what was read before, the tokens of a text tile it. -/
theorem tiles_scanFrom (file : Option String) (p : Position) (before text : List Char)
    (hp : p = .advance .start before) :
    ∃ reached, Tiles (before ++ text) before.length (scanFrom file p text).tokens reached ∧
      Closes (before ++ text) reached (scanFrom file p text).ending := by
  fun_induction scanFrom file p text generalizing before with
  | case1 p text offset hgap =>
    subst hp
    exact ⟨before.length, rfl, closes_failureAt file before text _ (Nat.le_refl _)⟩
  | case2 p text gap hgap start hdrop =>
    have hwhole : text.take gap = text := by
      rw [← List.append_nil (text.take gap), ← hdrop, List.take_append_drop]
    have hstart : start = Position.start.advance (before ++ text) := by
      rw [Position.advance_append, ← hp]
      exact congrArg p.advance hwhole
    refine ⟨before.length, rfl, ?_, ?_⟩
    · rw [hstart, Position.advance_start]
    · have hlast := gap_take_gapLength hgap
      rw [hwhole, hdrop] at hlast
      rw [List.drop_left]
      exact hlast
  | case3 p text gap hgap start c rest hdrop slip hscan =>
    have htext : before ++ text = before ++ text.take gap ++ (c :: rest) := by
      rw [← hdrop, List.append_assoc, List.take_append_drop]
    have hstart : start = Position.start.advance (before ++ text.take gap) := by
      rw [Position.advance_append, ← hp]
    refine ⟨before.length, rfl, ?_⟩
    rw [htext, hstart]
    exact closes_failureAt file _ _ slip (by simp)
  | case4 p text gap hgap start c rest hdrop content n hscan lexeme stop token ih =>
    -- The text read before the token, the token, and what is read next.
    let front := before ++ text.take gap
    let later := rest.drop (n - 1)
    have hrest : c :: rest = lexeme ++ later := by
      show c :: rest = c :: (rest.take (n - 1) ++ rest.drop (n - 1))
      rw [List.take_append_drop]
    have htext : before ++ text = front ++ (lexeme ++ later) := by
      rw [← hrest, ← hdrop, List.append_assoc, List.take_append_drop]
    have hstart : start = Position.start.advance front := by
      rw [Position.advance_append, ← hp]
    have hstop : stop = Position.start.advance (front ++ lexeme) := by
      rw [Position.advance_append, ← hstart]
    have hlast := gap_take_gapLength hgap
    rw [hdrop] at hlast
    obtain ⟨reached, htiles, hcloses⟩ := ih (front ++ lexeme) hstop
    have hoffset : token.span.start.offset = front.length := by
      show start.offset = _
      rw [hstart, Position.offset_advance_start]
    have hnext : token.span.stop.offset = (front ++ lexeme).length := by
      show stop.offset = _
      rw [hstop, Position.offset_advance_start]
    have hstands : token.StandsIn (front ++ (lexeme ++ later)) := by
      have hread := standsIn_read content file front later (List.cons_ne_nil c _ : lexeme ≠ [])
      rwa [← hstart] at hread
    rw [List.append_assoc] at htiles hcloses
    rw [htext]
    refine ⟨reached, ⟨?_, ?_, hstands, ?_⟩, hcloses⟩
    · rw [hoffset, List.length_append]
      omega
    · rw [hoffset, List.append_assoc, extract_append]
      exact hlast
    · rw [hnext]
      exact htiles

/-! ### What tiling says of all tokens -/

variable {text : List Char} {offset reached : Nat} {tokens : List Token}

theorem Tiles.standsIn (h : Tiles text offset tokens reached) :
    ∀ token ∈ tokens, token.StandsIn text := by
  induction tokens generalizing offset with
  | nil => exact nofun
  | cons token tokens ih =>
    obtain ⟨-, -, hstands, hlater⟩ := h
    exact List.forall_mem_cons.mpr ⟨hstands, ih hlater⟩

/-- Every token starts at the offset or behind it. -/
theorem Tiles.le_start (h : Tiles text offset tokens reached) :
    ∀ token ∈ tokens, offset ≤ token.span.start.offset := by
  induction tokens generalizing offset with
  | nil => exact nofun
  | cons token tokens ih =>
    obtain ⟨hstart, -, hstands, hlater⟩ := h
    have hspan := hstands.start_lt_stop
    refine List.forall_mem_cons.mpr ⟨hstart, fun next hnext => ?_⟩
    have hbehind := ih hlater next hnext
    omega

/-- No token starts before the end of an earlier one. -/
theorem Tiles.pairwise (h : Tiles text offset tokens reached) :
    tokens.Pairwise fun a b => a.span.stop.offset ≤ b.span.start.offset := by
  induction tokens generalizing offset with
  | nil => exact .nil
  | cons token tokens ih =>
    obtain ⟨-, -, -, hlater⟩ := h
    exact .cons hlater.le_start (ih hlater)

end Lexer

theorem Failure.span_quoting (failure : Failure) (lines : List String) :
    (failure.quoting lines).span = failure.span := by
  unfold quoting
  split <;> rfl

theorem Token.kind_ne_endOfFile (token : Token) : token.kind ≠ .endOfFile := by
  unfold kind
  cases token.content <;> exact nofun

/-- **Tokens tile their text, and their positions are right.** Whatever the text:

- no token is the end of the text; every token has a lexeme that is not empty and is what the text
  has between both ends of its span, and both ends are the positions of their offsets;
- the spans follow each other and do not overlap;
- before and between the tokens there are blanks and complete comments. If the text can be read to
  its end, this holds behind the last token, too, and the end is reported at the position behind the
  whole text. If it cannot, the fault starts behind the last token, and both ends of its span are
  the positions of their offsets. -/
theorem tokens_tile_their_text (source : String) (file : Option String) :
    let scan := Lexer.scan source file
    let text := source.toList
    (∀ token ∈ scan.tokens, token.kind ≠ .endOfFile ∧ token.StandsIn text) ∧
      scan.tokens.Pairwise (fun a b => a.span.stop.offset ≤ b.span.start.offset) ∧
      ∃ reached, Lexer.Tiles text 0 scan.tokens reached ∧
        Lexer.Closes text reached scan.ending := by
  intro scan text
  obtain ⟨reached, htiles, hcloses⟩ := Lexer.tiles_scanFrom file .start [] text rfl
  have hending : Lexer.Closes text reached scan.ending := by
    show Lexer.Closes text reached ((Lexer.scanFrom file .start text).ending.mapError _)
    -- Quoting a line into a failure leaves its span as it is.
    cases hend : (Lexer.scanFrom file .start text).ending with
    | ok stop =>
      rw [hend] at hcloses
      exact hcloses
    | error failure =>
      rw [hend] at hcloses
      show Lexer.Closes text reached (.error (failure.quoting _))
      simp only [Lexer.Closes, failure.span_quoting]
      exact hcloses
  exact ⟨fun token htoken => ⟨token.kind_ne_endOfFile, htiles.standsIn token htoken⟩,
    htiles.pairwise, reached, htiles, hending⟩

end DecimalScript
