import DecimalScript.Proofs.DiagnosticPlaces
import DecimalScript.Proofs.FirstImpossibleToken
import DecimalScript.Proofs.TokenLayout

/-!
# The line that a fault quotes

A text that cannot be read is quoted by the number of the line on which the fault starts. That
number counts line feeds, but the lines that are quoted end at other boundaries as well: a carriage
return without its line feed, a vertical tab, a form feed, and those of Unicode. Each boundary
before the fault that is not counted makes the line that is quoted an earlier one. If there is none,
it is the right one.

- `Text.uncounted`: how many of the boundaries in a text are not counted.
- `Text.exists_lastLine`: a text is cut behind its last boundary. `Text.linesOf_append`: lines do
  not go on over that place.
- `Lexer.uncut_scanFrom`, `Program.startsFault_of_parse`: no fault starts within a boundary of two
  characters.
- `Text.line_of_startsFault`: which line has the number of the place of a fault.
- `faults_quote_their_line_unless_uncounted`: the same for the line that is quoted.
-/

namespace DecimalScript

open DecimalScript.Parser Derivations

namespace Text

/-! ### Boundaries that line numbers do not count -/

/-- The number of line boundaries that line numbers do not count: all but line feeds, where a
carriage return with its line feed is one boundary. -/
def uncounted : List Char → Nat
  | [] => 0
  | '\r' :: '\n' :: rest => uncounted rest
  | c :: rest => (if isLineBoundary c && c != '\n' then 1 else 0) + uncounted rest

/-- No line boundary is among the characters. -/
def Unbroken (piece : List Char) : Prop :=
  ∀ c ∈ piece, isLineBoundary c = false

/-- Whole lines: the last character, if there is one, is a line boundary. -/
def Closed (front : List Char) : Prop :=
  ∀ c ∈ front.getLast?, isLineBoundary c = true

theorem Closed.tail {c : Char} {front : List Char} (h : Closed (c :: front)) : Closed front := by
  cases front with
  | nil => exact nofun
  | cons d front => exact fun e he => h e (by rw [List.getLast?_cons_cons]; exact he)

/-- A carriage return and its line feed are not cut. -/
def Uncut (front rest : List Char) : Prop :=
  front.getLast? = some '\r' → rest.head? ≠ some '\n'

theorem Uncut.tail {c : Char} {front rest : List Char} (h : Uncut (c :: front) rest) :
    Uncut front rest := by
  cases front with
  | nil => exact nofun
  | cons d front => exact fun hlast => h (by rw [List.getLast?_cons_cons]; exact hlast)

/-- A text is cut behind its last boundary. -/
theorem exists_lastLine (text : List Char) :
    ∃ front piece, text = front ++ piece ∧ Closed front ∧ Unbroken piece := by
  induction text with
  | nil => exact ⟨[], [], rfl, nofun, nofun⟩
  | cons c text ih =>
    obtain ⟨front, piece, rfl, hfront, hpiece⟩ := ih
    cases front with
    | cons d front =>
      refine ⟨c :: d :: front, piece, rfl, ?_, hpiece⟩
      intro e he
      rw [List.getLast?_cons_cons] at he
      exact hfront e he
    | nil =>
      by_cases hc : isLineBoundary c = true
      · exact ⟨[c], piece, rfl, fun d hd => Option.some.inj hd ▸ hc, hpiece⟩
      · refine ⟨[], c :: piece, rfl, nofun, List.forall_mem_cons.mpr ⟨?_, hpiece⟩⟩
        exact Bool.eq_false_iff.mpr hc

/-! ### Lines behind whole lines -/

/-- Lines are cut at one character after another, except between the two of a carriage return and
line feed. -/
theorem linesOf_cons {c : Char} {text : List Char} (h : c = '\r' → text.head? ≠ some '\n') :
    linesOf (c :: text) =
      if isLineBoundary c then [] :: linesOf text else consLine c (linesOf text) := by
  rw [linesOf]
  rintro rest rfl rfl
  exact h rfl rfl

theorem consLine_append (c : Char) {lines : List (List Char)} (h : lines ≠ [])
    (later : List (List Char)) : consLine c (lines ++ later) = consLine c lines ++ later := by
  cases lines with
  | nil => exact absurd rfl h
  | cons line lines => rfl

theorem linesOf_ne_nil {text : List Char} (h : text ≠ []) : linesOf text ≠ [] := by
  fun_cases linesOf text with
  | case1 => exact absurd rfl h
  | case2 => exact List.cons_ne_nil _ _
  | case3 => exact List.cons_ne_nil _ _
  | case4 c rest => cases linesOf rest <;> exact List.cons_ne_nil _ _

theorem Uncut.head_ne {c : Char} {front rest : List Char} (h : Uncut (c :: front) rest)
    (hne : ∀ later, c = '\r' → front = '\n' :: later → False) :
    c = '\r' → (front ++ rest).head? ≠ some '\n' := by
  rintro rfl hhead
  cases front with
  | nil => exact h rfl hhead
  | cons d front =>
    obtain rfl := Option.some.inj hhead
    exact hne front rfl rfl

/-- Lines do not go on over the end of whole lines. -/
theorem linesOf_append {front rest : List Char} (hfront : Closed front) (hcut : Uncut front rest) :
    linesOf (front ++ rest) = linesOf front ++ linesOf rest := by
  fun_induction linesOf front with
  | case1 => rfl
  | case2 front ih =>
    show [] :: linesOf (front ++ rest) = [] :: (linesOf front ++ linesOf rest)
    rw [ih hfront.tail.tail hcut.tail.tail]
  | case3 c front hne hc ih =>
    rw [List.cons_append, linesOf_cons (hcut.head_ne hne), if_pos hc, ih hfront.tail hcut.tail]
    rfl
  | case4 c front hne hc ih =>
    have hmore : front ≠ [] := by
      rintro rfl
      exact hc (hfront c rfl)
    rw [List.cons_append, linesOf_cons (hcut.head_ne hne), if_neg hc, ih hfront.tail hcut.tail,
      consLine_append c (linesOf_ne_nil hmore)]

/-- A boundary that is no line feed is not counted. -/
theorem uncounted_cons {c : Char} {text : List Char} (h : c = '\r' → text.head? ≠ some '\n') :
    uncounted (c :: text) = (if isLineBoundary c && c != '\n' then 1 else 0) + uncounted text := by
  rw [uncounted]
  rintro rest rfl rfl
  exact h rfl rfl

/-- The hypothesis under which a character stands for itself, as recursions over lines give it. -/
theorem head_ne_of {c : Char} {text : List Char}
    (hne : ∀ later, c = '\r' → text = '\n' :: later → False) :
    c = '\r' → text.head? ≠ some '\n' := by
  intro hc hhead
  obtain ⟨later, rfl⟩ := List.head?_eq_some_iff.mp hhead
  exact hne later hc rfl

/-- Whole lines are as many as there are boundaries. -/
theorem length_linesOf {front : List Char} (h : Closed front) :
    (linesOf front).length = front.count '\n' + uncounted front := by
  fun_induction linesOf front with
  | case1 => rfl
  | case2 front ih =>
    rw [List.length_cons, ih h.tail.tail, uncounted]
    simp only [List.count_cons]
    simp
    omega
  | case3 c front hne hc ih =>
    rw [List.length_cons, ih h.tail, uncounted_cons (head_ne_of hne), List.count_cons]
    by_cases hfeed : c = '\n'
    · simp [hfeed]
      omega
    · simp [hfeed, hc]
      omega
  | case4 c front hne hc ih =>
    -- A character that ends no line cannot be the last one of a closed front.
    have hmore : front ≠ [] := by
      rintro rfl
      exact hc (h c rfl)
    have hfeed : c ≠ '\n' := by
      rintro rfl
      exact hc rfl
    have hlength : (consLine c (linesOf front)).length = (linesOf front).length := by
      cases hlines : linesOf front with
      | nil => exact absurd hlines (linesOf_ne_nil hmore)
      | cons line lines => rfl
    rw [hlength, ih h.tail, uncounted_cons (head_ne_of hne), List.count_cons]
    simp [hfeed, hc]

/-- Within a line there is nothing to count. -/
theorem uncounted_of_unbroken {piece : List Char} (h : Unbroken piece) : uncounted piece = 0 := by
  induction piece with
  | nil => rfl
  | cons c piece ih =>
    obtain ⟨hc, hpiece⟩ := List.forall_mem_cons.mp h
    have hne : c = '\r' → piece.head? ≠ some '\n' := by
      rintro rfl
      cases hc
    rw [uncounted_cons hne, ih hpiece, hc]
    rfl

/-- Behind the last boundary nothing is uncounted. -/
theorem uncounted_append {front piece : List Char} (h : Unbroken piece) :
    uncounted (front ++ piece) = uncounted front := by
  fun_induction uncounted front with
  | case1 => exact uncounted_of_unbroken h
  | case2 front ih => exact ih
  | case3 c front hne ih =>
    have hcut : c = '\r' → (front ++ piece).head? ≠ some '\n' := by
      intro hc hhead
      cases front with
      | nil => cases h '\n' (List.mem_of_mem_head? hhead)
      | cons d front => exact head_ne_of hne hc hhead
    rw [List.cons_append, uncounted_cons hcut, ih]

/-- Whole lines that are all counted end with a line feed. -/
theorem Closed.getLast_of_counted {front : List Char} (h : Closed front)
    (hcounted : uncounted front = 0) : front = [] ∨ front.getLast? = some '\n' := by
  -- Only the last character matters, and it stays the last one under any that stand before it.
  have hcons : ∀ {c : Char} {front : List Char}, front.getLast? = some '\n' →
      (c :: front).getLast? = some '\n' := fun hlast => by rw [List.getLast?_cons, hlast]; rfl
  fun_induction uncounted front with
  | case1 => exact .inl rfl
  | case2 front ih =>
    rcases ih h.tail.tail hcounted with rfl | hlast
    · exact .inr rfl
    · exact .inr (hcons (hcons hlast))
  | case3 c front hne ih =>
    obtain ⟨hc, hfront⟩ := Nat.add_eq_zero_iff.mp hcounted
    rcases ih h.tail hfront with rfl | hlast
    · have hboundary : isLineBoundary c = true := h c rfl
      by_cases hfeed : c = '\n'
      · exact .inr (congrArg some hfeed)
      · simp [hboundary, hfeed] at hc
    · exact .inr (hcons hlast)

/-- The first line goes up to the first boundary. -/
theorem exists_of_head_linesOf {text line : List Char} (h : (linesOf text).head? = some line) :
    ∃ later, text = line ++ later ∧ Unbroken line ∧ ∀ c ∈ later.head?, isLineBoundary c = true := by
  fun_induction linesOf text generalizing line with
  | case1 => cases h
  | case2 text ih =>
    cases h
    exact ⟨_, rfl, nofun, fun c hc => Option.some.inj hc ▸ rfl⟩
  | case3 c text hne hc ih =>
    cases h
    exact ⟨_, rfl, nofun, fun d hd => Option.some.inj hd ▸ hc⟩
  | case4 c text hne hc ih =>
    have hc' : isLineBoundary c = false := Bool.eq_false_iff.mpr hc
    cases hlines : linesOf text with
    | nil =>
      -- Only the empty text has no line.
      obtain rfl : text = [] := by
        by_contra hmore
        exact linesOf_ne_nil hmore hlines
      cases h
      exact ⟨[], rfl, List.forall_mem_singleton.mpr hc', nofun⟩
    | cons first lines =>
      rw [hlines] at h ih
      cases h
      obtain ⟨later, rfl, hfirst, hlater⟩ := ih rfl
      exact ⟨later, rfl, List.forall_mem_cons.mpr ⟨hc', hfirst⟩, hlater⟩

theorem Closed.ne_nil_of_unbroken {line later : List Char} (h : Closed (line ++ later))
    (hne : line ++ later ≠ []) (hline : Unbroken line) : later ≠ [] := by
  rintro rfl
  rw [List.append_nil] at h hne
  have hlast := h _ (List.getLast?_eq_some_getLast hne)
  rw [hline _ (List.getLast_mem hne)] at hlast
  cases hlast

/-- A line among whole lines ends before they do. -/
theorem Closed.exists_of_mem {front line : List Char} (h : Closed front)
    (hline : line ∈ linesOf front) :
    ∃ before later, front = before ++ (line ++ later) ∧ later ≠ [] := by
  fun_induction linesOf front generalizing line with
  | case1 => cases hline
  | case2 front ih =>
    rcases List.mem_cons.mp hline with rfl | hline
    · exact ⟨[], _, rfl, List.cons_ne_nil _ _⟩
    · obtain ⟨before, later, rfl, hlater⟩ := ih h.tail.tail hline
      exact ⟨_ :: _ :: before, later, rfl, hlater⟩
  | case3 c front hne hc ih =>
    rcases List.mem_cons.mp hline with rfl | hline
    · exact ⟨[], _, rfl, List.cons_ne_nil _ _⟩
    · obtain ⟨before, later, rfl, hlater⟩ := ih h.tail hline
      exact ⟨c :: before, later, rfl, hlater⟩
  | case4 c front hne hc ih =>
    have hmore : front ≠ [] := by
      rintro rfl
      exact hc (h c rfl)
    cases hlines : linesOf front with
    | nil => exact absurd hlines (linesOf_ne_nil hmore)
    | cons first lines =>
      rw [hlines] at hline
      rcases List.mem_cons.mp hline with rfl | hline
      · obtain ⟨later, rfl, hfirst, -⟩ := exists_of_head_linesOf (congrArg List.head? hlines)
        exact ⟨[], later, rfl, h.tail.ne_nil_of_unbroken hmore hfirst⟩
      · obtain ⟨before, later, rfl, hlater⟩ := ih h.tail (hlines ▸ List.mem_cons_of_mem _ hline)
        exact ⟨c :: before, later, rfl, hlater⟩

end Text

/-! ### Where faults start -/

namespace Lexer

/-- Behind a comment with a mark of two characters and `m` more. -/
theorem drop_comment (first second : Char) (text : List Char) (m k : Nat) :
    (first :: second :: text).drop (2 + m + k) = (text.drop m).drop k := by
  rw [List.drop_drop, Nat.add_assoc, Nat.add_comm 2, List.drop_succ_cons, List.drop_succ_cons]

/-- No blank is left behind a gap. -/
theorem head?_drop_gapLength {text : List Char} {n : Nat} (h : gapLength text = .ok n) :
    ∀ c ∈ (text.drop n).head?, isGapBlank c = false := by
  -- The cases are those of the scan of a gap: its end, a blank, a comment that ends with its line,
  -- one that is closed, one that never is, and a character that starts a token.
  fun_induction gapLength text generalizing n with
  | case1 =>
    cases h
    intro c hc
    cases hc
  | case2 c rest hblank ih =>
    obtain ⟨k, hk, rfl⟩ := shiftGap_eq_ok h
    rw [Nat.add_comm, List.drop_succ_cons]
    exact ih hk
  | case3 line hblank ih =>
    obtain ⟨k, hk, rfl⟩ := shiftGap_eq_ok h
    rw [drop_comment]
    exact ih hk
  | case4 comment m hcomment hblank ih =>
    obtain ⟨k, hk, rfl⟩ := shiftGap_eq_ok h
    rw [drop_comment]
    exact ih hk
  | case5 => cases h
  | case6 c rest hblank =>
    cases h
    exact fun d hd => Option.some.inj hd ▸ Bool.eq_false_iff.mpr hblank

/-- A fault behind a gap is a fault of what is behind it, moved by the gap. -/
theorem shiftGap_eq_error {n k : Nat} {x : Except Nat Nat} (h : shiftGap n x = .error k) :
    ∃ j, x = .error j ∧ k = n + j := by
  cases x with
  | ok j => cases h
  | error j =>
    cases h
    exact ⟨j, rfl, rfl⟩

/-- A comment that is not closed is at fault from its first character on. -/
theorem head?_drop_of_unclosed {text : List Char} {n : Nat} (h : gapLength text = .error n) :
    (text.drop n).head? = some '/' := by
  fun_induction gapLength text generalizing n with
  | case1 => cases h
  | case2 c rest hblank ih =>
    obtain ⟨k, hk, rfl⟩ := shiftGap_eq_error h
    rw [Nat.add_comm, List.drop_succ_cons]
    exact ih hk
  | case3 line hblank ih =>
    obtain ⟨k, hk, rfl⟩ := shiftGap_eq_error h
    rw [drop_comment]
    exact ih hk
  | case4 comment m hcomment hblank ih =>
    obtain ⟨k, hk, rfl⟩ := shiftGap_eq_error h
    rw [drop_comment]
    exact ih hk
  | case5 =>
    cases h
    rfl
  | case6 => cases h

/-- A bad escape behind some characters is a bad escape of the rest, moved by these. -/
theorem StringScan.after_eq_badEscape {c : Char} {k n : Nat} {scan : StringScan}
    {letter : Option Char} (h : scan.after c k = .badEscape n letter) :
    ∃ m, scan = .badEscape m letter ∧ n = k + m := by
  cases scan with
  | badEscape m _ =>
    cases h
    exact ⟨m, rfl, rfl⟩
  | _ => cases h

/-- In front of the letter of an unknown escape stands a backslash. -/
theorem getLast?_take_badEscape {quote : Char} {text : List Char} {n : Nat} {letter : Option Char}
    (h : scanString quote text = .badEscape n letter) : (text.take n).getLast? = some '\\' := by
  -- The fault lies behind every character read so far, so the last one taken is the backslash.
  have hcons : ∀ (c : Char) {text : List Char}, text.getLast? = some '\\' →
      (c :: text).getLast? = some '\\' := by
    intro c text hlast
    rw [List.getLast?_cons, hlast]
    rfl
  fun_induction scanString quote text generalizing n with
  | case1 => cases h
  | case2 =>
    cases h
    rfl
  | case3 first rest c hescape ih =>
    obtain ⟨m, hm, rfl⟩ := StringScan.after_eq_badEscape h
    rw [Nat.add_comm, List.take_succ_cons, List.take_succ_cons]
    exact hcons _ (hcons _ (ih hm))
  | case4 first rest hescape =>
    cases h
    rfl
  | case5 => cases h
  | case6 c rest hlast hescape hquote ih =>
    obtain ⟨m, hm, rfl⟩ := StringScan.after_eq_badEscape h
    rw [Nat.add_comm, List.take_succ_cons]
    exact hcons _ (ih hm)

/-- A string is at fault from its quote on, or from the letter of an unknown escape on. -/
theorem offset_of_scanQuoted {quote : Char} {rest : List Char} {slip : Slip}
    (h : scanQuoted quote rest = .error slip) :
    slip.offset = 0 ∨ ((quote :: rest).take slip.offset).getLast? = some '\\' := by
  unfold scanQuoted at h
  cases hscan : scanString quote rest with
  | closed value length =>
    rw [hscan] at h
    cases h
  | unclosed =>
    rw [hscan] at h
    cases h
    exact .inl rfl
  | badEscape offset letter =>
    rw [hscan] at h
    cases h
    right
    rw [List.take_succ_cons, List.getLast?_cons, getLast?_take_badEscape hscan]
    rfl

theorem offset_of_scanPlainNumber {text : List Char} {slip : Slip}
    (h : scanPlainNumber text = .error slip) : slip.offset = 0 := by
  unfold scanPlainNumber at h
  dsimp only at h
  split at h
  · cases h
    rfl
  · split at h
    · cases h
    · cases h
      rfl

/-- A number that cannot be read is to blame from its first digit on. -/
theorem offset_of_scanNumber {text : List Char} {slip : Slip}
    (h : scanNumber text = .error slip) : slip.offset = 0 := by
  unfold scanNumber at h
  split at h
  · split at h
    · unfold scanRadixNumber at h
      dsimp only at h
      split at h
      · cases h
        rfl
      · cases h
        rfl
      · cases h
    · exact offset_of_scanPlainNumber h
  · exact offset_of_scanPlainNumber h

theorem offset_of_scanMark {c : Char} {next : Option Char} {slip : Slip}
    (h : scanMark c next = .error slip) : slip.offset = 0 := by
  unfold scanMark at h
  split at h
  · cases h
  · split at h
    · cases h
    · split at h
      · cases h
        rfl
      · cases h
        rfl

/-- A token is at fault from its first character on, or from the letter of an unknown escape on. -/
theorem offset_of_scanToken {c : Char} {rest : List Char} {slip : Slip}
    (h : scanToken c rest = .error slip) :
    slip.offset = 0 ∨ ((c :: rest).take slip.offset).getLast? = some '\\' := by
  unfold scanToken at h
  split at h
  · exact offset_of_scanQuoted h
  split at h
  · exact .inl (offset_of_scanNumber h)
  split at h
  · cases h
  · exact .inl (offset_of_scanMark h)

/-- The start of a fault does not cut a carriage return and its line feed, and no line is quoted
yet. -/
theorem uncut_scanFrom (file : Option String) (p : Position) (before text : List Char)
    (hp : p = .advance .start before) : ∀ failure, (scanFrom file p text).ending = .error failure →
      failure.sourceLine = none ∧ ∃ front rest, before ++ text = front ++ rest ∧
        failure.span.start.offset = front.length ∧ Text.Uncut front rest := by
  fun_induction scanFrom file p text generalizing before with
  | case1 p text offset hgap =>
    rintro failure ⟨⟩
    refine ⟨rfl, before ++ text.take offset, text.drop offset, ?_, ?_, ?_⟩
    · rw [List.append_assoc, List.take_append_drop]
    · show (p.advance (text.take offset)).offset = _
      rw [hp, ← Position.advance_append, Position.offset_advance_start]
    · rintro - hfeed
      rw [head?_drop_of_unclosed hgap] at hfeed
      cases hfeed
  | case2 =>
    intro failure hending
    cases hending
  | case3 p text gap hgap start c rest hdrop slip hscan =>
    rintro failure ⟨⟩
    let front := before ++ text.take gap
    have htext : before ++ text = front ++ (c :: rest) := by
      rw [← hdrop, List.append_assoc, List.take_append_drop]
    have hstart : start = Position.start.advance front := by
      rw [Position.advance_append, ← hp]
    refine ⟨rfl, front ++ (c :: rest).take slip.offset, (c :: rest).drop slip.offset, ?_, ?_, ?_⟩
    · rw [List.append_assoc, List.take_append_drop]
      exact htext
    · show (start.advance _).offset = _
      rw [hstart, ← Position.advance_append, Position.offset_advance_start]
    · -- A fault at the first character of a token is not at a blank, and one at a letter stands
      -- behind a backslash.
      intro hlast hfeed
      rcases offset_of_scanToken hscan with hfirst | hescape
      · have hblank := head?_drop_gapLength hgap c (by rw [hdrop]; rfl)
        rw [hfirst] at hfeed
        obtain rfl := Option.some.inj hfeed
        cases hblank
      · rw [List.getLast?_append, hescape] at hlast
        cases hlast
  | case4 p text gap hgap start c rest hdrop content n hscan lexeme stop token ih =>
    let front := before ++ text.take gap
    have hrest : c :: rest = lexeme ++ rest.drop (n - 1) := by
      show c :: rest = c :: (rest.take (n - 1) ++ rest.drop (n - 1))
      rw [List.take_append_drop]
    have htext : before ++ text = front ++ lexeme ++ rest.drop (n - 1) := by
      rw [List.append_assoc, ← hrest, ← hdrop, List.append_assoc, List.take_append_drop]
    have hstop : stop = Position.start.advance (front ++ lexeme) := by
      rw [Position.advance_append, Position.advance_append, ← hp]
    intro failure hending
    rw [htext]
    exact ih (front ++ lexeme) hstop failure hending

end Lexer

theorem Failure.sourceLine_quoting {failure : Failure} (h : failure.sourceLine = none)
    (lines : List String) :
    (failure.quoting lines).sourceLine = Text.lineAt? lines failure.span.start.line := by
  unfold quoting
  rw [h]

namespace Program

/-- What is refused starts where a token does, or it is the end. -/
theorem exists_token_of_refusal {tokens : List Token} {stop : Span} {refusal : Refusal}
    (h : ofTokens tokens stop = .error refusal) :
    ∀ span ∈ refusal.span, ∃ token ∈ tokens, span.start = token.span.start := by
  obtain ⟨hexpr, hblock⟩ := Grammar.decides_nested tokens.length
  rcases Grammar.statementFails_or_at (Grammar.decides_statement hexpr hblock)
    (fails_of_many (refusal_of_ofTokens h)) (Nat.le_succ _) with hat | ⟨t, c, ht, hhere, -⟩
  · exact hat.starts
  · intro span hspan
    obtain ⟨token, htoken, hstart⟩ := hhere.starts span hspan
    have hrest : tokens = t.yield ++ c.rest := ht.takes.rest
    exact ⟨token, hrest ▸ List.mem_append_right _ htoken, hstart⟩

/-- A text is refused for its characters, or for its tokens if all of them could be read. -/
theorem parse_eq_error {source : String} {file : Option String} {failure : Failure}
    (h : parse source file = .error failure) :
    (Lexer.scan source file).ending = .error failure ∨
      ∃ (position : Position) (refusal : Refusal),
        (Lexer.scan source file).ending = .ok position ∧
        ofTokens (Lexer.scan source file).tokens ⟨file, position, position⟩ = .error refusal ∧
        failure = refusal.toFailure ⟨file, position, position⟩ (Text.lines source) := by
  unfold parse at h
  generalize Lexer.scan source file = scan at h ⊢
  obtain ⟨tokens, ending⟩ := scan
  -- A fault of the scan comes before any refusal, and has its line already.
  cases ending with
  | error raw =>
    cases h
    exact .inl rfl
  | ok position =>
    simp only [if_true] at h
    cases hrefusal : ofTokens tokens ⟨file, position, position⟩ with
    | ok program =>
      rw [hrefusal] at h
      cases h
    | error refusal =>
      rw [hrefusal] at h
      cases h
      exact .inr ⟨position, refusal, rfl, hrefusal, rfl⟩

end Program

/-- A place of a text at which a fault can start: a position of it that does not cut a carriage
return and its line feed. -/
structure Position.StartsFault (start : Position) (text : List Char) : Prop where
  liesIn : start.LiesIn text
  uncut : Text.Uncut (text.take start.offset) (text.drop start.offset)

/-- A scan that fails points at the start of a fault, and quotes the line that has its number. -/
theorem Lexer.startsFault_of_scan {source : String} {file : Option String} {failure : Failure}
    (h : (scan source file).ending = .error failure) :
    failure.span.start.StartsFault source.toList ∧
      failure.sourceLine = Text.lineAt? (Text.lines source) failure.span.start.line := by
  obtain ⟨-, -, reached, -, hcloses⟩ := tokens_tile_their_text source file
  rw [h] at hcloses
  have hending : (scan source file).ending =
      (scanFrom file .start source.toList).ending.mapError (·.quoting (Text.lines source)) := rfl
  cases hraw : (scanFrom file .start source.toList).ending with
  | ok stop =>
    rw [h, hraw] at hending
    cases hending
  | error fault =>
    rw [h, hraw] at hending
    cases hending
    obtain ⟨hline, front, rest, htext, hoffset, hcut⟩ :=
      uncut_scanFrom file .start [] source.toList rfl fault hraw
    rw [List.nil_append] at htext
    have hspan := fault.span_quoting (Text.lines source)
    refine ⟨⟨hcloses.2.2.1, ?_⟩, ?_⟩
    · rw [hspan, hoffset, htext, List.take_left, List.drop_left]
      exact hcut
    · rw [hspan, fault.sourceLine_quoting hline]

/-- The line that a refusal quotes has the number that its span starts on. -/
theorem Refusal.sourceLine_toFailure {refusal : Refusal} {stop : Span} {lines : List String} :
    ∀ line ∈ (refusal.toFailure stop lines).sourceLine,
      Text.lineAt? lines (refusal.span.getD stop).start.line = some line := by
  unfold toFailure
  split
  · exact nofun
  · rw [Failure.sourceLine_quoting rfl]
    exact fun _ hline => hline

theorem Refusal.span_toFailure {refusal : Refusal} {stop : Span} {lines : List String} :
    (refusal.toFailure stop lines).span = refusal.span.getD stop := by
  unfold toFailure
  split
  · rfl
  · rw [Failure.span_quoting]

namespace Program

/-- A text is refused where a fault can start. The line that is quoted is the one that has the
number of this position. -/
theorem startsFault_of_parse {source : String} {file : Option String} {failure : Failure}
    (h : parse source file = .error failure) :
    failure.span.start.StartsFault source.toList ∧
      ∀ line ∈ failure.sourceLine,
        Text.lineAt? (Text.lines source) failure.span.start.line = some line := by
  rcases parse_eq_error h with hscan | ⟨position, refusal, hscan, hrefusal, rfl⟩
  · obtain ⟨hstarts, hline⟩ := Lexer.startsFault_of_scan hscan
    exact ⟨hstarts, fun line hmem => hline ▸ hmem⟩
  obtain ⟨htokens, -, reached, -, hcloses⟩ := tokens_tile_their_text source file
  rw [Refusal.span_toFailure]
  refine ⟨?_, Refusal.sourceLine_toFailure⟩
  cases hspan : refusal.span with
  | none =>
    -- The end of the text: nothing is behind it.
    rw [hscan] at hcloses
    obtain ⟨hposition, -⟩ := hcloses
    subst hposition
    exact ⟨⟨Nat.le_refl _, rfl⟩, fun _ hfeed => by
      have hnothing : (source.toList.drop source.toList.length).head? = none := by simp
      exact absurd (hnothing.symm.trans hfeed) nofun⟩
  | some span =>
    obtain ⟨token, htoken, hstart⟩ := exists_token_of_refusal hrefusal span hspan
    obtain ⟨-, hstands⟩ := htokens token htoken
    obtain ⟨c, rest, hlexeme, hc⟩ := Lexer.exists_char_of_mem htoken
    have hchar := hstands.getElem?_start hlexeme
    show span.start.StartsFault source.toList
    rw [hstart]
    refine ⟨hstands.start, fun _ hfeed => hc ?_⟩
    rw [List.head?_drop, hchar] at hfeed
    exact Option.some.inj hfeed

end Program

/-! ### The line that is quoted -/

/-- The line that is quoted for a place of a text is the right one: it starts where the columns of
that place count from, goes on at least up to the place, and ends at the first line boundary or with
the text. -/
structure Text.QuotedFor (start : Position) (text before line later : List Char) : Prop where
  text_eq : text = before ++ (line ++ later)
  starts : before = [] ∨ before.getLast? = some '\n'
  unbroken : Unbroken line
  stops : ∀ c ∈ later.head?, isLineBoundary c = true
  column_eq : start.column + before.length = 1 + start.offset
  start_le : before.length ≤ start.offset
  le_stop : start.offset ≤ before.length + line.length

/-- If no boundary ends the place, the line has the character that the text has there. -/
theorem Text.QuotedFor.getElem?_column {start : Position} {text before row later : List Char}
    (h : QuotedFor start text before row later) {c : Char} (hc : text[start.offset]? = some c)
    (hboundary : isLineBoundary c = false) : row[start.column - 1]? = some c := by
  have hcolumn := h.column_eq
  have hstart := h.start_le
  have hindex : start.column - 1 = start.offset - before.length := by omega
  rw [h.text_eq, List.getElem?_append_right hstart, ← hindex] at hc
  rcases Nat.lt_or_ge (start.column - 1) row.length with hlt | hge
  · rwa [List.getElem?_append_left hlt] at hc
  · -- The place is behind the line, where a boundary stands.
    have hstop := h.le_stop
    have hend : start.column - 1 - row.length = 0 := by omega
    rw [List.getElem?_append_right hge, hend, ← List.head?_eq_getElem?] at hc
    rw [h.stops c hc] at hboundary
    cases hboundary

namespace Position

/-- The column of a place counts from the last line feed before it. -/
theorem column_inText {text front piece : List Char} {offset : Nat}
    (htake : text.take offset = front ++ piece) (hfront : front = [] ∨ front.getLast? = some '\n')
    (hpiece : '\n' ∉ piece) : (inText text offset).column = 1 + piece.length := by
  show 1 + Lexer.lineLength (text.take offset).reverse = _
  rw [htake, List.reverse_append, Lexer.lineLength_append, List.length_reverse]
  · exact fun hmem => hpiece (List.mem_reverse.mp hmem)
  · rcases hfront with rfl | hlast
    · exact .inr rfl
    · rw [List.head?_reverse]
      exact .inl hlast

end Position

theorem Text.Unbroken.not_mem_feed {piece : List Char} (h : Unbroken piece) : '\n' ∉ piece :=
  fun hmem => Bool.noConfusion (h _ hmem)

/-- Whole lines are not cut from what is behind them, if the characters behind them are unbroken or
a fault starts there. -/
theorem Text.uncut_lastLine {front piece rest : List Char} (hpiece : Unbroken piece)
    (hcut : Uncut (front ++ piece) rest) : Uncut front (piece ++ rest) := by
  cases piece with
  | nil => rwa [List.append_nil] at hcut
  | cons c piece =>
    rintro - hfeed
    obtain rfl := Option.some.inj hfeed
    exact hpiece.not_mem_feed (List.mem_cons_self ..)

/-- A line that goes on to a boundary covers all unbroken characters at its start. -/
theorem Text.Unbroken.length_le {piece rest line later : List Char} (hpiece : Unbroken piece)
    (htext : piece ++ rest = line ++ later) (hstops : ∀ c ∈ later.head?, isLineBoundary c = true) :
    piece.length ≤ line.length := by
  rcases List.append_eq_append_iff.mp htext with ⟨more, rfl, -⟩ | ⟨more, rfl, hlater⟩
  · exact List.length_append ▸ Nat.le_add_right ..
  · cases more with
    | nil => exact (List.append_nil line).symm ▸ Nat.le_refl _
    | cons c more =>
      have hboundary := hstops c (hlater ▸ rfl)
      rw [hpiece c (List.mem_append_right _ (List.mem_cons_self ..))] at hboundary
      cases hboundary

/-- The line that has the number of a place is the right one if all boundaries before the place are
counted. Otherwise it is an earlier one. -/
theorem Text.line_of_startsFault {start : Position} {text line : List Char}
    (h : start.StartsFault text) (hline : (linesOf text)[start.line - 1]? = some line) :
    let skipped := uncounted (text.take start.offset)
    (skipped = 0 → ∃ before later, QuotedFor start text before line later) ∧
      (skipped ≠ 0 → ∃ before later, text = before ++ (line ++ later) ∧
        before.length + line.length < start.offset) := by
  intro skipped
  obtain ⟨front, piece, htake, hfront, hpiece⟩ := exists_lastLine (text.take start.offset)
  have htext : text = front ++ (piece ++ text.drop start.offset) := by
    rw [← List.append_assoc, ← htake, List.take_append_drop]
  have hoffset : start.offset = front.length + piece.length := by
    rw [← List.length_append, ← htake, List.length_take_of_le h.liesIn.1]
  -- The number of the line counts the line feeds among the whole lines before the place.
  have hnumber : start.line - 1 = front.count '\n' := by
    rw [h.liesIn.2]
    show 1 + (text.take start.offset).count '\n' - 1 = _
    rw [htake, List.count_append, List.count_eq_zero_of_not_mem hpiece.not_mem_feed]
    omega
  have hskipped : skipped = uncounted front := by
    show uncounted (text.take start.offset) = _
    rw [htake, uncounted_append hpiece]
  have hcut := uncut_lastLine hpiece (htake ▸ h.uncut)
  rw [htext, linesOf_append hfront hcut, hnumber] at hline
  have hlength := length_linesOf hfront
  constructor
  · intro hcounted
    rw [hskipped] at hcounted
    have hstarts := hfront.getLast_of_counted hcounted
    -- The whole lines before the place are as many as the number counts: it is the next one.
    rw [List.getElem?_append_right (by omega), hlength, hcounted, Nat.add_zero, Nat.sub_self,
      ← List.head?_eq_getElem?] at hline
    obtain ⟨later, hlater, hunbroken, hstops⟩ := exists_of_head_linesOf hline
    refine ⟨front, later, ?_, hstarts, hunbroken, hstops, ?_, by omega, ?_⟩
    · rw [← hlater]
      exact htext
    · rw [h.liesIn.2, Position.column_inText htake hstarts hpiece.not_mem_feed]
      show 1 + piece.length + front.length = 1 + start.offset
      omega
    · have hle := hpiece.length_le hlater hstops
      omega
  · intro huncounted
    rw [hskipped] at huncounted
    -- The whole lines before the place are more than the number counts: it is one of them.
    rw [List.getElem?_append_left (by omega)] at hline
    obtain ⟨before, later, hbefore, hlater⟩ := hfront.exists_of_mem (List.mem_of_getElem? hline)
    refine ⟨before, later ++ (piece ++ text.drop start.offset), ?_, ?_⟩
    · rw [← List.append_assoc line, ← List.append_assoc, ← hbefore]
      exact htext
    · have hpos := List.length_pos_iff.mpr hlater
      rw [hoffset, hbefore, List.length_append, List.length_append]
      omega

/-- **Faults quote their line, unless an earlier boundary is not counted.** If a text cannot be read
and a line is quoted, then the fault starts at a position of the text. If every line boundary before
it is a line feed or comes with one, the line that is quoted starts behind the last of them and goes
on to the next boundary. At the column of the fault, counted from one, it has the character that the
text has at the offset of the fault, unless that is a line boundary. But if there is any other
boundary before the fault, then the line that is quoted ends before the fault starts. -/
theorem faults_quote_their_line_unless_uncounted (source : String) (file : Option String)
    (failure : Failure) (line : String) (hparse : Program.parse source file = .error failure)
    (hline : failure.sourceLine = some line) :
    let text := source.toList
    let start := failure.span.start
    let skipped := Text.uncounted (text.take start.offset)
    start.LiesIn text ∧
      (skipped = 0 → (∃ before later, Text.QuotedFor start text before line.toList later) ∧
        ∀ c, text[start.offset]? = some c → Text.isLineBoundary c = false →
          line.toList[start.column - 1]? = some c) ∧
      (skipped ≠ 0 → ∃ before later, text = before ++ (line.toList ++ later) ∧
        before.length + line.toList.length < start.offset) := by
  intro text start skipped
  obtain ⟨hstarts, hquoted⟩ := Program.startsFault_of_parse hparse
  have hnumbered : Text.lineAt? (Text.lines source) start.line = some line := hquoted line hline
  -- The quoted line is found by its number, so it is the line of that index among the cut ones.
  have hchars : (Text.linesOf text)[start.line - 1]? = some line.toList := by
    unfold Text.lineAt? Text.lines at hnumbered
    split at hnumbered
    · cases hnumbered
    · rw [List.getElem?_map] at hnumbered
      obtain ⟨chars, hchars, rfl⟩ := Option.map_eq_some_iff.mp hnumbered
      rw [hchars, String.toList_ofList]
  obtain ⟨hright, hearlier⟩ := Text.line_of_startsFault hstarts hchars
  refine ⟨hstarts.liesIn, fun hcounted => ?_, hearlier⟩
  obtain ⟨before, later, hfor⟩ := hright hcounted
  exact ⟨⟨before, later, hfor⟩, fun c hc hboundary => hfor.getElem?_column hc hboundary⟩

/-- Whether a computation fails with a given error, whatever its results are. -/
instance Except.decidableEqError {ε α : Type} [DecidableEq ε] (e : ε) :
    (x : Except ε α) → Decidable (x = .error e)
  | .ok _ => isFalse nofun
  | .error e' => decidable_of_iff (e' = e) ⟨congrArg _, Except.error.inj⟩

/-- A fault behind a carriage return with its line feed. -/
theorem faults_quote_their_line_unless_uncounted_return :
    let source := "a = 1;\r\n b = @;"
    let failure : Failure :=
      { fault := .lexical (.unexpectedCharacter '@'), span := ⟨none, ⟨2, 6, 13⟩, ⟨2, 7, 14⟩⟩
        sourceLine := some " b = @;" }
    Program.parse source none = .error failure ∧ Text.uncounted (source.toList.take 13) = 0 ∧
      " b = @;".toList[5]? = some '@' := by
  intro source failure
  have hparse : Program.parse source none = .error failure := by decide +kernel
  have hcounted : Text.uncounted (source.toList.take 13) = 0 := by decide
  have hat : source.toList[13]? = some '@' := by decide
  obtain ⟨-, hright, -⟩ :=
    faults_quote_their_line_unless_uncounted source none failure " b = @;" hparse rfl
  have hquoted := (hright hcounted).2 '@' hat rfl
  exact ⟨hparse, hcounted, hquoted⟩

/-- Behind a form feed in a comment, a fault on the second row is shown with what is behind the form
feed on the first one. -/
theorem form_feed_shifts_the_quoted_line :
    let source := "// page\x0cbreak\n@"
    let failure : Failure :=
      { fault := .lexical (.unexpectedCharacter '@'), span := ⟨none, ⟨2, 1, 14⟩, ⟨2, 2, 15⟩⟩
        sourceLine := some "break" }
    Program.parse source none = .error failure ∧ source.toList[14]? = some '@' ∧
      "break".toList[0]? ≠ some '@' ∧ (Text.rows source)[1]? = some "@" := by
  decide +kernel

end DecimalScript
