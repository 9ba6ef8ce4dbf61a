import DecimalScript.Source.Failure
import Mathlib.Data.List.Basic

/-!
# Carets under the source line

A diagnostic shows its source line behind a label with the number of the line, and a row of carets
below. The label has at least three places for the number; the row of carets starts with a margin
for just these three. So both rows have the same indices as long as three digits are enough.

- `Diagnostic.Underlines`: a row of carets is right for a span under a line behind a label.
- `Diagnostic.underlines_of_margin`: it is, if its margin is as wide as the label.
- `carets_underline_below_thousand`: what becomes of it in a diagnostic that is written out.
-/

namespace DecimalScript

/-- A span covers a column of the line on which it starts, if this line has some length: from where
it starts up to its end, or to the end of the line if it ends on a later one, and at least one. -/
structure Span.Covers (span : Span) (length column : Nat) : Prop where
  start_le : span.start.column ≤ column
  inside : column = span.start.column ∨
    column < if span.start.line = span.stop.line then span.stop.column else length + 1

namespace Diagnostic

/-- What stands in front of a source line with its number. -/
def lineLabel (number : Nat) : List Char :=
  padToThree (toString number).toList ++ [' ', '|', ' ']

/-- A row underlines a span of a line that is shown behind a label: the first caret has the index of
the character above that the span starts with, and the carets have the indices of the columns that
the span covers. -/
structure Underlines (span : Span) (line label row : List Char) : Prop where
  first : row.idxOf '^' = label.length + (span.start.column - 1)
  above : (label ++ line)[row.idxOf '^']? = (line)[span.start.column - 1]?
  covers : ∀ {column}, 1 ≤ column →
    (row[label.length + (column - 1)]? = some '^' ↔ span.Covers line.length column)

variable {span : Span} {line label : List Char}

/-! ### Rows with a margin -/

/-- There are as many carets as columns. -/
theorem lt_caretCount_iff {k : Nat} :
    k < caretCount span line ↔ span.Covers line.length (span.start.column + k) := by
  unfold caretCount
  dsimp only
  generalize hstop : (if span.start.line = span.stop.line then _ else _) = stop
  constructor
  · intro h
    refine ⟨Nat.le_add_right _ _, ?_⟩
    rw [hstop]
    omega
  · rintro ⟨-, hinside⟩
    rw [hstop] at hinside
    omega

/-- A margin as wide as the label puts the carets where they belong. -/
theorem underlines_of_margin {margin : List Char} (hmargin : '^' ∉ margin)
    (hwidth : margin.length = label.length) (hcolumn : 1 ≤ span.start.column) :
    Underlines span line label (margin ++ List.replicate (span.start.column - 1) ' ' ++
      List.replicate (caretCount span line) '^') := by
  have hfront : '^' ∉ margin ++ List.replicate (span.start.column - 1) ' ' := by
    rw [List.mem_append, not_or]
    refine ⟨hmargin, fun h => ?_⟩
    cases List.eq_of_mem_replicate h
  have hlength : (margin ++ List.replicate (span.start.column - 1) ' ').length =
      label.length + (span.start.column - 1) := by
    rw [List.length_append, List.length_replicate, hwidth]
  generalize margin ++ List.replicate (span.start.column - 1) ' ' = front at hfront hlength ⊢
  obtain ⟨n, hn⟩ : ∃ n, caretCount span line = n + 1 :=
    Nat.exists_eq_add_one_of_ne_zero
      (Nat.ne_of_gt (Nat.lt_of_lt_of_le Nat.one_pos (Nat.le_max_left _ _)))
  have hfirst : (front ++ List.replicate (caretCount span line) '^').idxOf '^' =
      label.length + (span.start.column - 1) := by
    rw [List.idxOf_append_of_notMem hfront, hn, List.replicate_succ, List.idxOf_cons_self, hlength]
    rfl
  refine ⟨hfirst, ?_, ?_⟩
  · rw [hfirst, List.getElem?_append_right (Nat.le_add_right _ _), Nat.add_sub_cancel_left]
  · intro column hcounted
    by_cases hbefore : column < span.start.column
    · -- In front of the first caret there is none.
      refine iff_of_false ?_ fun h => absurd h.start_le (Nat.not_le.mpr hbefore)
      rw [List.getElem?_append_left (by omega)]
      exact fun h => hfront (List.mem_of_getElem? h)
    · obtain ⟨k, rfl⟩ := Nat.exists_eq_add_of_le (Nat.not_lt.mp hbefore)
      rw [← lt_caretCount_iff, List.getElem?_append_right (by omega), hlength,
        show label.length + (span.start.column + k - 1) - (label.length + (span.start.column - 1)) =
          k by omega, List.getElem?_replicate]
      simp

/-! ### Widths -/

/-- Below a thousand, three places are enough for a number. -/
theorem length_toString_le_three_iff {number : Nat} :
    (toString number).length ≤ 3 ↔ number < 1000 := by
  show (String.ofList (Nat.toDigits 10 number)).length ≤ 3 ↔ _
  rw [String.length_ofList]
  exact Nat.length_toDigits_le_iff (by decide) (by decide)

theorem length_lineLabel (number : Nat) :
    (lineLabel number).length = max 3 (toString number).length + 3 := by
  unfold lineLabel padToThree
  rw [List.length_append, List.length_append, List.length_replicate, String.length_toList]
  show 3 - (toString number).length + (toString number).length + 3 = _
  omega

/-- Below four digits the margin of the carets is the width of the label. -/
theorem caretRow_underlines (line : List Char) (hnumber : span.start.line < 1000)
    (hcolumn : 1 ≤ span.start.column) :
    Underlines span line (lineLabel span.start.line) (caretRow span line) := by
  refine underlines_of_margin (by decide) ?_ hcolumn
  have hdigits := length_toString_le_three_iff.mpr hnumber
  rw [length_lineLabel]
  show 6 = _
  omega

/-- Every further digit of the number is a blank that the row of carets lacks. -/
theorem shifted_caretRow_underlines (line : List Char) (hnumber : 1000 ≤ span.start.line)
    (hcolumn : 1 ≤ span.start.column) :
    Underlines span line (lineLabel span.start.line)
      (List.replicate ((toString span.start.line).length - 3) ' ' ++ caretRow span line) := by
  have hdigits := mt length_toString_le_three_iff.mp (Nat.not_lt.mpr hnumber)
  unfold caretRow
  rw [← List.append_assoc, ← List.append_assoc]
  refine underlines_of_margin ?_ ?_ hcolumn
  · rw [List.mem_append, not_or]
    refine ⟨fun h => ?_, by decide⟩
    cases List.eq_of_mem_replicate h
  · rw [length_lineLabel, List.length_append, List.length_replicate]
    show _ + 6 = _
    omega

/-- From four digits on the label is wider than the margin, so every caret stands too far left. -/
theorem not_caretRow_underlines (line : List Char) (hnumber : 1000 ≤ span.start.line)
    (hcolumn : 1 ≤ span.start.column) :
    ¬ Underlines span line (lineLabel span.start.line) (caretRow span line) := by
  intro h
  have hdigits := mt length_toString_le_three_iff.mp (Nat.not_lt.mpr hnumber)
  have hmargin : Underlines span line [' ', ' ', ' ', ' ', '|', ' '] (caretRow span line) :=
    underlines_of_margin (by decide) rfl hcolumn
  have hfirst := h.first
  rw [hmargin.first, length_lineLabel] at hfirst
  change 6 + _ = _ at hfirst
  omega

end Diagnostic

open Diagnostic in
/-- **Carets underline the span, below line 1000.** A diagnostic with a source line, in which
columns are counted from one, shows this line behind a label with its number and a row of carets
below. Up to line 999 the first caret has the index in its row of the character in the row above
that the span starts with, and the carets have the indices of exactly the columns that the span
covers: up to its end on the same line, at least one, or to the end of the line if the span ends on
a later one. From line 1000 on they do not, since the row of carets is not indented as far as the
line; what it lacks is one blank for every digit of the number beyond three. -/
theorem carets_underline_below_thousand {d : Diagnostic} {line : String}
    (hline : d.sourceLine = some line) (hcolumn : 1 ≤ d.span.start.column) :
    let number := d.span.start.line
    let carets := caretRow d.span line.toList
    (∃ below, d.format = "\n".intercalate (d.header :: "  |" ::
      String.ofList (lineLabel number ++ line.toList) :: String.ofList carets :: below)) ∧
    (number < 1000 → Underlines d.span line.toList (lineLabel number) carets) ∧
    (1000 ≤ number → ¬ Underlines d.span line.toList (lineLabel number) carets ∧
      Underlines d.span line.toList (lineLabel number)
        (List.replicate ((toString number).length - 3) ' ' ++ carets)) := by
  intro number carets
  refine ⟨?_, fun hnumber => caretRow_underlines _ hnumber hcolumn, fun hnumber =>
    ⟨not_caretRow_underlines _ hnumber hcolumn, shifted_caretRow_underlines _ hnumber hcolumn⟩⟩
  unfold format formatRows
  rw [hline]
  exact ⟨_, rfl⟩

open Diagnostic in
/-- A span of three columns behind a tab on line 999, and one that ends on a later line than 7. -/
theorem carets_underline_below_thousand_twice :
    let name : Diagnostic := ⟨"E401", "variable 'abc' is not set", .error,
      ⟨none, ⟨999, 2, 4000⟩, ⟨999, 5, 4003⟩⟩, some "\tabc;", [], []⟩
    let comment : Diagnostic := ⟨"E004", "comment", .error,
      ⟨none, ⟨7, 3, 60⟩, ⟨9, 1, 70⟩⟩, some "a /* b", [], []⟩
    Underlines name.span "\tabc;".toList "999 | ".toList "    |  ^^^".toList ∧
      Underlines comment.span "a /* b".toList "  7 | ".toList "    |   ^^^^".toList := by
  intro name comment
  have hname := (carets_underline_below_thousand (d := name) rfl (by decide)).2.1 (by decide)
  have hcomment := (carets_underline_below_thousand (d := comment) rfl (by decide)).2.1 (by decide)
  have hlabel : lineLabel 999 = "999 | ".toList := by decide +kernel
  have hpadded : lineLabel 7 = "  7 | ".toList := by decide +kernel
  rw [← hlabel, ← hpadded]
  exact ⟨hname, hcomment⟩

open Diagnostic in
/-- On line 1000 the first caret stands under the blank in front of the line. -/
theorem caret_misses_line_thousand :
    let d : Diagnostic := ⟨"E001", "unexpected character '@'", .error,
      ⟨none, ⟨1000, 1, 999⟩, ⟨1000, 2, 1000⟩⟩, some "@", [], []⟩
    d.format = "1000:1: error[E001]: unexpected character '@'\n  |\n1000 | @\n    | ^" ∧
      ¬ Underlines d.span "@".toList "1000 | ".toList "    | ^".toList := by
  intro d
  refine ⟨by decide +kernel, fun h => ?_⟩
  have hfirst := h.first
  revert hfirst
  decide

end DecimalScript
