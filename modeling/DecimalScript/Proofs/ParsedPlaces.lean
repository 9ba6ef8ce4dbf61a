import DecimalScript.Proofs.Relocation
import DecimalScript.Proofs.RoundTrip
import DecimalScript.Proofs.TokenPlaces

/-!
# The places of a program that was read

Every expression starts where its first token starts, and its span names the file of that token. So
the places of a program that was read stand in its text, on one of its lines.

- `keepsPlaces`: what holds of the places in the parts of a production holds of the places in what it
  makes of them; `ParseTree.forall_places_meaning`: so it holds of a whole derivation.
- `Program.place_stands_in_text`: where the expressions of a program that was read stand.
-/

namespace DecimalScript

open Derivations

/-! ### The places of a derivation -/

/-- The places of the expressions in a suffix. -/
def suffixPlaces : Suffix → List Span
  | .call arguments _ => placesExprs arguments
  | .lookup key _ => key.places

/-- The places of the expressions in an item. -/
def itemPlaces : (k : ItemKind) → ItemMeaning k → List Span
  | .expression, e => Expr.places e
  | .entry, e => placesEntries [e]
  | .parameter, p => placesParameters [p]
  | .name, _ => []

/-- The places of the expressions in what a derivation says. -/
def meaningPlaces : (s : Symbol) → Meaning s → List Span
  | .statements, ss => placesStmts ss
  | .block, b => Block.places b
  | .statement, s => Stmt.places s
  | .conditional, c => (c.test.places ++ c.body.places) ++ c.later.places
  | .otherwise, o => o.1.places
  | .alternative, o => o.1.places
  | .assigned, o | .default, o | .rightRest _, o => Option.elim o [] Expr.places
  | .secondName, _ => []
  | .right _, e | .negation, e | .relation, e | .left _, e | .signed, e | .postfixed, e
  | .primary, e => Expr.places e
  | .relationRest, o => Option.elim o [] fun operand => operand.2.places
  | .leftRest _, operands => List.flatMap (fun operand => operand.2.places) operands
  | .suffixes, suffixes => List.flatMap suffixPlaces suffixes
  | .item k, item => itemPlaces k item
  | .items k, items | .itemsRest k, items => List.flatMap (itemPlaces k) items

/-- What holds of the places of all tokens and expressions in the parts of a symbol's productions
holds of the places in what these make of them. -/
def KeepsPlaces (Q : Span → Prop) (s : Symbol) : Prop :=
  Passes (fun _ token => Q token.span) (fun s _ m => ∀ span ∈ meaningPlaces s m, Q span) s

/-! ### The builders of meanings -/

section Combine

variable {Q : Span → Prop}

/-- The literal of a token is placed where the token is. -/
theorem forall_places_literalOf {token : Token} (h : Q token.span) :
    ∀ span ∈ (literalOf token).places, Q span := by
  unfold literalOf
  split <;> exact List.forall_mem_singleton.mpr h

/-- Expressions have the places of each of them. -/
theorem forall_placesExprs {es : List Expr} (h : ∀ span ∈ es.flatMap Expr.places, Q span) :
    ∀ span ∈ placesExprs es, Q span := by
  induction es with
  | nil => nofun
  | cons e es ih =>
    obtain ⟨he, hes⟩ := List.forall_mem_append.mp h
    exact List.forall_mem_append.mpr ⟨he, ih hes⟩

theorem forall_placesEntries {es : List Entry}
    (h : ∀ span ∈ es.flatMap fun e => placesEntries [e], Q span) :
    ∀ span ∈ placesEntries es, Q span := by
  induction es with
  | nil => nofun
  | cons e es ih =>
    obtain ⟨key, value⟩ := e
    obtain ⟨he, hes⟩ := List.forall_mem_append.mp h
    exact List.forall_mem_append.mpr ⟨(List.forall_mem_append.mp he).1, ih hes⟩

theorem forall_placesParameters {ps : List Parameter}
    (h : ∀ span ∈ ps.flatMap fun p => placesParameters [p], Q span) :
    ∀ span ∈ placesParameters ps, Q span := by
  induction ps with
  | nil => nofun
  | cons p ps ih =>
    obtain ⟨hp, hps⟩ := List.forall_mem_append.mp h
    obtain ⟨span, name, default⟩ := p
    cases default with
    | none => exact ih hps
    | some e => exact List.forall_mem_append.mpr ⟨(List.forall_mem_append.mp hp).1, ih hps⟩

/-- A parameter has the places of its default. -/
theorem forall_places_parameterOf {name : Token} {tokens : List Token} {default : Option Expr}
    (h : ∀ span ∈ default.elim [] Expr.places, Q span) :
    ∀ span ∈ placesParameters [parameterOf name tokens default], Q span := by
  cases default with
  | none => nofun
  | some e => exact List.forall_mem_append.mpr ⟨h, nofun⟩

/-- A loop over a container has the places of what it goes over and of its block. -/
theorem forall_places_eachStmt {span : Span} {e : Expr} {first : String} {body : Block}
    {second : Option String} (he : ∀ span ∈ e.places, Q span)
    (hbody : ∀ span ∈ body.places, Q span) :
    ∀ place ∈ (eachStmt span e first body second).places, Q place := by
  cases second <;> exact List.forall_mem_append.mpr ⟨he, hbody⟩

/-- A statement has the places of its target and its value. -/
theorem forall_places_simpleStmt {span : Span} {e : Expr} {value : Option Expr}
    (he : ∀ place ∈ e.places, Q place) (hvalue : ∀ place ∈ value.elim [] Expr.places, Q place) :
    ∀ place ∈ (simpleStmt span e value).places, Q place := by
  unfold simpleStmt
  split
  · simp only [Expr.places, List.forall_mem_singleton] at he
    exact List.forall_mem_cons.mpr ⟨he, hvalue⟩
  · simp only [Expr.places, List.forall_mem_cons] at he
    exact List.forall_mem_cons.mpr ⟨he.1, List.forall_mem_append.mpr ⟨he.2, hvalue⟩⟩
  · exact he
  · exact he

variable (hQ : ∀ {a : Span} (b : Span), Q a → Q (a.upTo b))

include hQ

/-- An operation starts where its left operand does. -/
theorem forall_places_binary {op : BinaryOp} {left right : Expr}
    (hleft : ∀ span ∈ left.places, Q span) (hright : ∀ span ∈ right.places, Q span) :
    ∀ span ∈ (operation op left right).places, Q span := by
  simp only [operation, Expr.places, List.forall_mem_cons, List.forall_mem_append]
  exact ⟨hQ _ (hleft _ left.span_mem_places), hleft, hright⟩

theorem forall_places_rightOperation {op : BinaryOp} {first : Expr} {rest : Option Expr}
    (hfirst : ∀ span ∈ first.places, Q span)
    (hrest : ∀ span ∈ rest.elim [] Expr.places, Q span) :
    ∀ span ∈ (rightOperation op first rest).places, Q span := by
  cases rest with
  | none => exact hfirst
  | some e => exact forall_places_binary hQ hfirst hrest

theorem forall_places_relationOperation {first : Expr} {rest : Option (BinaryOp × Expr)}
    (hfirst : ∀ span ∈ first.places, Q span)
    (hrest : ∀ span ∈ rest.elim [] fun operand => operand.2.places, Q span) :
    ∀ span ∈ (relationOperation first rest).places, Q span := by
  cases rest with
  | none => exact hfirst
  | some operand => exact forall_places_binary hQ hfirst hrest

/-- Operations in a chain all start where the first operand does. -/
theorem forall_places_leftOperations (others : List (BinaryOp × Expr)) :
    ∀ e : Expr, (∀ span ∈ e.places, Q span) →
      (∀ span ∈ others.flatMap fun operand => operand.2.places, Q span) →
      ∀ span ∈ (leftOperations e others).places, Q span := by
  induction others with
  | nil => exact fun e he _ => he
  | cons pair others ih =>
    intro e he hothers
    rw [List.flatMap_cons, List.forall_mem_append] at hothers
    exact ih (operation pair.1 e pair.2) (forall_places_binary hQ he hothers.1) hothers.2

/-- Every suffix makes an expression that starts where the first one does. -/
theorem forall_places_suffixed (suffixes : List Suffix) :
    ∀ e : Expr, (∀ span ∈ e.places, Q span) → (∀ span ∈ suffixes.flatMap suffixPlaces, Q span) →
      ∀ span ∈ (suffixed e suffixes).places, Q span := by
  induction suffixes with
  | nil => exact fun e he _ => he
  | cons suffix suffixes ih =>
    intro e he hsuffixes
    rw [List.flatMap_cons, List.forall_mem_append] at hsuffixes
    refine ih (withSuffix e suffix) ?_ hsuffixes.2
    have hspan := he _ e.span_mem_places
    cases suffix with
    | call arguments stop =>
      simp only [withSuffix, Expr.places, List.forall_mem_cons, List.forall_mem_append]
      exact ⟨hQ stop hspan, he, hsuffixes.1⟩
    | lookup key stop =>
      simp only [withSuffix, Expr.places, List.forall_mem_cons, List.forall_mem_append]
      exact ⟨hQ stop hspan, he, hsuffixes.1⟩

/-! ### Productions

A span that is made reaches from the start of a token, or of a part, to some end; `hQ` says that the
end does not matter. -/

omit hQ in
/-- Statements have the places of the expressions in them. -/
theorem keepsPlaces_statement : KeepsPlaces Q .statement := by
  intro parts p vs h
  cases p with
  | ret => exact h.2.1
  | branch => exact h.1
  | loop => exact List.forall_mem_append.mpr ⟨h.2.2.1, h.2.2.2.2.1⟩
  | each =>
    obtain ⟨-, -, he, -, -, -, -, hbody, -⟩ := h
    exact forall_places_eachStmt he hbody
  | declareGlobal => nofun
  | simple => exact forall_places_simpleStmt h.1 h.2.1

omit hQ in
theorem keepsPlaces_conditional : KeepsPlaces Q .conditional := by
  intro parts p vs h
  cases p with
  | only =>
    obtain ⟨-, -, htest, -, hbody, hlater, -⟩ := h
    exact List.forall_mem_append.mpr ⟨List.forall_mem_append.mpr ⟨htest, hbody⟩, hlater⟩

/-- Operators of a level that groups to the right start with their left operands. -/
theorem keepsPlaces_right (l : RightLevel) : KeepsPlaces Q (.right l) := by
  intro parts p vs h
  cases p with
  | only =>
    have hfirst : ∀ span ∈ (l.operandExpr vs.1.2).places, Q span := by cases l <;> exact h.1
    exact forall_places_rightOperation hQ hfirst h.2.1

/-- A negation starts at its sign. -/
theorem keepsPlaces_negation : KeepsPlaces Q .negation := by
  intro parts p vs h
  cases p with
  | negated => exact List.forall_mem_cons.mpr ⟨hQ _ h.1, h.2.1⟩
  | plain => exact h.1

theorem keepsPlaces_relation : KeepsPlaces Q .relation := by
  intro parts p vs h
  cases p with
  | only => exact forall_places_relationOperation hQ h.1 h.2.1

/-- Operators of a level that groups to the left start with the first operand. -/
theorem keepsPlaces_left (l : LeftLevel) : KeepsPlaces Q (.left l) := by
  intro parts p vs h
  cases p with
  | only =>
    have hfirst : ∀ span ∈ (l.operandExpr vs.1.2).places, Q span := by cases l <;> exact h.1
    exact forall_places_leftOperations hQ _ _ hfirst h.2.1

omit hQ in
theorem keepsPlaces_leftRest (l : LeftLevel) : KeepsPlaces Q (.leftRest l) := by
  intro parts p vs h
  cases p with
  | absent => nofun
  | present op hop =>
    have hnext : ∀ span ∈ (l.operandExpr vs.2.1.2).places, Q span := by cases l <;> exact h.2.1
    exact List.forall_mem_append.mpr ⟨hnext, h.2.2.1⟩

/-- A minus sign starts the expression, and a plus sign is left out. -/
theorem keepsPlaces_signed : KeepsPlaces Q .signed := by
  intro parts p vs h
  cases p with
  | negative => exact List.forall_mem_cons.mpr ⟨hQ _ h.1, h.2.1⟩
  | positive => exact h.2.1
  | plain => exact h.1

theorem keepsPlaces_postfixed : KeepsPlaces Q .postfixed := by
  intro parts p vs h
  cases p with
  | only => exact forall_places_suffixed hQ _ _ h.1 h.2.1

omit hQ in
theorem keepsPlaces_suffixes : KeepsPlaces Q .suffixes := by
  intro parts p vs h
  cases p with
  | absent => nofun
  | call =>
    obtain ⟨-, harguments, -, hothers, -⟩ := h
    exact List.forall_mem_append.mpr ⟨forall_placesExprs harguments, hothers⟩
  | lookup => exact List.forall_mem_append.mpr ⟨h.2.1, h.2.2.2.1⟩

/-- A primary expression is a token, or starts with the mark in front of its parts. -/
theorem keepsPlaces_primary : KeepsPlaces Q .primary := by
  intro parts p vs h
  cases p with
  | literal kind hkind => exact forall_places_literalOf h.1
  | group => exact h.2.1
  | array =>
    obtain ⟨hstart, helements, -⟩ := h
    exact List.forall_mem_cons.mpr ⟨hQ _ hstart, forall_placesExprs helements⟩
  | dictionary =>
    obtain ⟨hstart, hentries, -⟩ := h
    exact List.forall_mem_cons.mpr ⟨hQ _ hstart, forall_placesEntries hentries⟩
  | function =>
    obtain ⟨hstart, -, hparameters, -, hbody, -⟩ := h
    exact List.forall_mem_cons.mpr ⟨hQ _ hstart,
      List.forall_mem_append.mpr ⟨forall_placesParameters hparameters, hbody⟩⟩

omit hQ in
theorem keepsPlaces_item (k : ItemKind) : KeepsPlaces Q (.item k) := by
  intro parts p vs h
  cases k with
  | expression =>
    cases p with
    | only => exact h.1
  | entry =>
    cases p with
    | only =>
      obtain ⟨hkey, -, hvalue, -⟩ := h
      exact List.forall_mem_append.mpr ⟨List.forall_mem_append.mpr ⟨hkey, hvalue⟩, nofun⟩
  | parameter =>
    cases p with
    | only => exact forall_places_parameterOf h.2.1
  | name => nofun

omit hQ in
theorem keepsPlaces_items (k : ItemKind) : KeepsPlaces Q (.items k) := by
  intro parts p vs h
  cases p with
  | absent => nofun
  | present => exact List.forall_mem_append.mpr ⟨h.1, h.2.1⟩

omit hQ in
theorem keepsPlaces_itemsRest (k : ItemKind) : KeepsPlaces Q (.itemsRest k) := by
  intro parts p vs h
  cases p with
  | absent => nofun
  | present => exact List.forall_mem_append.mpr ⟨h.2.1, h.2.2.1⟩

/-- What holds of the places in the parts of any production holds of the places in the whole. -/
theorem keepsPlaces (s : Symbol) : KeepsPlaces Q s := by
  intro parts p vs h
  cases s with
  | statement => exact keepsPlaces_statement p vs h
  | conditional => exact keepsPlaces_conditional p vs h
  | right l => exact keepsPlaces_right hQ l p vs h
  | negation => exact keepsPlaces_negation hQ p vs h
  | relation => exact keepsPlaces_relation hQ p vs h
  | left l => exact keepsPlaces_left hQ l p vs h
  | leftRest l => exact keepsPlaces_leftRest l p vs h
  | signed => exact keepsPlaces_signed hQ p vs h
  | postfixed => exact keepsPlaces_postfixed hQ p vs h
  | suffixes => exact keepsPlaces_suffixes p vs h
  | primary => exact keepsPlaces_primary hQ p vs h
  | item k => exact keepsPlaces_item k p vs h
  | items k => exact keepsPlaces_items k p vs h
  | itemsRest k => exact keepsPlaces_itemsRest k p vs h
  | secondName => nofun
  -- The others hand on what their parts give.
  | statements =>
    cases p with
    | absent => nofun
    | present => exact List.forall_mem_append.mpr ⟨h.1, h.2.1⟩
  | block =>
    cases p with
    | only => exact h.2.1
  | otherwise | assigned | default | rightRest _ | relationRest =>
    cases p with
    | absent => nofun
    | present => exact h.2.1
  | alternative => cases p <;> exact h.1

end Combine

/-- What holds of the places of all tokens holds of the places of all expressions. -/
theorem Derivations.ParseTree.forall_places_meaning {Q : Span → Prop}
    (hQ : ∀ {a : Span} (b : Span), Q a → Q (a.upTo b)) {s : Symbol} (t : ParseTree s)
    (h : ∀ token ∈ t.yield, Q token.span) : ∀ span ∈ meaningPlaces s t.meaning, Q span :=
  t.holds_meaning (keepsPlaces hQ) h

/-! ### Places of a text -/

/-- Tokens are of the file that is read. -/
theorem Lexer.file_of_mem {file : Option String} {p : Position} {text : List Char} {token : Token}
    (h : token ∈ (scanFrom file p text).tokens) : token.span.file = file := by
  obtain ⟨c, rest, n, start, stop, content, -, rfl⟩ := exists_scanToken_of_mem h
  rfl

/-- A text has one row more than line feeds. -/
theorem Text.length_rowsOf (text : List Char) : (rowsOf text).length = text.count '\n' + 1 := by
  induction text with
  | nil => rfl
  | cons c text ih =>
    unfold rowsOf
    cases hrows : rowsOf text with
    | nil =>
      rw [hrows] at ih
      cases ih
    | cons row rows =>
      rw [hrows] at ih
      by_cases hc : c = '\n'
      · simpa [hc] using ih
      · simpa [hc] using ih

/-- The line of a position of a text is one of its rows, unless the text is empty. -/
theorem Position.LiesIn.exists_line {p : Position} {source : String} (h : p.LiesIn source.toList)
    (hsource : source ≠ "") : ∃ line, Text.lineAt? (Text.rows source) p.line = some line := by
  have hline : p.line = 1 + (source.toList.take p.offset).count '\n' := congrArg Position.line h.2
  have hcount := (List.take_sublist p.offset source.toList).count_le '\n'
  have hrows : Text.rows source = (Text.rowsOf source.toList).map String.ofList := by
    unfold Text.rows
    rw [if_neg]
    simpa using hsource
  have hlt : p.line - 1 < (Text.rows source).length := by
    rw [hrows, List.length_map, Text.length_rowsOf]
    omega
  refine ⟨(Text.rows source)[p.line - 1], ?_⟩
  unfold Text.lineAt?
  rw [if_neg (by omega)]
  exact List.getElem?_eq_getElem hlt

namespace Program

variable {source : String} {file : Option String} {quoteLines : Bool} {program : Program}

/-- Every expression of a program that was read starts with a token of the text. -/
theorem exists_token_of_place (h : parse source file quoteLines = .ok program) {span : Span}
    (hspan : span ∈ placesStmts program.statements) :
    ∃ token ∈ (Lexer.scan source file).tokens, token.StandsIn source.toList ∧
      span.file = token.span.file ∧ span.start = token.span.start := by
  obtain ⟨reached, htiles, -⟩ := Lexer.tiles_scanFrom file .start [] source.toList rfl
  have hstands : ∀ token ∈ (Lexer.scan source file).tokens, token.StandsIn source.toList :=
    htiles.standsIn
  obtain ⟨tokens, stop, hscan, hprogram⟩ := parse_eq_ok.mp h
  obtain ⟨t, rfl, -, rfl⟩ := ofTokens_eq_ok.mp hprogram
  rw [programOf_statements ⟨file, stop, stop⟩ t.meaning] at hspan
  rw [hscan] at hstands ⊢
  let Q : Span → Prop := fun span => ∃ token ∈ t.yield, token.StandsIn source.toList ∧
    span.file = token.span.file ∧ span.start = token.span.start
  exact t.forall_places_meaning (Q := Q) (fun _ hstart => hstart)
    (fun token htoken => ⟨token, htoken, hstands token htoken, rfl, rfl⟩) span hspan

/-- Every expression of a program that was read stands in its file, on a line of its text. -/
theorem place_stands_in_text (h : parse source file quoteLines = .ok program) {span : Span}
    (hspan : span ∈ placesStmts program.statements) :
    span.file = file ∧ span.start.LiesIn source.toList ∧
      ∃ line, Text.lineAt? (Text.rows source) span.start.line = some line := by
  obtain ⟨token, htoken, hstands, hfile, hstart⟩ := exists_token_of_place h hspan
  have hsource : source ≠ "" := by
    rintro rfl
    have hlt := hstands.start_lt_stop
    have hle := hstands.stop.1
    simp only [String.toList_empty, List.length_nil] at hle
    omega
  rw [hfile, hstart]
  exact ⟨Lexer.file_of_mem htoken, hstands.start, hstands.start.exists_line hsource⟩

end Program

end DecimalScript
