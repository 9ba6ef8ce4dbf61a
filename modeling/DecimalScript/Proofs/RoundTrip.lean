import DecimalScript.Proofs.ListingDerivation

/-!
# Listings are read back

`parse_listing`: what is listed of a program that was read is read as the same program, places
apart. The names and numbers of a program that was read are tokens that were read, so they have
spellings that read back (`ParseTree.spelled_meaning`). A listing spelled like that is read as its
tokens (`Listing.scan_listing`), its tokens have a derivation (`Listing.denotes_pieces`), and the
parser follows it (`Program.ofTokens_eq_ok`).

What is read from a listing has other places than the program that was listed, so both are compared
in their bare forms. Parentheses leave no trace in a program, so a listing may add and drop them
wherever the grammar puts the same operands together (`Placed`). A program that was not read may
have names or numbers that no token spells; nothing is claimed for such programs.
-/

namespace DecimalScript

open Derivations

/-! ### The names and numbers of a derivation -/

/-- The names and numbers of a suffix read back. -/
def SpelledSuffix : Suffix → Prop
  | .call arguments _ => SpelledExprs arguments
  | .lookup key _ => key.Spelled

/-- The names and numbers of suffixes read back. -/
def SpelledSuffixes (suffixes : List Suffix) : Prop :=
  ∀ suffix ∈ suffixes, SpelledSuffix suffix

/-- The names and numbers of operands behind operators read back. -/
def SpelledOperands (operands : List (BinaryOp × Expr)) : Prop :=
  ∀ operand ∈ operands, operand.2.Spelled

/-- The names and numbers of an item read back. -/
def SpelledItem : (k : ItemKind) → ItemMeaning k → Prop
  | .expression, e => Expr.Spelled e
  | .entry, e => SpelledEntries [e]
  | .parameter, p => SpelledParameters [p]
  | .name, n => SpelledName n.1

/-- The names and numbers of items read back. -/
def SpelledItems (k : ItemKind) (items : List (ItemMeaning k)) : Prop :=
  ∀ item ∈ items, SpelledItem k item

/-- The names and numbers in what a derivation says read back. -/
def SpelledMeaning : (s : Symbol) → Meaning s → Prop
  | .statements, ss => SpelledStmts ss
  | .block, b => Block.Spelled b
  | .statement, s => Stmt.Spelled s
  | .conditional, c => c.test.Spelled ∧ c.body.Spelled ∧ c.later.Spelled
  | .otherwise, o => o.1.Spelled
  | .alternative, o => o.1.Spelled
  | .assigned, o | .default, o | .rightRest _, o => ∀ e : Expr, o = some e → e.Spelled
  | .secondName, o => ∀ n : String, o = some n → SpelledName n
  | .right _, e | .negation, e | .relation, e | .left _, e | .signed, e | .postfixed, e
  | .primary, e => Expr.Spelled e
  | .relationRest, o => ∀ operand : BinaryOp × Expr, o = some operand → operand.2.Spelled
  | .leftRest _, operands => SpelledOperands operands
  | .suffixes, suffixes => SpelledSuffixes suffixes
  | .item k, item => SpelledItem k item
  | .items k, items | .itemsRest k, items => SpelledItems k items

/-- What the productions of a symbol make of names and numbers that read back, and that have the
kinds asked for, reads back. -/
def KeepsSpelled (s : Symbol) : Prop :=
  Passes (fun kind token => token.kind = kind ∧ Lexer.Spelled token)
    (fun s _ m => SpelledMeaning s m) s

/-! ### The builders of meanings -/

/-- A token that is a name has the spelling of one. -/
theorem spelledName_nameOf {token : Token} (h : token.kind = .name ∧ Lexer.Spelled token) :
    SpelledName (nameOf token) := by
  obtain ⟨hkind, hspelled⟩ := h
  unfold Token.kind at hkind
  unfold Lexer.Spelled at hspelled
  unfold nameOf
  cases hcontent : token.content with
  | name n =>
    rw [hcontent] at hspelled
    exact hspelled
  | _ =>
    rw [hcontent] at hkind
    cases hkind

/-- The literal of a token has the names and numbers of the token. -/
theorem spelled_literalOf {token : Token} (h : Lexer.Spelled token) : (literalOf token).Spelled := by
  unfold Lexer.Spelled at h
  unfold literalOf
  cases hcontent : token.content with
  | number value =>
    rw [hcontent] at h
    exact h
  | name n =>
    rw [hcontent] at h
    exact h
  | word w => cases w <;> trivial
  | _ => trivial

/-- Operations have the names and numbers of their operands. -/
theorem spelled_leftOperations (others : List (BinaryOp × Expr)) :
    ∀ e : Expr, e.Spelled → SpelledOperands others →
      (leftOperations e others).Spelled := by
  induction others with
  | nil => exact fun e he _ => he
  | cons pair others ih =>
    intro e he hothers
    obtain ⟨hpair, hothers⟩ := List.forall_mem_cons.mp hothers
    exact ih (operation pair.1 e pair.2) ⟨he, hpair⟩ hothers

theorem spelled_rightOperation {op : BinaryOp} {first : Expr} {rest : Option Expr}
    (hfirst : first.Spelled) (hrest : ∀ e, rest = some e → e.Spelled) :
    (rightOperation op first rest).Spelled := by
  cases rest with
  | none => exact hfirst
  | some e => exact ⟨hfirst, hrest e rfl⟩

theorem spelled_relationOperation {first : Expr} {rest : Option (BinaryOp × Expr)}
    (hfirst : first.Spelled) (hrest : ∀ operand, rest = some operand → operand.2.Spelled) :
    (relationOperation first rest).Spelled := by
  cases rest with
  | none => exact hfirst
  | some operand => exact ⟨hfirst, hrest operand rfl⟩

/-- An expression with suffixes has the names and numbers of both. -/
theorem spelled_suffixed (suffixes : List Suffix) :
    ∀ e : Expr, e.Spelled → SpelledSuffixes suffixes →
      (suffixed e suffixes).Spelled := by
  induction suffixes with
  | nil => exact fun e he _ => he
  | cons suffix suffixes ih =>
    intro e he hsuffixes
    obtain ⟨hsuffix, hsuffixes⟩ := List.forall_mem_cons.mp hsuffixes
    refine ih (withSuffix e suffix) ?_ hsuffixes
    cases suffix with
    | call arguments stop => exact ⟨he, hsuffix⟩
    | lookup key stop => exact ⟨he, hsuffix⟩

/-- A statement has the names and numbers of its target and its value. -/
theorem spelled_simpleStmt {span : Span} {e : Expr} {value : Option Expr} (he : e.Spelled)
    (hvalue : ∀ v, value = some v → v.Spelled) : (simpleStmt span e value).Spelled := by
  unfold simpleStmt
  split
  · exact ⟨he, hvalue _ rfl⟩
  · exact ⟨he.1, he.2, hvalue _ rfl⟩
  · exact he
  · exact he

/-- Expressions are given one by one, and read back one by one. -/
theorem spelledExprs_of_items : ∀ {es : List Expr}, SpelledItems .expression es → SpelledExprs es
  | [], _ => trivial
  | _ :: _, h => ⟨h _ List.mem_cons_self,
      spelledExprs_of_items fun e he => h e (List.mem_cons_of_mem _ he)⟩

theorem spelledEntries_of_items : ∀ {es : List Entry}, SpelledItems .entry es → SpelledEntries es
  | [], _ => trivial
  | .mk key value :: _, h => by
    have hfirst : SpelledEntries [.mk key value] := h _ List.mem_cons_self
    exact ⟨hfirst.1, hfirst.2.1,
      spelledEntries_of_items fun e he => h e (List.mem_cons_of_mem _ he)⟩

theorem spelledParameters_of_items :
    ∀ {ps : List Parameter}, SpelledItems .parameter ps → SpelledParameters ps
  | [], _ => trivial
  | .mk span n none :: _, h => by
    have hfirst : SpelledParameters [.mk span n none] := h _ List.mem_cons_self
    exact ⟨hfirst.1, spelledParameters_of_items fun p hp => h p (List.mem_cons_of_mem _ hp)⟩
  | .mk span n (some value) :: _, h => by
    have hfirst : SpelledParameters [.mk span n (some value)] := h _ List.mem_cons_self
    exact ⟨hfirst.1, hfirst.2.1,
      spelledParameters_of_items fun p hp => h p (List.mem_cons_of_mem _ hp)⟩

/-- A loop over a container has the names of its variables. -/
theorem spelled_eachStmt {span : Span} {e : Expr} {first : String} {body : Block}
    {second : Option String} (he : e.Spelled) (hfirst : SpelledName first) (hbody : body.Spelled)
    (hsecond : ∀ n, second = some n → SpelledName n) :
    (eachStmt span e first body second).Spelled := by
  cases second with
  | none => exact ⟨he, nofun, hfirst, hbody⟩
  | some second =>
    refine ⟨he, ?_, hsecond second rfl, hbody⟩
    rintro _ ⟨⟩
    exact hfirst

/-- A parameter has its name and what is in its default. -/
theorem spelled_parameterOf {token : Token} {tokens : List Token} {default : Option Expr}
    (htoken : token.kind = .name ∧ Lexer.Spelled token)
    (hdefault : ∀ e, default = some e → e.Spelled) :
    SpelledParameters [parameterOf token tokens default] := by
  cases default with
  | none => exact ⟨spelledName_nameOf htoken, trivial⟩
  | some e => exact ⟨spelledName_nameOf htoken, hdefault e rfl, trivial⟩

/-! ### Productions

A production names nothing that is not among its parts. The cases go by families: statements,
operators with their operands, suffixes, what no operator makes, and what stands between commas. -/

/-- Statements have the names that are declared, assigned and looped over, and what is in their
parts. -/
theorem keepsSpelled_statement : KeepsSpelled .statement := by
  intro parts p vs h
  cases p with
  | ret => exact h.2.1
  | branch => exact h.1
  | loop => exact ⟨h.2.2.1, h.2.2.2.2.1⟩
  | each =>
    obtain ⟨-, -, he, -, hfirst, hsecond, -, hbody, -⟩ := h
    exact spelled_eachStmt he (spelledName_nameOf hfirst) hbody hsecond
  | declareGlobal =>
    obtain ⟨-, hfirst, hothers, -⟩ := h
    refine ⟨List.cons_ne_nil _ _, List.forall_mem_cons.mpr ⟨hfirst, ?_⟩⟩
    intro n hn
    obtain ⟨item, hitem, rfl⟩ := List.mem_map.mp hn
    exact hothers item hitem
  | simple => exact spelled_simpleStmt h.1 h.2.1

theorem keepsSpelled_secondName : KeepsSpelled .secondName := by
  intro parts p vs h
  cases p with
  | absent => nofun
  | present =>
    rintro _ ⟨⟩
    exact spelledName_nameOf h.2.1

theorem keepsSpelled_right (l : RightLevel) : KeepsSpelled (.right l) := by
  intro parts p vs h
  cases p with
  | only =>
    have hfirst : (l.operandExpr vs.1.2).Spelled := by cases l <;> exact h.1
    exact spelled_rightOperation hfirst h.2.1

theorem keepsSpelled_relation : KeepsSpelled .relation := by
  intro parts p vs h
  cases p with
  | only => exact spelled_relationOperation h.1 h.2.1

theorem keepsSpelled_relationRest : KeepsSpelled .relationRest := by
  intro parts p vs h
  cases p with
  | absent => nofun
  | present op hop =>
    rintro _ ⟨⟩
    exact h.2.1

theorem keepsSpelled_left (l : LeftLevel) : KeepsSpelled (.left l) := by
  intro parts p vs h
  cases p with
  | only =>
    have hfirst : (l.operandExpr vs.1.2).Spelled := by cases l <;> exact h.1
    exact spelled_leftOperations _ _ hfirst h.2.1

theorem keepsSpelled_leftRest (l : LeftLevel) : KeepsSpelled (.leftRest l) := by
  intro parts p vs h
  cases p with
  | absent => nofun
  | present op hop =>
    have hnext : (l.operandExpr vs.2.1.2).Spelled := by cases l <;> exact h.2.1
    exact List.forall_mem_cons.mpr ⟨hnext, h.2.2.1⟩

/-- Suffixes have the names and numbers of what they are given. -/
theorem keepsSpelled_suffixes : KeepsSpelled .suffixes := by
  intro parts p vs h
  cases p with
  | absent => nofun
  | call => exact List.forall_mem_cons.mpr ⟨spelledExprs_of_items h.2.1, h.2.2.2.1⟩
  | lookup => exact List.forall_mem_cons.mpr ⟨h.2.1, h.2.2.2.1⟩

/-- A primary expression is a token, or has the names and numbers of its parts. -/
theorem keepsSpelled_primary : KeepsSpelled .primary := by
  intro parts p vs h
  cases p with
  | literal kind hkind => exact spelled_literalOf h.1.2
  | group => exact h.2.1
  | array => exact spelledExprs_of_items h.2.1
  | dictionary => exact spelledEntries_of_items h.2.1
  | function => exact ⟨spelledParameters_of_items h.2.2.1, h.2.2.2.2.1⟩

/-- Items have the names and numbers of their parts. -/
theorem keepsSpelled_item (k : ItemKind) : KeepsSpelled (.item k) := by
  intro parts p vs h
  cases k with
  | expression =>
    cases p with
    | only => exact h.1
  | entry =>
    cases p with
    | only => exact ⟨h.1, h.2.2.1, trivial⟩
  | parameter =>
    cases p with
    | only => exact spelled_parameterOf h.1 h.2.1
  | name =>
    cases p with
    | only => exact spelledName_nameOf h.1

theorem keepsSpelled_items (k : ItemKind) : KeepsSpelled (.items k) := by
  intro parts p vs h
  cases p with
  | absent => nofun
  | present => exact List.forall_mem_cons.mpr ⟨h.1, h.2.1⟩

theorem keepsSpelled_itemsRest (k : ItemKind) : KeepsSpelled (.itemsRest k) := by
  intro parts p vs h
  cases p with
  | absent => nofun
  | present => exact List.forall_mem_cons.mpr ⟨h.2.1, h.2.2.1⟩

/-- What any production makes of parts that read back reads back. -/
theorem keepsSpelled (s : Symbol) : KeepsSpelled s := by
  intro parts p vs h
  cases s with
  | statement => exact keepsSpelled_statement p vs h
  | secondName => exact keepsSpelled_secondName p vs h
  | right l => exact keepsSpelled_right l p vs h
  | relation => exact keepsSpelled_relation p vs h
  | relationRest => exact keepsSpelled_relationRest p vs h
  | left l => exact keepsSpelled_left l p vs h
  | leftRest l => exact keepsSpelled_leftRest l p vs h
  | suffixes => exact keepsSpelled_suffixes p vs h
  | primary => exact keepsSpelled_primary p vs h
  | item k => exact keepsSpelled_item k p vs h
  | items k => exact keepsSpelled_items k p vs h
  | itemsRest k => exact keepsSpelled_itemsRest k p vs h
  | postfixed =>
    cases p with
    | only => exact spelled_suffixed _ _ h.1 h.2.1
  | assigned | default | rightRest _ =>
    cases p with
    | absent => nofun
    | present =>
      rintro _ ⟨⟩
      exact h.2.1
  -- The others hand on what their parts give.
  | statements =>
    cases p with
    | absent => trivial
    | present => exact ⟨h.1, h.2.1⟩
  | block =>
    cases p with
    | only => exact h.2.1
  | conditional =>
    cases p with
    | only => exact ⟨h.2.2.1, h.2.2.2.2.1, h.2.2.2.2.2.1⟩
  | otherwise =>
    cases p with
    | absent => trivial
    | present => exact h.2.1
  | alternative => cases p <;> exact h.1
  | negation =>
    cases p with
    | negated => exact h.2.1
    | plain => exact h.1
  | signed =>
    cases p with
    | negative => exact h.2.1
    | positive => exact h.2.1
    | plain => exact h.1

/-- The names and numbers of a derivation are among its tokens. -/
theorem Derivations.ParseTree.spelled_meaning {s : Symbol} (t : ParseTree s)
    (h : ∀ token ∈ t.yield, Lexer.Spelled token) : SpelledMeaning s t.meaning :=
  t.holds_meaning keepsSpelled fun token htoken => ⟨rfl, h token htoken⟩

/-! ### Reading a listing -/

namespace Program

/-- A text is read if its tokens are, and then as what these are read as. -/
theorem parse_eq_ok {source : String} {file : Option String} {quoteLines : Bool}
    {program : Program} :
    parse source file quoteLines = .ok program ↔ ∃ tokens stop,
      Lexer.scan source file = ⟨tokens, .ok stop⟩ ∧
        ofTokens tokens ⟨file, stop, stop⟩ = .ok program := by
  unfold parse
  obtain ⟨tokens, ending⟩ := Lexer.scan source file
  cases ending with
  | error failure => simp
  | ok stop =>
    cases hprogram : ofTokens tokens ⟨file, stop, stop⟩ with
    | error refusal => simp [hprogram]
    | ok program => simp [hprogram]

/-- The names and numbers of a program that was read read back. -/
theorem spelled_of_parse {source : String} {file : Option String} {quoteLines : Bool}
    {program : Program} (h : parse source file quoteLines = .ok program) :
    SpelledStmts program.statements := by
  obtain ⟨tokens, stop, hscan, hprogram⟩ := parse_eq_ok.mp h
  obtain ⟨t, rfl, -, rfl⟩ := ofTokens_eq_ok.mp hprogram
  rw [programOf_statements ⟨file, stop, stop⟩ t.meaning]
  refine t.spelled_meaning fun token htoken => ?_
  have htokens : (Lexer.scan source file).tokens = t.yield := by rw [hscan]
  rw [← htokens] at htoken
  exact Lexer.spelled_of_mem htoken

/-- The listing of a program whose names and numbers read back is a program, and the same one. -/
theorem parse_listing_of_spelled {program : Program} (h : SpelledStmts program.statements)
    (file : Option String) (quoteLines : Bool) :
    ∃ again, parse program.listing file quoteLines = .ok again ∧ again.bare = program.bare := by
  obtain ⟨tokens, stop, hscan, hspells⟩ :=
    Listing.scan_listing (Listing.legible_pieces program h) file
  obtain ⟨t, hyield, hadmissible, hmeaning⟩ := Listing.denotes_pieces program h tokens hspells
  refine ⟨_, parse_eq_ok.mpr ⟨tokens, stop, hscan,
    ofTokens_eq_ok.mpr ⟨t, hyield, hadmissible, rfl⟩⟩, ?_⟩
  rw [bare, programOf_statements ⟨file, stop, stop⟩ t.meaning]
  exact congrArg (Program.mk .nowhere) hmeaning

end Program

/-- **A listing is read back as the program that was listed.** Whatever text a program was read
from, its listing is read as a program that differs from it in places alone. Its listing and its
S-expressions are then the same. -/
theorem parse_listing {source : String} {file : Option String} {quoteLines : Bool}
    {program : Program} (h : Program.parse source file quoteLines = .ok program)
    (file' : Option String) (quoteLines' : Bool) :
    ∃ again, Program.parse program.listing file' quoteLines' = .ok again ∧
      again.bare = program.bare ∧ again.listing = program.listing ∧
      again.sexpr = program.sexpr := by
  obtain ⟨again, hparse, hbare⟩ :=
    Program.parse_listing_of_spelled (Program.spelled_of_parse h) file' quoteLines'
  refine ⟨again, hparse, hbare, ?_, ?_⟩
  · rw [← again.listing_bare, hbare, program.listing_bare]
  · rw [← again.sexpr_bare, hbare, program.sexpr_bare]

/-- Parentheses stand around the negation under `+` and around what is called; spellings stay. -/
theorem parse_listing_negation :
    ∃ program again,
      Program.parse "t = a + (!b == 0x1F) ~ (-f)(x, 'it\\'s')[-1];" none = .ok program ∧
      program.listing = "t = ((a + (!(b == 0x1F))) ~ (-f)(x, 'it\\'s')[-1]);" ∧
      Program.parse program.listing none = .ok again ∧ again.bare = program.bare ∧
      again.listing = program.listing ∧ again.sexpr = program.sexpr := by
  have hlisting : (Program.parse "t = a + (!b == 0x1F) ~ (-f)(x, 'it\\'s')[-1];" none).toOption.map
      Program.listing = some "t = ((a + (!(b == 0x1F))) ~ (-f)(x, 'it\\'s')[-1]);" := by
    decide +kernel
  cases h : Program.parse "t = a + (!b == 0x1F) ~ (-f)(x, 'it\\'s')[-1];" none with
  | error failure =>
    rw [h] at hlisting
    cases hlisting
  | ok program =>
    rw [h] at hlisting
    obtain ⟨again, hagain⟩ := parse_listing h none true
    exact ⟨program, again, rfl, Option.some.inj hlisting, hagain⟩

end DecimalScript
