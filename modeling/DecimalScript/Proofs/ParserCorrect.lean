import DecimalScript.Proofs.ExpressionParsing

/-!
# The parser accepts exactly its grammar

`parses_exactly_the_grammar`: tokens have at most one derivation, and the parser succeeds just when
they have one in which every statement without a reserved word is a call or assigns to a name or a
lookup. The program is then what the derivation says.

Parentheses and a plus sign leave no trace in an expression, so what is assigned to is told from the
expression behind both (`ParseTree.agrees`). `plus_is_dropped_from_target` shows that dropping
parentheses alone would not be enough.

The lemmas go up the grammar from right parsers of expressions and blocks (`Parses`): each
statement, statements in a row, a block, and by induction on the bound on nesting all of them.

Nothing of the parser goes into the grammar. `Derivation` imports the tokens and the syntax of
programs alone: its productions are plain lists of parts, and what they say is put together there,
left operands to the left and arguments in their order. So the theorem does not hold for a parser
that takes the right tokens and swaps operands, groups the other way, or loses an argument.

## The two directions

Soundness is by following the parser: each of its steps succeeds in one way, which gives the part of
a derivation (`conditional_sound`, `each_sound`). Completeness is by taking the derivation apart
(`conditional_complete`, `each_complete`); that the parser goes the same way needs the one token of
lookahead, where it leaves out what the next token could not start. Uniqueness has nothing to do
with the parser and is a property of the grammar (`ParseTree.unique`).
-/

namespace DecimalScript

open Cursor DecimalScript.Parser

namespace Derivations

/-! ### Forms of expressions -/

variable {s : Symbol} {kind : TokenKind}

/-- Operators leave no form. -/
theorem formOf_leftOperations (others : List (BinaryOp × Expr)) :
    ∀ e, formOf e = none → formOf (leftOperations e others) = none := by
  induction others with
  | nil => exact fun e h => h
  | cons pair others ih => exact fun e _ => ih (operation pair.1 e pair.2) rfl

/-- A single token has the form of a name, or none. -/
theorem ParseTree.form_literal {token : Token} (hkind : token.kind = kind)
    (hmem : kind ∈ literalKinds) :
    (ParseTree.node (s := .primary) (.literal kind hmem) (.leaf token hkind .nil)).form true =
      formOf (literalOf token) := by
  have hform : formOf (literalOf token) = if kind = .name then some .name else none := by
    subst hkind
    unfold literalOf Token.kind at *
    cases token.content with
    | word w => cases w <;> simp_all [TokenContent.kind, literalKinds, formOf]
    | _ => simp_all [TokenContent.kind, literalKinds, formOf]
  rw [hform]
  cases kind with
  | mark m => exact absurd hmem (by cases m <;> decide)
  | _ => rfl

/-- Of what the form of a derivation is the form: of the expression that it says. Suffixes settle
the form of the expression that they are behind. -/
def Agrees : {s : Symbol} → ParseTree s → Prop
  | .right _, t => t.form true = formOf t.meaning
  | .negation, t => t.form true = formOf t.meaning
  | .relation, t => t.form true = formOf t.meaning
  | .left _, t => t.form true = formOf t.meaning
  | .signed, t => t.form true = formOf t.meaning
  | .postfixed, t => t.form true = formOf t.meaning
  | .primary, t => t.form true = formOf t.meaning
  | .suffixes, t =>
    ∀ e, (t.form true).or (formOf e) = formOf (suffixed e t.meaning)
  | _, _ => True

/-! An operator leaves no form, and without one the only operand settles it. So each production of
an expression agrees with its meaning if the derivations below it do. -/

/-- A level that groups to the right has the form of its operand, or none. -/
theorem agrees_right (l : RightLevel) {parts : List Part} (p : Production (.right l) parts)
    (f : Forest parts) (h : f.All Agrees) : Agrees (.node p f) := by
  cases p with
  | only =>
    obtain ⟨first, f, rfl⟩ := f.exists_sub
    obtain ⟨rest, f, rfl⟩ := f.exists_sub
    obtain ⟨_, p, g, rfl⟩ := rest.exists_node
    cases p with
    | absent => cases l <;> exact h.1
    | present =>
      obtain ⟨token, hkind, g, rfl⟩ := g.exists_leaf
      obtain ⟨second, g, rfl⟩ := g.exists_sub
      rfl

/-- A negation has no form. -/
theorem agrees_negation {parts : List Part} (p : Production .negation parts) (f : Forest parts)
    (h : f.All Agrees) : Agrees (.node p f) := by
  cases p with
  | plain =>
    obtain ⟨inner, f, rfl⟩ := f.exists_sub
    exact h.1
  | negated =>
    obtain ⟨token, hkind, f, rfl⟩ := f.exists_leaf
    obtain ⟨inner, f, rfl⟩ := f.exists_sub
    rfl

theorem agrees_relation {parts : List Part} (p : Production .relation parts) (f : Forest parts)
    (h : f.All Agrees) : Agrees (.node p f) := by
  cases p with
  | only =>
    obtain ⟨first, f, rfl⟩ := f.exists_sub
    obtain ⟨rest, f, rfl⟩ := f.exists_sub
    obtain ⟨_, p, g, rfl⟩ := rest.exists_node
    cases p with
    | absent => exact h.1
    | present op hmem =>
      obtain ⟨token, hkind, g, rfl⟩ := g.exists_leaf
      obtain ⟨second, g, rfl⟩ := g.exists_sub
      rfl

/-- A level that groups to the left has the form of its operand, or none. -/
theorem agrees_left (l : LeftLevel) {parts : List Part} (p : Production (.left l) parts)
    (f : Forest parts) (h : f.All Agrees) : Agrees (.node p f) := by
  cases p with
  | only =>
    obtain ⟨first, f, rfl⟩ := f.exists_sub
    obtain ⟨rest, f, rfl⟩ := f.exists_sub
    obtain ⟨_, p, g, rfl⟩ := rest.exists_node
    cases p with
    | absent => cases l <;> exact h.1
    | present op hmem =>
      obtain ⟨token, hkind, g, rfl⟩ := g.exists_leaf
      obtain ⟨second, g, rfl⟩ := g.exists_sub
      obtain ⟨others, g, rfl⟩ := g.exists_sub
      exact (formOf_leftOperations others.meaning
        (operation op (l.operandExpr first.meaning) (l.operandExpr second.meaning)) rfl).symm

/-- A minus sign leaves no form, and a plus sign the one of the operand. -/
theorem agrees_signed {parts : List Part} (p : Production .signed parts) (f : Forest parts)
    (h : f.All Agrees) : Agrees (.node p f) := by
  cases p with
  | plain =>
    obtain ⟨inner, f, rfl⟩ := f.exists_sub
    exact h.1
  | positive =>
    -- A plus sign leaves no trace, which is why forms are looked for behind it.
    obtain ⟨token, hkind, f, rfl⟩ := f.exists_leaf
    obtain ⟨inner, f, rfl⟩ := f.exists_sub
    exact h.1
  | negative =>
    obtain ⟨token, hkind, f, rfl⟩ := f.exists_leaf
    obtain ⟨inner, f, rfl⟩ := f.exists_sub
    rfl

theorem agrees_postfixed {parts : List Part} (p : Production .postfixed parts) (f : Forest parts)
    (h : f.All Agrees) : Agrees (.node p f) := by
  cases p with
  | only =>
    obtain ⟨first, f, rfl⟩ := f.exists_sub
    obtain ⟨suffixes, f, rfl⟩ := f.exists_sub
    have hfirst : first.form true = formOf first.meaning := h.1
    exact (congrArg _ hfirst).trans (h.2.1 first.meaning)

/-- The last suffix settles the form. -/
theorem agrees_suffixes {parts : List Part} (p : Production .suffixes parts) (f : Forest parts)
    (h : f.All Agrees) : Agrees (.node p f) := by
  cases p with
  | absent => exact fun _ => rfl
  | call =>
    obtain ⟨token, hkind, f, rfl⟩ := f.exists_leaf
    obtain ⟨arguments, f, rfl⟩ := f.exists_sub
    obtain ⟨stop, hstopKind, f, rfl⟩ := f.exists_leaf
    obtain ⟨others, f, rfl⟩ := f.exists_sub
    intro e
    -- The last suffix decides the form; one that stands before it is only asked when there is none.
    exact (Option.or_assoc ..).trans (h.2.1 (.call _ e arguments.meaning))
  | lookup =>
    obtain ⟨token, hkind, f, rfl⟩ := f.exists_leaf
    obtain ⟨key, f, rfl⟩ := f.exists_sub
    obtain ⟨stop, hstopKind, f, rfl⟩ := f.exists_leaf
    obtain ⟨others, f, rfl⟩ := f.exists_sub
    intro e
    exact (Option.or_assoc ..).trans (h.2.1 (.lookup _ e key.meaning))

theorem agrees_primary {parts : List Part} (p : Production .primary parts) (f : Forest parts)
    (h : f.All Agrees) : Agrees (.node p f) := by
  cases p with
  | literal kind hmem =>
    obtain ⟨token, hkind, f, rfl⟩ := f.exists_leaf
    cases f with
    | nil => exact ParseTree.form_literal hkind hmem
  | group =>
    obtain ⟨token, hkind, f, rfl⟩ := f.exists_leaf
    obtain ⟨inner, f, rfl⟩ := f.exists_sub
    exact h.1
  | array | dictionary | function =>
    obtain ⟨token, hkind, f, rfl⟩ := f.exists_leaf
    rfl

/-- The form of a derivation is the form of the expression that it says. -/
theorem ParseTree.agrees {s : Symbol} (t : ParseTree s) : Agrees t := by
  induction t using ParseTree.induction with
  | @node s _ p f ih =>
    cases s with
    | right l => exact agrees_right l p f ih
    | negation => exact agrees_negation p f ih
    | relation => exact agrees_relation p f ih
    | left l => exact agrees_left l p f ih
    | signed => exact agrees_signed p f ih
    | postfixed => exact agrees_postfixed p f ih
    | suffixes => exact agrees_suffixes p f ih
    | primary => exact agrees_primary p f ih
    | _ => trivial

/-- A symbol that is not optional takes a token. -/
theorem ParseTree.Covers.length_lt {t : ParseTree s} {c c' : Cursor} (h : t.Covers c c')
    (hs : s.isOptional = false) : c'.rest.length < c.rest.length := by
  cases hyield : t.yield with
  | nil =>
    rw [t.isOptional_of_yield hyield] at hs
    cases hs
  | cons token tokens =>
    have htakes := h.takes
    rw [hyield] at htakes
    exact htakes.length_lt

/-- The first token of a derivation is the next one. -/
theorem ParseTree.Covers.firstSpan_eq {t : ParseTree s} {c c' : Cursor} (h : t.Covers c c')
    (hs : s.isOptional = false) {token : Token} (hhead : c.rest.head? = some token) :
    firstSpan t.yield = token.span := by
  cases hyield : t.yield with
  | nil =>
    rw [t.isOptional_of_yield hyield] at hs
    cases hs
  | cons first tokens =>
    have htakes := h.takes
    rw [hyield] at htakes
    rw [htakes.head?] at hhead
    cases hhead
    rfl

end Derivations

open Derivations

namespace Grammar

variable {bound : Nat} {expr : Parser Expr} {block : Parser Block}

/-! ### Statements with a reserved word -/

/-- A condition that was read is an expression between parentheses. -/
theorem condition_sound (hexpr : Parses .expression id bound expr) {c c' : Cursor} {e : Expr}
    (hok : condition expr c = .ok (e, c')) :
    ∃ (start stop : Token) (t : ParseTree .expression) (c₁ c₂ : Cursor), start.kind = .mark .lparen ∧
      stop.kind = .mark .rparen ∧ Takes [start] c c₁ ∧ t.Covers c₁ c₂ ∧ Takes [stop] c₂ c' ∧
        t.meaning = e := by
  obtain ⟨_, c₁, hopen, hok⟩ := bind_eq_ok.mp hok
  obtain ⟨start, ⟨hstartKind, -⟩, hstart⟩ := mark_eq_ok.mp hopen
  obtain ⟨t, stop, c₂, ht, hstopKind, hstop, rfl⟩ := closed_sound hexpr hok
  exact ⟨start, stop, t, c₁, c₂, hstartKind, hstopKind, hstart, ht, hstop, rfl⟩

/-- An expression between parentheses is read as a condition. -/
theorem condition_complete (hexpr : Parses .expression id bound expr) {c c₁ c₂ c' : Cursor}
    {start stop : Token} {t : ParseTree .expression} (hstartKind : start.kind = .mark .lparen)
    (hstopKind : stop.kind = .mark .rparen) (hstart : Takes [start] c c₁) (ht : t.Fits bound c₁ c₂)
    (hstop : Takes [stop] c₂ c') : condition expr c = .ok (t.meaning, c') :=
  bind_eq_ok.mpr ⟨_, _, mark_eq_ok.mpr ⟨start, ⟨hstartKind, rfl⟩, hstart⟩,
    closed_complete (fun e _ => e) hexpr ht hstopKind hstop⟩

section Conditional

variable {α : Type} {later : Parser (Otherwise × Option Span)} {token : Token} {c c₁ c' : Cursor}

/-- A conditional behind its reserved word, where what follows its block is read rightly. -/
theorem conditional_sound (make : Conditional → α) (hexpr : Parses .expression id bound expr)
    (hblock : Parses .block id bound block) (hkind : token.kind = .word .ifWord)
    (htoken : Takes [token] c c₁)
    (hlater : ∀ {c₂ c₃ : Cursor} {r : Otherwise × Option Span}, c₂.rest.length < c₁.rest.length →
      later c₂ = .ok (r, c₃) → ∃ t : ParseTree .otherwise, t.Covers c₂ c₃ ∧ t.meaning = r) {a : α}
    (hok : (do
      let test ← condition expr
      let body ← block
      let (others, stop) ← later
      return make ⟨token.span.upTo (stop.getD body.span), test, body, others⟩ : Parser α) c₁ =
        .ok (a, c')) :
    ∃ t : ParseTree .conditional, t.Covers c c' ∧ make t.meaning = a := by
  obtain ⟨_, c₂, htest, hok⟩ := bind_eq_ok.mp hok
  obtain ⟨start, stop, test, c₃, c₄, hstartKind, hstopKind, hstart, hcovers, hstop, rfl⟩ :=
    condition_sound hexpr htest
  obtain ⟨_, c₅, hbody, hok⟩ := bind_eq_ok.mp hok
  obtain ⟨body, hcovers', rfl⟩ := hblock.sound hbody
  obtain ⟨_, c₆, hothers, hok⟩ := bind_eq_ok.mp hok
  -- The chain of branches recurses behind the condition and the block, with fewer tokens left.
  have hshorter : c₅.rest.length < c₁.rest.length := by
    have := hstart.length_lt
    have := hcovers.length_le
    have := hstop.length_lt
    have := hcovers'.length_le
    omega
  obtain ⟨others, hcovers'', rfl⟩ := hlater hshorter hothers
  obtain ⟨rfl, rfl⟩ := pure_eq_ok.mp hok
  exact ⟨.node .only (.leaf token hkind (.leaf start hstartKind (.sub test (.leaf stop hstopKind
      (.sub body (.sub others .nil)))))),
    .node trivial rfl (.leaf hkind htoken (.leaf hstartKind hstart (.sub hcovers
      (.leaf hstopKind hstop (.sub hcovers' (.sub hcovers'' .nil)))))), rfl⟩

/-- The parser follows a derivation of a conditional, if it follows what may come behind its block.
-/
theorem conditional_complete (make : Conditional → α) (hexpr : Parses .expression id bound expr)
    (hblock : Parses .block id bound block) (hkind : token.kind = .word .ifWord)
    (f : Forest [.mark .lparen, .expression, .mark .rparen, .symbol .block, .symbol .otherwise])
    (hf : f.Fits bound c c')
    (hlater : ∀ (t : ParseTree .otherwise) {c₁ c₂ : Cursor}, t.Fits bound c₁ c₂ →
      c₁.rest.length < c.rest.length → later c₁ = .ok (t.meaning, c₂)) :
    (do
      let test ← condition expr
      let body ← block
      let (others, stop) ← later
      return make ⟨token.span.upTo (stop.getD body.span), test, body, others⟩ : Parser α) c =
      .ok (make (ParseTree.node (s := .conditional) .only (.leaf token hkind f)).meaning, c') := by
  obtain ⟨start, hstartKind, f, c₁, rfl, hstart, hf⟩ := hf.exists_leaf
  obtain ⟨test, f, c₂, rfl, htest, hf⟩ := hf.exists_sub
  obtain ⟨stop, hstopKind, f, c₃, rfl, hstop, hf⟩ := hf.exists_leaf
  obtain ⟨body, f, c₄, rfl, hbody, hf⟩ := hf.exists_sub
  obtain ⟨others, f, c₅, rfl, hothers, hf⟩ := hf.exists_sub
  obtain ⟨rfl, rfl⟩ := hf.eq_nil
  have hshorter : c₄.rest.length < c.rest.length := by
    have := hstart.length_lt
    have := htest.length_le
    have := hstop.length_lt
    have := hbody.length_le
    omega
  have hcondition := condition_complete hexpr hstartKind hstopKind hstart
    (htest.mono (Nat.sub_le _ _)) hstop
  have hok := hblock.complete body (hbody.mono (by omega))
  have hok' := hlater others (hothers.mono (by omega)) hshorter
  exact bind_eq_ok.mpr ⟨_, _, hcondition, bind_eq_ok.mpr ⟨_, _, hok,
    bind_eq_ok.mpr ⟨_, _, hok', rfl⟩⟩⟩

end Conditional

/-- What follows the block of a conditional is nothing, a block or another conditional. The bound is
on the tokens, of which every further conditional has fewer. -/
theorem otherwise_sound (hexpr : Parses .expression id bound expr)
    (hblock : Parses .block id bound block) (n : Nat) :
    ∀ {c c' : Cursor} {r : Otherwise × Option Span}, c.rest.length ≤ n →
      otherwise expr block n c = .ok (r, c') →
        ∃ t : ParseTree .otherwise, t.Covers c c' ∧ t.meaning = r := by
  -- The budget is the number of tokens left. At zero there is no `else` to take.
  induction n with
  | zero =>
    intro c c' r hn hok
    obtain ⟨rfl, rfl⟩ := pure_eq_ok.mp hok
    have hrest : c.rest = [] := List.eq_nil_of_length_eq_zero (Nat.le_zero.mp hn)
    exact ⟨.node .absent .nil, .absent trivial (by rw [hrest]; exact nofun), rfl⟩
  | succ n ih =>
    intro c c' r hn hok
    obtain ⟨next, c₁, haccept, hok⟩ := bind_eq_ok.mp hok
    cases next with
    | none =>
      obtain ⟨hnone, rfl⟩ := accept_eq_none.mp haccept
      obtain ⟨rfl, rfl⟩ := pure_eq_ok.mp hok
      exact ⟨.node .absent .nil, .absent trivial fun token htoken =>
        beq_eq_false_iff_ne.mpr (isWord_eq_none.mp (hnone token htoken)), rfl⟩
    | some _ =>
      obtain ⟨elseToken, helse, htoken⟩ := accept_eq_some.mp haccept
      have hlength := htoken.length_lt
      obtain ⟨hkind, -⟩ := isWord_eq_some.mp helse
      obtain ⟨next, c₂, haccept, hok⟩ := bind_eq_ok.mp hok
      cases next with
      | none =>
        obtain ⟨-, rfl⟩ := accept_eq_none.mp haccept
        obtain ⟨_, c₃, hbody, hok⟩ := bind_eq_ok.mp hok
        obtain ⟨body, hcovers, rfl⟩ := hblock.sound hbody
        obtain ⟨rfl, rfl⟩ := pure_eq_ok.mp hok
        exact ⟨.node .present (.leaf elseToken hkind (.sub (.node .block (.sub body .nil)) .nil)),
          .node trivial rfl
            (.leaf hkind htoken (.sub (.node trivial rfl (.sub hcovers .nil)) .nil)), rfl⟩
      | some _ =>
        obtain ⟨ifToken, hif, hstart⟩ := accept_eq_some.mp haccept
        obtain ⟨hifKind, rfl⟩ := isWord_eq_some.mp hif
        have hlength' := hstart.length_lt
        obtain ⟨inner, hcovers, rfl⟩ := conditional_sound
          (fun inner => (Otherwise.branch inner.span inner.test inner.body inner.later,
            some inner.span)) hexpr hblock hifKind hstart (fun hshorter => ih (by omega)) hok
        exact ⟨.node .present (.leaf elseToken hkind (.sub (.node .branch (.sub inner .nil)) .nil)),
          .node trivial rfl (.leaf hkind htoken
            (.sub (.node trivial rfl (.sub hcovers .nil)) .nil)), rfl⟩

/-- Behind `else` the parser follows a derivation of a block or of another conditional. -/
theorem alternative_complete {later : Parser (Otherwise × Option Span)} {c c' : Cursor}
    (hexpr : Parses .expression id bound expr) (hblock : Parses .block id bound block)
    (t : ParseTree .alternative) (ht : t.Fits bound c c')
    (hlater : ∀ (t : ParseTree .otherwise) {c₁ c₂ : Cursor}, t.Fits bound c₁ c₂ →
      c₁.rest.length < c.rest.length → later c₁ = .ok (t.meaning, c₂)) :
    (do
      match ← accept? (isWord .ifWord) with
      | none =>
        let body ← block
        return (.block body, some body.span)
      | some start =>
        let test ← condition expr
        let body ← block
        let (others, stop) ← later
        let span := start.upTo (stop.getD body.span)
        return (.branch span test body others, some span) : Parser (Otherwise × Option Span)) c =
      .ok ((t.meaning.1, some t.meaning.2), c') := by
  obtain ⟨_, p, f, rfl, -, hf⟩ := ht.exists_node
  cases p with
  | block =>
    obtain ⟨body, f, c₁, rfl, hbody, hf⟩ := hf.exists_sub
    obtain ⟨rfl, rfl⟩ := hf.eq_nil
    -- The parser looks for `if` before it takes a block, and no block starts with it.
    have hnone : ∀ token ∈ c.rest.head?, isWord .ifWord token = none := by
      refine hbody.head_eq_none rfl fun token hstarts => isWord_eq_none.mpr fun hif => ?_
      rw [hif] at hstarts
      cases hstarts
    exact bind_eq_ok.mpr ⟨none, _, accept_eq_none.mpr ⟨hnone, rfl⟩, bind_eq_ok.mpr ⟨_, _,
      hblock.complete body hbody, rfl⟩⟩
  | branch =>
    obtain ⟨inner, f, c₁, rfl, hinner, hf⟩ := hf.exists_sub
    obtain ⟨rfl, rfl⟩ := hf.eq_nil
    obtain ⟨_, p, g, rfl, -, hg⟩ := hinner.exists_node
    cases p with
    | only =>
      obtain ⟨ifToken, hifKind, g, c₂, rfl, hif, hg⟩ := hg.exists_leaf
      have hlength := hif.length_lt
      have hok := conditional_complete
        (fun inner => (Otherwise.branch inner.span inner.test inner.body inner.later,
          some inner.span)) hexpr hblock hifKind g (hg.mono (Nat.sub_le _ _))
        fun t _ _ ht hshorter => hlater t ht (by omega)
      exact bind_eq_ok.mpr ⟨_, _,
        accept_eq_some.mpr ⟨ifToken, isWord_eq_some.mpr ⟨hifKind, rfl⟩, hif⟩, hok⟩

/-- The bound on further conditions is never felt either. -/
theorem otherwise_complete (hexpr : Parses .expression id bound expr)
    (hblock : Parses .block id bound block) (n : Nat) :
    ∀ (t : ParseTree .otherwise) {c c' : Cursor}, t.Fits bound c c' → c.rest.length ≤ n →
      otherwise expr block n c = .ok (t.meaning, c') := by
  induction n with
  | zero =>
    intro t c c' ht hn
    obtain ⟨_, p, f, rfl, -, hf⟩ := ht.exists_node
    cases p with
    | absent =>
      obtain ⟨rfl, rfl⟩ := hf.eq_nil
      rfl
    | present =>
      obtain ⟨token, hkind, f, c₁, rfl, htoken, hf⟩ := hf.exists_leaf
      have hlength := htoken.length_lt
      omega
  | succ n ih =>
    intro t c c' ht hn
    obtain ⟨_, p, f, rfl, -, hf⟩ := ht.exists_node
    cases p with
    | absent =>
      obtain ⟨rfl, rfl⟩ := hf.eq_nil
      exact bind_eq_ok.mpr ⟨none, _, accept_eq_none.mpr ⟨fun token hhead =>
        isWord_eq_none.mpr (beq_eq_false_iff_ne.mp (ht.starts_eq_false token hhead)), rfl⟩, rfl⟩
    | present =>
      obtain ⟨elseToken, hkind, f, c₁, rfl, htoken, hf⟩ := hf.exists_leaf
      obtain ⟨alternative, f, c₂, rfl, halternative, hf⟩ := hf.exists_sub
      obtain ⟨rfl, rfl⟩ := hf.eq_nil
      have hlength := htoken.length_lt
      have hok := alternative_complete hexpr hblock alternative
        (halternative.mono (Nat.sub_le _ _)) fun t _ _ ht hshorter => ih t ht (by omega)
      exact bind_eq_ok.mpr ⟨_, _,
        accept_eq_some.mpr ⟨elseToken, isWord_eq_some.mpr ⟨hkind, rfl⟩, htoken⟩, hok⟩

section Words

variable {token : Token} {c c₁ c' : Cursor} {a : Stmt} {n : Nat}

/-- A return that was read is derived. -/
theorem ret_sound (hexpr : Parses .expression id bound expr) (hkind : token.kind = .word .returnWord)
    (htoken : Takes [token] c c₁) (hok : ret expr token.span c₁ = .ok (a, c')) :
    ∃ t : ParseTree .statement, t.Covers c c' ∧ t.meaning = a := by
  obtain ⟨value, stop, c₂, hcovers, hstopKind, hstop, rfl⟩ := closed_sound hexpr hok
  exact ⟨.node .ret (.leaf token hkind (.sub value (.leaf stop hstopKind .nil))),
    .node trivial rfl (.leaf hkind htoken (.sub hcovers (.leaf hstopKind hstop .nil))), rfl⟩

/-- The parser follows a derivation of a return. -/
theorem ret_complete (hexpr : Parses .expression id bound expr)
    (hkind : token.kind = .word .returnWord) (f : Forest [.expression, .mark .semicolon])
    (hf : f.Fits bound c c') :
    ret expr token.span c =
      .ok ((ParseTree.node (s := .statement) .ret (.leaf token hkind f)).meaning, c') := by
  obtain ⟨value, f, c₁, rfl, hvalue, hf⟩ := hf.exists_sub
  obtain ⟨stop, hstopKind, f, c₂, rfl, hstop, hf⟩ := hf.exists_leaf
  obtain ⟨rfl, rfl⟩ := hf.eq_nil
  exact closed_complete (fun e stop => Stmt.ret (token.span.upTo stop) e) hexpr hvalue hstopKind
    hstop

theorem branch_sound (hexpr : Parses .expression id bound expr)
    (hblock : Parses .block id bound block) (hkind : token.kind = .word .ifWord)
    (htoken : Takes [token] c c₁) (hok : branch expr block token.span c₁ = .ok (a, c')) :
    ∃ t : ParseTree .statement, t.Covers c c' ∧ t.meaning = a := by
  obtain ⟨inner, hcovers, rfl⟩ := conditional_sound
    (fun inner => Stmt.branch inner.span inner.test inner.body inner.later) hexpr hblock hkind
    htoken (fun _ => otherwise_sound hexpr hblock _ (Nat.le_refl _)) hok
  exact ⟨.node .branch (.sub inner .nil), .node trivial rfl (.sub hcovers .nil), rfl⟩

theorem branch_complete (hexpr : Parses .expression id bound expr)
    (hblock : Parses .block id bound block) (hkind : token.kind = .word .ifWord)
    (f : Forest [.mark .lparen, .expression, .mark .rparen, .symbol .block, .symbol .otherwise])
    (hf : f.Fits bound c c') :
    branch expr block token.span c = .ok ((ParseTree.node (s := .statement) .branch
      (.sub (.node .only (.leaf token hkind f)) .nil)).meaning, c') :=
  conditional_complete (fun inner => Stmt.branch inner.span inner.test inner.body inner.later)
    hexpr hblock hkind f hf
    fun later _ _ hlater _ => otherwise_complete hexpr hblock _ later hlater (Nat.le_refl _)

theorem loop_sound (hexpr : Parses .expression id bound expr)
    (hblock : Parses .block id bound block) (hkind : token.kind = .word .whileWord)
    (htoken : Takes [token] c c₁) (hok : loop expr block token.span c₁ = .ok (a, c')) :
    ∃ t : ParseTree .statement, t.Covers c c' ∧ t.meaning = a := by
  obtain ⟨_, c₂, htest, hok⟩ := bind_eq_ok.mp hok
  obtain ⟨start, stop, test, c₃, c₄, hstartKind, hstopKind, hstart, hcovers, hstop, rfl⟩ :=
    condition_sound hexpr htest
  obtain ⟨_, c₅, hbody, hok⟩ := bind_eq_ok.mp hok
  obtain ⟨body, hcovers', rfl⟩ := hblock.sound hbody
  obtain ⟨rfl, rfl⟩ := pure_eq_ok.mp hok
  exact ⟨.node .loop (.leaf token hkind (.leaf start hstartKind (.sub test
      (.leaf stop hstopKind (.sub body .nil))))),
    .node trivial rfl (.leaf hkind htoken (.leaf hstartKind hstart (.sub hcovers
      (.leaf hstopKind hstop (.sub hcovers' .nil))))), rfl⟩

theorem loop_complete (hexpr : Parses .expression id bound expr)
    (hblock : Parses .block id bound block) (hkind : token.kind = .word .whileWord)
    (f : Forest [.mark .lparen, .expression, .mark .rparen, .symbol .block])
    (hf : f.Fits bound c c') :
    loop expr block token.span c =
      .ok ((ParseTree.node (s := .statement) .loop (.leaf token hkind f)).meaning, c') := by
  obtain ⟨start, hstartKind, f, c₁, rfl, hstart, hf⟩ := hf.exists_leaf
  obtain ⟨test, f, c₂, rfl, htest, hf⟩ := hf.exists_sub
  obtain ⟨stop, hstopKind, f, c₃, rfl, hstop, hf⟩ := hf.exists_leaf
  obtain ⟨body, f, c₄, rfl, hbody, hf⟩ := hf.exists_sub
  obtain ⟨rfl, rfl⟩ := hf.eq_nil
  have hcondition := condition_complete hexpr hstartKind hstopKind hstart
    (htest.mono (Nat.sub_le _ _)) hstop
  have hok := hblock.complete body (hbody.mono (by omega))
  exact bind_eq_ok.mpr ⟨_, _, hcondition, bind_eq_ok.mpr ⟨_, _, hok, rfl⟩⟩

/-- A loop over a container that was read is derived, with one variable or two. -/
theorem each_sound (hexpr : Parses .expression id bound expr)
    (hblock : Parses .block id bound block) (hkind : token.kind = .word .foreachWord)
    (htoken : Takes [token] c c₁) (hok : each expr block token.span c₁ = .ok (a, c')) :
    ∃ t : ParseTree .statement, t.Covers c c' ∧ t.meaning = a := by
  obtain ⟨_, c₂, hopen, hok⟩ := bind_eq_ok.mp hok
  obtain ⟨start, ⟨hstartKind, -⟩, hstart⟩ := mark_eq_ok.mp hopen
  obtain ⟨_, c₃, hsource, hok⟩ := bind_eq_ok.mp hok
  obtain ⟨source, hcovers, rfl⟩ := hexpr.sound hsource
  obtain ⟨_, c₄, has, hok⟩ := bind_eq_ok.mp hok
  obtain ⟨asToken, hword, has⟩ := expect_eq_ok.mp has
  obtain ⟨hasKind, -⟩ := isWord_eq_some.mp hword
  obtain ⟨⟨_, _⟩, c₅, hname, hok⟩ := bind_eq_ok.mp hok
  obtain ⟨first, ⟨hfirstKind, hpair⟩, hfirst⟩ := name_eq_ok.mp hname
  cases hpair
  obtain ⟨next, c₆, haccept, hok⟩ := bind_eq_ok.mp hok
  -- Both forms of the loop end alike. They differ in whether the names behind `as` are two.
  cases next with
  | none =>
    obtain ⟨hnone, rfl⟩ := accept_eq_none.mp haccept
    obtain ⟨_, c₇, hclose, hok⟩ := bind_eq_ok.mp hok
    obtain ⟨stop, ⟨hstopKind, -⟩, hstop⟩ := mark_eq_ok.mp hclose
    obtain ⟨_, c₈, hbody, hok⟩ := bind_eq_ok.mp hok
    obtain ⟨body, hcovers', rfl⟩ := hblock.sound hbody
    obtain ⟨rfl, rfl⟩ := pure_eq_ok.mp hok
    exact ⟨.node .each (.leaf token hkind (.leaf start hstartKind (.sub source
        (.leaf asToken hasKind (.leaf first hfirstKind (.sub (.node .absent .nil)
          (.leaf stop hstopKind (.sub body .nil)))))))),
      .node trivial rfl (.leaf hkind htoken (.leaf hstartKind hstart (.sub hcovers
        (.leaf hasKind has (.leaf hfirstKind hfirst (.sub (.absent trivial fun token hhead =>
          isMark_eq_none_iff.mp (hnone token hhead))
            (.leaf hstopKind hstop (.sub hcovers' .nil)))))))), rfl⟩
  | some _ =>
    obtain ⟨colon, hmark, hcolon⟩ := accept_eq_some.mp haccept
    obtain ⟨hcolonKind, -⟩ := isMark_eq_some.mp hmark
    obtain ⟨⟨_, _⟩, c₇, hname', hok⟩ := bind_eq_ok.mp hok
    obtain ⟨second, ⟨hsecondKind, hpair⟩, hsecond⟩ := name_eq_ok.mp hname'
    cases hpair
    obtain ⟨_, c₈, hclose, hok⟩ := bind_eq_ok.mp hok
    obtain ⟨stop, ⟨hstopKind, -⟩, hstop⟩ := mark_eq_ok.mp hclose
    obtain ⟨_, c₉, hbody, hok⟩ := bind_eq_ok.mp hok
    obtain ⟨body, hcovers', rfl⟩ := hblock.sound hbody
    obtain ⟨rfl, rfl⟩ := pure_eq_ok.mp hok
    exact ⟨.node .each (.leaf token hkind (.leaf start hstartKind (.sub source
        (.leaf asToken hasKind (.leaf first hfirstKind (.sub (.node .present
          (.leaf colon hcolonKind (.leaf second hsecondKind .nil)))
          (.leaf stop hstopKind (.sub body .nil)))))))),
      .node trivial rfl (.leaf hkind htoken (.leaf hstartKind hstart (.sub hcovers
        (.leaf hasKind has (.leaf hfirstKind hfirst (.sub (.node trivial rfl
          (.leaf hcolonKind hcolon (.leaf hsecondKind hsecond .nil)))
          (.leaf hstopKind hstop (.sub hcovers' .nil)))))))), rfl⟩

/-- The parser follows a derivation of a loop over a container. -/
theorem each_complete (hexpr : Parses .expression id bound expr)
    (hblock : Parses .block id bound block) (hkind : token.kind = .word .foreachWord)
    (f : Forest [.mark .lparen, .expression, .word .asWord, .token .name, .symbol .secondName,
      .mark .rparen, .symbol .block])
    (hf : f.Fits bound c c') :
    each expr block token.span c =
      .ok ((ParseTree.node (s := .statement) .each (.leaf token hkind f)).meaning, c') := by
  obtain ⟨start, hstartKind, f, c₁, rfl, hstart, hf⟩ := hf.exists_leaf
  obtain ⟨source, f, c₂, rfl, hsource, hf⟩ := hf.exists_sub
  obtain ⟨asToken, hasKind, f, c₃, rfl, has, hf⟩ := hf.exists_leaf
  obtain ⟨first, hfirstKind, f, c₄, rfl, hfirst, hf⟩ := hf.exists_leaf
  obtain ⟨secondName, f, c₅, rfl, hsecondName, hf⟩ := hf.exists_sub
  obtain ⟨stop, hstopKind, f, c₆, rfl, hstop, hf⟩ := hf.exists_leaf
  obtain ⟨body, f, c₇, rfl, hbody, hf⟩ := hf.exists_sub
  obtain ⟨rfl, rfl⟩ := hf.eq_nil
  have hok := hblock.complete body (hbody.mono (by omega))
  refine bind_eq_ok.mpr ⟨_, _, mark_eq_ok.mpr ⟨start, ⟨hstartKind, rfl⟩, hstart⟩, ?_⟩
  refine bind_eq_ok.mpr ⟨_, _, hexpr.complete source (hsource.mono (Nat.sub_le _ _)), ?_⟩
  refine bind_eq_ok.mpr ⟨_, _,
    expect_eq_ok.mpr ⟨asToken, isWord_eq_some.mpr ⟨hasKind, rfl⟩, has⟩, ?_⟩
  refine bind_eq_ok.mpr ⟨_, _, name_eq_ok.mpr ⟨first, ⟨hfirstKind, rfl⟩, hfirst⟩, ?_⟩
  obtain ⟨_, p, g, rfl, -, hg⟩ := hsecondName.exists_node
  cases p with
  | absent =>
    obtain ⟨rfl, rfl⟩ := hg.eq_nil
    -- With one name the closing parenthesis stands where the colon would be.
    have hnone : ∀ token ∈ c₄.rest.head?, isMark .colon token = none := by
      intro token hhead
      rw [hstop.head?] at hhead
      cases hhead
      exact isMark_eq_none.mpr fun hcolon => nomatch hstopKind.symm.trans hcolon
    exact bind_eq_ok.mpr ⟨none, _, accept_eq_none.mpr ⟨hnone, rfl⟩, bind_eq_ok.mpr ⟨_, _,
      mark_eq_ok.mpr ⟨stop, ⟨hstopKind, rfl⟩, hstop⟩, bind_eq_ok.mpr ⟨_, _, hok, rfl⟩⟩⟩
  | present =>
    obtain ⟨colon, hcolonKind, g, c₈, rfl, hcolon, hg⟩ := hg.exists_leaf
    obtain ⟨second, hsecondKind, g, c₉, rfl, hsecond, hg⟩ := hg.exists_leaf
    obtain ⟨rfl, rfl⟩ := hg.eq_nil
    exact bind_eq_ok.mpr ⟨_, _,
      accept_eq_some.mpr ⟨colon, isMark_eq_some.mpr ⟨hcolonKind, rfl⟩, hcolon⟩,
      bind_eq_ok.mpr ⟨_, _, name_eq_ok.mpr ⟨second, ⟨hsecondKind, rfl⟩, hsecond⟩,
        bind_eq_ok.mpr ⟨_, _, mark_eq_ok.mpr ⟨stop, ⟨hstopKind, rfl⟩, hstop⟩,
          bind_eq_ok.mpr ⟨_, _, hok, rfl⟩⟩⟩⟩

theorem parses_name (role : String) : Parses (.item .name) id bound (name role) where
  sound := by
    intro c c' r hok
    obtain ⟨token, ⟨hkind, rfl⟩, htoken⟩ := name_eq_ok.mp hok
    exact ⟨.node .only (.leaf token hkind .nil), .node trivial rfl (.leaf hkind htoken .nil), rfl⟩
  complete := by
    intro c c' t ht
    obtain ⟨_, p, f, rfl, -, hf⟩ := ht.exists_node
    cases p with
    | only =>
      obtain ⟨token, hkind, f, c₁, rfl, htoken, hf⟩ := hf.exists_leaf
      obtain ⟨rfl, rfl⟩ := hf.eq_nil
      exact name_eq_ok.mpr ⟨token, ⟨hkind, rfl⟩, htoken⟩

/-- A declaration that was read is derived. -/
theorem declareGlobal_sound (hkind : token.kind = .word .globalWord) (htoken : Takes [token] c c₁)
    (hok : declareGlobal token.span c₁ = .ok (a, c')) :
    ∃ t : ParseTree .statement, t.Covers c c' ∧ t.meaning = a := by
  obtain ⟨chained, c₂, hchain, hok⟩ := bind_eq_ok.mp hok
  obtain ⟨_, c₃, hmark, hok⟩ := bind_eq_ok.mp hok
  obtain ⟨stop, ⟨hstopKind, rfl⟩, hstop⟩ := mark_eq_ok.mp hmark
  obtain ⟨rfl, rfl⟩ := pure_eq_ok.mp hok
  have hname : Parses (.item .name) id 0 (name "variable name") := parses_name _
  obtain ⟨first, others, c₄, hfirst, hothers, hvalue, hmeaning⟩ := itemChain_sound hname hchain
  refine ⟨.node .declareGlobal (.leaf token hkind (.sub first (.sub others
      (.leaf stop hstopKind .nil)))),
    .node trivial rfl (.leaf hkind htoken (.sub hfirst (.sub hothers
      (.leaf hstopKind hstop .nil)))), ?_⟩
  show Stmt.declareGlobal _ (Prod.fst first.meaning :: List.map Prod.fst others.meaning) = _
  rw [hvalue, hmeaning]
  exact congrArg (fun names => Stmt.declareGlobal _ (Prod.fst chained.first :: names)) List.map_map

theorem declareGlobal_complete (hkind : token.kind = .word .globalWord)
    (f : Forest [.symbol (.item .name), .symbol (.itemsRest .name), .mark .semicolon])
    (hf : f.Fits bound c c') :
    declareGlobal token.span c =
      .ok ((ParseTree.node (s := .statement) .declareGlobal (.leaf token hkind f)).meaning, c') := by
  obtain ⟨first, f, c₁, rfl, hfirst, hf⟩ := hf.exists_sub
  obtain ⟨others, f, c₂, rfl, hothers, hf⟩ := hf.exists_sub
  obtain ⟨stop, hstopKind, f, c₃, rfl, hstop, hf⟩ := hf.exists_leaf
  obtain ⟨rfl, rfl⟩ := hf.eq_nil
  obtain ⟨chained, hchain, hvalue, hmeaning⟩ := itemChain_complete (parses_name "variable name")
    (TokenKind.description (.mark .comma)) hfirst hothers
  refine bind_eq_ok.mpr ⟨_, _, hchain, bind_eq_ok.mpr ⟨_, _,
    mark_eq_ok.mpr ⟨stop, ⟨hstopKind, rfl⟩, hstop⟩, pure_eq_ok.mpr ⟨?_, rfl⟩⟩⟩
  show _ = Stmt.declareGlobal _ (Prod.fst first.meaning :: List.map Prod.fst others.meaning)
  rw [← hvalue, ← hmeaning]
  exact congrArg (fun names => Stmt.declareGlobal _ (Prod.fst chained.first :: names))
    List.map_map.symm

end Words

/-! ### Assignments and calls -/

section Simple

variable {token : Token} {c c' : Cursor} {a : Stmt}

/-- An assigned value that was read is an expression in front of a semicolon. -/
theorem assigned_sound (hexpr : Parses .expression id bound expr) {r : Expr × Span}
    (hok : assigned expr c = .ok (r, c')) :
    ∃ (value : ParseTree .expression) (stop : Token) (c₁ : Cursor), value.Covers c c₁ ∧
      stop.kind = .mark .semicolon ∧ Takes [stop] c₁ c' ∧ r = (value.meaning, stop.span) :=
  closed_sound hexpr hok

theorem assigned_complete (hexpr : Parses .expression id bound expr) {value : ParseTree .expression}
    {stop : Token} {c₁ : Cursor} (hvalue : value.Fits bound c c₁)
    (hkind : stop.kind = .mark .semicolon) (hstop : Takes [stop] c₁ c') :
    assigned expr c = .ok ((value.meaning, stop.span), c') :=
  closed_complete Prod.mk hexpr hvalue hkind hstop

theorem formOf_eq_call {e : Expr} (h : formOf e = some .call) :
    ∃ span callee arguments, e = .call span callee arguments := by
  cases e with
  | call span callee arguments => exact ⟨span, callee, arguments, rfl⟩
  | _ => cases h

theorem formOf_eq_name {e : Expr} (h : formOf e = some .name) :
    ∃ span name, e = .name span name := by
  cases e with
  | name span name => exact ⟨span, name, rfl⟩
  | _ => cases h

theorem formOf_eq_lookup {e : Expr} (h : formOf e = some .lookup) :
    ∃ span container key, e = .lookup span container key := by
  cases e with
  | lookup span container key => exact ⟨span, container, key, rfl⟩
  | _ => cases h

/-- A derivation of an assignment, from those of its target and its value. -/
theorem covers_assignment {target : ParseTree .postfixed} {value : ParseTree .expression}
    {assign stop : Token} {c₁ c₂ c₃ : Cursor} (htarget : target.Covers c c₁)
    (hform : formOf target.meaning = some .name ∨ formOf target.meaning = some .lookup)
    (hassignKind : assign.kind = .mark .assign) (hassign : Takes [assign] c₁ c₂)
    (hvalue : value.Covers c₂ c₃) (hstopKind : stop.kind = .mark .semicolon)
    (hstop : Takes [stop] c₃ c') (hhead : c.rest.head? = some token) :
    ∃ t : ParseTree .statement, t.Covers c c' ∧
      t.meaning = simpleStmt (token.span.upTo stop.span) target.meaning (some value.meaning) := by
  have hagrees : target.form true = formOf target.meaning := target.agrees
  refine ⟨.node .simple (.sub target (.sub (.node .present (.leaf assign hassignKind
      (.sub value .nil))) (.leaf stop hstopKind .nil))),
    .node (by rw [← hagrees] at hform; exact hform) rfl (.sub htarget (.sub (.node trivial rfl
      (.leaf hassignKind hassign (.sub hvalue .nil))) (.leaf hstopKind hstop .nil))), ?_⟩
  rw [← htarget.firstSpan_eq rfl hhead]
  rfl

theorem refuseStatement_ne_ok {target : Expr} {next : Option Token} :
    refuseStatement target next c ≠ .ok (a, c') := by
  unfold refuseStatement
  cases next.bind (isMark .semicolon) with
  | some _ => exact nofun
  | none => exact refuse_ne_ok

/-- An assignment or a call that was read is derived, and its form is allowed. -/
theorem assignmentOrCall_sound (hexpr : Parses .expression id bound expr)
    (hblock : Parses .block id bound block) (hhead : c.rest.head? = some token)
    (hok : assignmentOrCall expr block token.span c = .ok (a, c')) :
    ∃ t : ParseTree .statement, t.Covers c c' ∧ t.meaning = a := by
  obtain ⟨e, c₁, htarget, hok⟩ := bind_eq_ok.mp hok
  obtain ⟨target, hcovers, hmeaning⟩ := (parses_postfixed hexpr hblock).sound htarget
  obtain ⟨next, c₂, hpeek, hok⟩ := bind_eq_ok.mp hok
  cases hpeek
  obtain ⟨accepted, c₂, haccept, hok⟩ := bind_eq_ok.mp hok
  cases accepted with
  | some _ =>
    obtain ⟨assign, hmark, hassign⟩ := accept_eq_some.mp haccept
    obtain ⟨hassignKind, -⟩ := isMark_eq_some.mp hmark
    cases e with
    | name span name =>
      obtain ⟨_, c₃, hassigned, hok⟩ := bind_eq_ok.mp hok
      obtain ⟨value, stop, c₄, hvalue, hstopKind, hstop, rfl⟩ := assigned_sound hexpr hassigned
      obtain ⟨rfl, rfl⟩ := pure_eq_ok.mp hok
      obtain ⟨t, ht, hstmt⟩ := covers_assignment hcovers (.inl (congrArg formOf hmeaning))
        hassignKind hassign hvalue hstopKind hstop hhead
      exact ⟨t, ht, hstmt.trans (congrArg (simpleStmt _ · _) hmeaning)⟩
    | lookup span container key =>
      obtain ⟨_, c₃, hassigned, hok⟩ := bind_eq_ok.mp hok
      obtain ⟨value, stop, c₄, hvalue, hstopKind, hstop, rfl⟩ := assigned_sound hexpr hassigned
      obtain ⟨rfl, rfl⟩ := pure_eq_ok.mp hok
      obtain ⟨t, ht, hstmt⟩ := covers_assignment hcovers (.inr (congrArg formOf hmeaning))
        hassignKind hassign hvalue hstopKind hstop hhead
      exact ⟨t, ht, hstmt.trans (congrArg (simpleStmt _ · _) hmeaning)⟩
    | _ => cases hok
  | none =>
    obtain ⟨hnone, rfl⟩ := accept_eq_none.mp haccept
    cases e with
    | call span callee arguments =>
      obtain ⟨_, c₃, hmark, hok⟩ := bind_eq_ok.mp hok
      obtain ⟨stop, ⟨hstopKind, rfl⟩, hstop⟩ := mark_eq_ok.mp hmark
      obtain ⟨rfl, rfl⟩ := pure_eq_ok.mp hok
      refine ⟨.node .simple (.sub target (.sub (.node .absent .nil) (.leaf stop hstopKind .nil))),
        .node (target.agrees.trans (congrArg formOf hmeaning)) rfl
          (.sub hcovers (.sub (.absent trivial fun token hhead =>
            isMark_eq_none_iff.mp (hnone token hhead)) (.leaf hstopKind hstop .nil))), ?_⟩
      rw [← hcovers.firstSpan_eq rfl hhead]
      exact congrArg (simpleStmt _ · none) hmeaning
    | _ => exact absurd hok refuseStatement_ne_ok

/-- The parser follows a derivation of an assignment or a call, which the form tells apart. -/
theorem assignmentOrCall_complete (hexpr : Parses .expression id bound expr)
    (hblock : Parses .block id bound block) (hhead : c.rest.head? = some token)
    (f : Forest [.symbol .postfixed, .symbol .assigned, .mark .semicolon])
    (hallowed : Allowed true .statement .simple f) (hf : f.Fits (bound + 1) c c') :
    assignmentOrCall expr block token.span c =
      .ok ((ParseTree.node (s := .statement) .simple f).meaning, c') := by
  obtain ⟨target, f, c₁, rfl, htarget, hf⟩ := hf.exists_sub
  obtain ⟨value, f, c₂, rfl, hvalue, hf⟩ := hf.exists_sub
  obtain ⟨stop, hstopKind, f, c₃, rfl, hstop, hf⟩ := hf.exists_leaf
  obtain ⟨rfl, rfl⟩ := hf.eq_nil
  obtain ⟨e, hmeaning⟩ : ∃ e : Expr, target.meaning = e := ⟨_, rfl⟩
  have hagrees : target.form true = formOf e := target.agrees.trans (congrArg formOf hmeaning)
  have hok : postfixed expr block c = .ok (e, c₁) := by
    rw [← hmeaning]
    exact (parses_postfixed hexpr hblock).complete target htarget
  -- The meaning of the statement, from what has been parsed.
  have hstmt : ∀ value : Option Expr,
      simpleStmt ((firstSpan target.yield).upTo stop.span) target.meaning value =
        simpleStmt (token.span.upTo stop.span) e value := by
    intro value
    rw [htarget.firstSpan_eq rfl hhead, hmeaning]
  obtain ⟨_, p, g, rfl, -, hg⟩ := hvalue.exists_node
  cases p with
  | absent =>
    obtain ⟨rfl, rfl⟩ := hg.eq_nil
    obtain ⟨span, callee, arguments, rfl⟩ := formOf_eq_call (hagrees.symm.trans hallowed)
    have hnone : ∀ token ∈ c₁.rest.head?, isMark .assign token = none := by
      intro token hhead
      rw [hstop.head?] at hhead
      cases hhead
      exact isMark_eq_none.mpr fun hassign => nomatch hstopKind.symm.trans hassign
    exact bind_eq_ok.mpr ⟨_, _, hok, bind_eq_ok.mpr ⟨_, _, rfl,
      bind_eq_ok.mpr ⟨none, _, accept_eq_none.mpr ⟨hnone, rfl⟩, bind_eq_ok.mpr ⟨_, _,
        mark_eq_ok.mpr ⟨stop, ⟨hstopKind, rfl⟩, hstop⟩, pure_eq_ok.mpr ⟨(hstmt none).symm, rfl⟩⟩⟩⟩⟩
  | present =>
    obtain ⟨assign, hassignKind, g, c₄, rfl, hassign, hg⟩ := hg.exists_leaf
    obtain ⟨behind, g, c₅, rfl, hbehind, hg⟩ := hg.exists_sub
    obtain ⟨rfl, rfl⟩ := hg.eq_nil
    have hassigned := assigned_complete hexpr hbehind hstopKind hstop
    have haccept := accept_eq_some.mpr ⟨assign, isMark_eq_some.mpr ⟨hassignKind, rfl⟩, hassign⟩
    have hforms : target.form true = some .name ∨ target.form true = some .lookup := hallowed
    rw [hagrees] at hforms
    rcases hforms with hform | hform
    · obtain ⟨span, name, rfl⟩ := formOf_eq_name hform
      exact bind_eq_ok.mpr ⟨_, _, hok, bind_eq_ok.mpr ⟨_, _, rfl, bind_eq_ok.mpr ⟨_, _, haccept,
        bind_eq_ok.mpr ⟨_, _, hassigned,
          pure_eq_ok.mpr ⟨(hstmt (some behind.meaning)).symm, rfl⟩⟩⟩⟩⟩
    · obtain ⟨span, container, key, rfl⟩ := formOf_eq_lookup hform
      exact bind_eq_ok.mpr ⟨_, _, hok, bind_eq_ok.mpr ⟨_, _, rfl, bind_eq_ok.mpr ⟨_, _, haccept,
        bind_eq_ok.mpr ⟨_, _, hassigned,
          pure_eq_ok.mpr ⟨(hstmt (some behind.meaning)).symm, rfl⟩⟩⟩⟩⟩

end Simple

/-! ### Statements and blocks -/

/-- A statement with a reserved word starts with one of a few. -/
theorem statementWord_eq_some {token : Token} {w : Word} {span : Span} :
    statementWord token = some (w, span) ↔
      w ∈ statementWords ∧ token.kind = .word w ∧ token.span = span := by
  unfold statementWord Token.kind
  cases token.content with
  | word word =>
    by_cases hmem : word ∈ statementWords
    · simp [hmem, TokenContent.kind]
      rintro rfl -
      exact hmem
    · simp [hmem, TokenContent.kind]
      rintro hw rfl
      exact absurd hw hmem
  | _ => simp [TokenContent.kind]

/-- No reserved word of a statement starts an expression. -/
theorem statementWord_eq_none {token : Token} (h : startsPrimary token.kind = true) :
    statementWord token = none := by
  have hwords : ∀ w ∈ statementWords, startsPrimary (.word w) = false := by decide
  cases hword : statementWord token with
  | none => rfl
  | some r =>
    obtain ⟨w, span⟩ := r
    obtain ⟨hmem, hkind, -⟩ := statementWord_eq_some.mp hword
    rw [hkind, hwords w hmem] at h
    cases h

/-- A statement. -/
theorem parses_statement (hexpr : Parses .expression id bound expr)
    (hblock : Parses .block id bound block) :
    Parses .statement id (bound + 1) (statement expr block) where
  sound := by
    intro c c' a hok
    obtain ⟨word, c₁, haccept, hok⟩ := bind_eq_ok.mp hok
    cases word with
    | none =>
      obtain ⟨-, rfl⟩ := accept_eq_none.mp haccept
      obtain ⟨next, c₂, hpeek, hok⟩ := bind_eq_ok.mp hok
      cases next with
      | none => exact absurd hok refuse_ne_ok
      | some token =>
        have hhead : c.rest.head? = some token := congrArg Prod.fst (Except.ok.inj hpeek)
        have hsame : c = c₂ := congrArg Prod.snd (Except.ok.inj hpeek)
        subst hsame
        exact assignmentOrCall_sound hexpr hblock hhead hok
    | some r =>
      obtain ⟨token, hword, htoken⟩ := accept_eq_some.mp haccept
      obtain ⟨w, span⟩ := r
      obtain ⟨hmem, hkind, rfl⟩ := statementWord_eq_some.mp hword
      cases w with
      | returnWord => exact ret_sound hexpr hkind htoken hok
      | ifWord => exact branch_sound hexpr hblock hkind htoken hok
      | whileWord => exact loop_sound hexpr hblock hkind htoken hok
      | foreachWord => exact each_sound hexpr hblock hkind htoken hok
      | globalWord => exact declareGlobal_sound hkind htoken hok
      | _ => exact absurd hmem (by decide)
  complete := by
    intro c c' t ht
    have haccept : ∀ {w : Word} {token : Token} {c₁ : Cursor}, token.kind = .word w →
        w ∈ statementWords → Takes [token] c c₁ →
        accept? statementWord c = .ok (some (w, token.span), c₁) := fun hkind hmem htoken =>
      accept_eq_some.mpr ⟨_, statementWord_eq_some.mpr ⟨hmem, hkind, rfl⟩, htoken⟩
    obtain ⟨_, p, f, rfl, hallowed, hf⟩ := ht.exists_node
    cases p with
    | ret =>
      obtain ⟨token, hkind, f, c₁, rfl, htoken, hf⟩ := hf.exists_leaf
      exact bind_eq_ok.mpr ⟨_, _, haccept hkind (by decide) htoken, ret_complete hexpr hkind f hf⟩
    | branch =>
      obtain ⟨inner, f, c₁, rfl, hinner, hf⟩ := hf.exists_sub
      obtain ⟨rfl, rfl⟩ := hf.eq_nil
      obtain ⟨_, p, g, rfl, -, hg⟩ := hinner.exists_node
      cases p with
      | only =>
        obtain ⟨token, hkind, g, c₂, rfl, htoken, hg⟩ := hg.exists_leaf
        exact bind_eq_ok.mpr ⟨_, _, haccept hkind (by decide) htoken,
          branch_complete hexpr hblock hkind g hg⟩
    | loop =>
      obtain ⟨token, hkind, f, c₁, rfl, htoken, hf⟩ := hf.exists_leaf
      exact bind_eq_ok.mpr ⟨_, _, haccept hkind (by decide) htoken,
        loop_complete hexpr hblock hkind f hf⟩
    | each =>
      obtain ⟨token, hkind, f, c₁, rfl, htoken, hf⟩ := hf.exists_leaf
      exact bind_eq_ok.mpr ⟨_, _, haccept hkind (by decide) htoken,
        each_complete hexpr hblock hkind f hf⟩
    | declareGlobal =>
      obtain ⟨token, hkind, f, c₁, rfl, htoken, hf⟩ := hf.exists_leaf
      exact bind_eq_ok.mpr ⟨_, _, haccept hkind (by decide) htoken,
        declareGlobal_complete hkind f hf⟩
    | simple =>
      obtain ⟨target, g, c₁, rfl, htarget, -⟩ := hf.exists_sub
      obtain ⟨token, hhead, -⟩ := htarget.head rfl
      have hnone := htarget.head_eq_none rfl fun token => statementWord_eq_none
      refine bind_eq_ok.mpr ⟨none, c, accept_eq_none.mpr ⟨hnone, rfl⟩, ?_⟩
      refine bind_eq_ok.mpr ⟨some token, c, by rw [← hhead]; rfl, ?_⟩
      exact assignmentOrCall_complete hexpr hblock hhead _ hallowed hf

section Rows

variable {starts : Token → Option Unit} {p : Parser Stmt}

theorem consumes_statement (h : Parses .statement id bound p) : Consumes starts fun _ => p := by
  intro _ c a c' _ hok
  obtain ⟨t, ht, -⟩ := h.sound hok
  exact ht.length_lt rfl

/-- Statements in a row that were read are derived. -/
theorem covers_of_statementRuns (h : Parses .statement id bound p)
    (hstarts : ∀ token : Token, startsStatement token.kind = true → starts token = some ())
    {c c' : Cursor} {ss : List Stmt} (hruns : Runs starts (fun _ => p) c ss c') :
    ∃ t : ParseTree .statements, t.Covers c c' ∧ t.meaning = ss := by
  induction hruns with
  | stop hstop =>
    refine ⟨.node .absent .nil, .absent trivial fun token htoken => ?_, rfl⟩
    refine Bool.eq_false_iff.mpr fun hstart => ?_
    cases (hstarts token hstart).symm.trans (head_bind_eq_none.mp hstop token htoken)
  | step _ hok _ ih =>
    obtain ⟨first, hfirst, rfl⟩ := h.sound hok
    obtain ⟨others, hothers, rfl⟩ := ih
    exact ⟨.node .present (.sub first (.sub others .nil)),
      .node trivial rfl (.sub hfirst (.sub hothers .nil)), rfl⟩

/-- Statements in a row, up to where none starts. -/
theorem statementRuns_of_fits (h : Parses .statement id bound p) {c c' : Cursor}
    (hstarts : ∀ token : Token, startsStatement token.kind = true → starts token = some ())
    (hstop : c'.rest.head?.bind starts = none) (t : ParseTree .statements) (ht : t.Fits bound c c') :
    Runs starts (fun _ => p) c t.meaning c' := by
  obtain ⟨_, p, f, rfl, -, hf⟩ := ht.exists_node
  cases p with
  | absent =>
    obtain ⟨rfl, rfl⟩ := hf.eq_nil
    exact .stop hstop
  | present =>
    obtain ⟨first, f, c₁, rfl, hfirst, hf⟩ := hf.exists_sub
    obtain ⟨others, f, c₂, rfl, hothers, hf⟩ := hf.exists_sub
    obtain ⟨rfl, rfl⟩ := hf.eq_nil
    obtain ⟨token, hhead, htoken⟩ := hfirst.head rfl
    have hlength := hfirst.toCovers.length_lt rfl
    refine .step (by rw [hhead]; exact hstarts token htoken) (h.complete first hfirst) ?_
    exact statementRuns_of_fits h hstarts hstop others hothers
termination_by c.rest.length

/-- Statements that any token starts go on to the end. -/
theorem rest_eq_nil_of_runs {c c' : Cursor} {ss : List Stmt}
    (hruns : Runs (fun _ => some ()) (fun _ => p) c ss c') : c'.rest = [] := by
  induction hruns with
  | @stop c hstop =>
    cases hrest : c.rest with
    | nil => rfl
    | cons token rest =>
      rw [hrest] at hstop
      cases hstop
  | step _ _ _ ih => exact ih

end Rows

theorem rbrace_starts_no_statement (token : Token) (h : startsStatement token.kind = true) :
    (if token.content = .mark .rbrace then none else some ()) = some () := by
  refine if_neg fun hcontent => ?_
  rw [Token.kind, hcontent] at h
  cases h

/-- Statements between braces. -/
theorem parses_braced {p : Parser Stmt} (h : Parses .statement id bound p) :
    Parses .block id bound (braced p) where
  sound := by
    intro c c' b hok
    obtain ⟨_, c₁, hopen, hok⟩ := bind_eq_ok.mp hok
    obtain ⟨start, ⟨hstartKind, rfl⟩, hstart⟩ := mark_eq_ok.mp hopen
    obtain ⟨_, c₂, hmany, hok⟩ := bind_eq_ok.mp hok
    obtain ⟨t, ht, rfl⟩ := covers_of_statementRuns h rbrace_starts_no_statement
      ((many_eq_ok (consumes_statement h)).mp hmany)
    obtain ⟨_, c₃, hclose, hok⟩ := bind_eq_ok.mp hok
    obtain ⟨stop, ⟨hstopKind, rfl⟩, hstop⟩ := mark_eq_ok.mp hclose
    obtain ⟨rfl, rfl⟩ := pure_eq_ok.mp hok
    exact ⟨.node .only (.leaf start hstartKind (.sub t (.leaf stop hstopKind .nil))),
      .node trivial rfl (.leaf hstartKind hstart (.sub ht (.leaf hstopKind hstop .nil))), rfl⟩
  complete := by
    intro c c' t ht
    obtain ⟨_, p, f, rfl, -, hf⟩ := ht.exists_node
    cases p with
    | only =>
      obtain ⟨start, hstartKind, f, c₁, rfl, hstart, hf⟩ := hf.exists_leaf
      obtain ⟨body, f, c₂, rfl, hbody, hf⟩ := hf.exists_sub
      obtain ⟨stop, hstopKind, f, c₃, rfl, hstop, hf⟩ := hf.exists_leaf
      obtain ⟨rfl, rfl⟩ := hf.eq_nil
      have hruns := statementRuns_of_fits h rbrace_starts_no_statement
        (by rw [hstop.head?]; exact if_pos (content_of_kind hstopKind)) body
        (hbody.mono (Nat.sub_le _ _))
      exact bind_eq_ok.mpr ⟨_, _, mark_eq_ok.mpr ⟨start, ⟨hstartKind, rfl⟩, hstart⟩,
        bind_eq_ok.mpr ⟨_, _, (many_eq_ok (consumes_statement h)).mpr hruns,
          bind_eq_ok.mpr ⟨_, _, mark_eq_ok.mpr ⟨stop, ⟨hstopKind, rfl⟩, hstop⟩, rfl⟩⟩⟩

/-- Expressions and blocks, by induction on the bound on nesting. Without tokens there is neither.
-/
theorem parses_nested : ∀ depth : Nat,
    Parses .expression id depth (expression depth) ∧ Parses .block id depth (Grammar.block depth)
  | 0 => by
    have hnothing : ∀ {s : Symbol} {t : ParseTree s} {c c' : Cursor}, s.isOptional = false →
        ¬ t.Fits 0 c c' := by
      intro s t c c' hs ht
      have hlength := ht.toCovers.length_lt hs
      have hsmall := ht.small
      omega
    exact ⟨⟨fun hok => absurd hok refuse_ne_ok, fun _ ht => absurd ht (hnothing rfl)⟩,
      fun hok => absurd hok refuse_ne_ok, fun _ ht => absurd ht (hnothing rfl)⟩
  | depth + 1 => by
    obtain ⟨hexpr, hblock⟩ := parses_nested depth
    have hoperators := parses_operators (parses_postfixed hexpr hblock)
    have hbraced := parses_braced (parses_statement hexpr hblock)
    exact ⟨⟨hoperators.sound, hoperators.complete⟩, hbraced.sound, hbraced.complete⟩

/-- The statements of a text, up to its end. -/
theorem statements_eq_ok {tokens : List Token} {last : Position} {ss : List Stmt} {c' : Cursor} :
    statements ⟨last, tokens⟩ = .ok (ss, c') ↔
      c' = ⟨endOf last tokens, []⟩ ∧
        ∃ t : ParseTree .statements, t.yield = tokens ∧ t.Admissible true ∧ t.meaning = ss := by
  obtain ⟨hexpr, hblock⟩ := parses_nested tokens.length
  have h := parses_statement hexpr hblock
  have hmany : statements ⟨last, tokens⟩ = .ok (ss, c') ↔ Runs (fun _ => some ())
      (fun _ => statement (expression tokens.length) (Grammar.block tokens.length)) ⟨last, tokens⟩
        ss c' :=
    many_eq_ok (consumes_statement h)
  rw [hmany]
  constructor
  · intro hruns
    obtain ⟨t, ht, hmeaning⟩ := covers_of_statementRuns h (fun _ _ => rfl) hruns
    obtain ⟨last', rest'⟩ := c'
    -- Every token starts a round of the loop, so it only stops where no token is left.
    obtain rfl : rest' = [] := rest_eq_nil_of_runs hruns
    have hyield : t.yield = tokens := by simpa using ht.takes.rest.symm
    refine ⟨?_, t, hyield, ht.admissible, hmeaning⟩
    rw [← hyield, ← ht.takes.last]
  · rintro ⟨rfl, t, rfl, hadmissible, rfl⟩
    have htakes : Takes t.yield ⟨last, t.yield⟩ ⟨endOf last t.yield, []⟩ :=
      ⟨(List.append_nil _).symm, rfl⟩
    -- A derivation of the whole text is greedy for the lack of anything behind it.
    exact statementRuns_of_fits h (fun _ _ => rfl) rfl t
      ⟨⟨hadmissible, t.greedy_of_ends (ends_nil _), htakes⟩, Nat.le_succ _⟩

end Grammar

/-! ### The parser -/

/-- A program spans its statements. -/
theorem Program.spanOf_eq (stop : Span) (ss : List Stmt) :
    (⟨Program.spanOf stop ss, ss⟩ : Program) = programOf stop ss := by
  cases ss with
  | nil => rfl
  | cons first others =>
    simp [Program.spanOf, programOf, Option.getD_map, List.getLastD_eq_getLast?]

/-- The program of admissible tokens is what their derivation says. -/
theorem Program.ofTokens_eq_ok {tokens : List Token} {stop : Span} {program : Program} :
    Program.ofTokens tokens stop = .ok program ↔
      ∃ t : ParseTree .statements, t.yield = tokens ∧ t.Admissible true ∧
        program = programOf stop t.meaning := by
  have hof : Program.ofTokens tokens stop = .ok program ↔
      ∃ ss c', Grammar.statements ⟨stop.start, tokens⟩ = .ok (ss, c') ∧
        program = programOf stop ss := by
    unfold Program.ofTokens
    cases Grammar.statements ⟨stop.start, tokens⟩ with
    | error refusal => simp
    | ok pair =>
      obtain ⟨ss, c'⟩ := pair
      simp [eq_comm, Program.spanOf_eq]
  rw [hof]
  constructor
  · rintro ⟨ss, c', hok, rfl⟩
    obtain ⟨-, t, hyield, hadmissible, rfl⟩ := Grammar.statements_eq_ok.mp hok
    exact ⟨t, hyield, hadmissible, rfl⟩
  · rintro ⟨t, hyield, hadmissible, rfl⟩
    exact ⟨t.meaning, _, Grammar.statements_eq_ok.mpr ⟨rfl, t, hyield, hadmissible, rfl⟩, rfl⟩

/-- Two derivations of the same tokens are the same. -/
theorem Derivations.ParseTree.eq_of_yield {s : Symbol} {t u : ParseTree s}
    (h : t.yield = u.yield) : t = u :=
  (t.unique u (congrArg (· ++ []) h) (ends_nil _) (ends_nil _)).1

/-- **The parser accepts exactly its grammar.** Tokens have at most one derivation. The parser gives
a program just when they have one that is admissible, and the program is then what it says. -/
theorem parses_exactly_the_grammar (tokens : List Token) (stop : Span) :
    Subsingleton { t : ParseTree .statements // t.yield = tokens } ∧
      ∀ program : Program, Program.ofTokens tokens stop = .ok program ↔
        ∃ t : ParseTree .statements, t.yield = tokens ∧ t.Admissible true ∧
          program = programOf stop t.meaning := by
  refine ⟨⟨?_⟩, fun _ => Program.ofTokens_eq_ok⟩
  rintro ⟨t, ht⟩ ⟨u, hu⟩
  obtain rfl := ParseTree.eq_of_yield (ht.trans hu.symm)
  rfl

/-! ### A plus sign in front of what is assigned to -/

/-- A token on the first line. -/
def tokenAt (offset : Nat) (content : TokenContent) (lexeme : String) : Token :=
  ⟨content, lexeme, ⟨none, ⟨1, offset + 1, offset⟩,
    ⟨1, offset + lexeme.length + 1, offset + lexeme.length⟩⟩⟩

/-- The derivation of `(+a) = 1;`. -/
def plusTarget : ParseTree .statements :=
  let number : ParseTree .primary := .node (.literal .number (by decide))
    (.leaf (tokenAt 7 (.number ⟨false, 1, 0⟩) "1") rfl .nil)
  let value : ParseTree .signed := .node .plain (.sub number.postfixedAlone .nil)
  let name : ParseTree .primary := .node (.literal .name (by decide))
    (.leaf (tokenAt 2 (.name "a") "a") rfl .nil)
  let positive : ParseTree .signed := .node .positive
    (.leaf (tokenAt 1 (.mark .plus) "+") rfl (.sub name.postfixedAlone .nil))
  let whole (t : ParseTree .signed) : ParseTree .expression :=
    ParseTree.expressionAlone (.node .plain (.sub t.sumAlone.relationAlone .nil))
  let target : ParseTree .primary := .node .group (.leaf (tokenAt 0 (.mark .lparen) "(") rfl
    (.sub (whole positive) (.leaf (tokenAt 3 (.mark .rparen) ")") rfl .nil)))
  let assigned : ParseTree .assigned := .node .present
    (.leaf (tokenAt 5 (.mark .assign) "=") rfl (.sub (whole value) .nil))
  let assignment : ParseTree .statement := .node .simple (.sub target.postfixedAlone (.sub assigned
    (.leaf (tokenAt 8 (.mark .semicolon) ";") rfl .nil)))
  .node .present (.sub assignment (.sub (.node .absent .nil) .nil))

/-- The parser accepts `(+a) = 1;`, though its only derivation assigns to something that is neither
a name nor a lookup when only parentheses are dropped. -/
theorem plus_is_dropped_from_target :
    (∃ program, Program.ofTokens plusTarget.yield ⟨none, ⟨1, 10, 9⟩, ⟨1, 10, 9⟩⟩ = .ok program) ∧
      ¬ ∃ t : ParseTree .statements, t.yield = plusTarget.yield ∧ t.Admissible false := by
  constructor
  · exact ⟨_, rfl⟩
  · rintro ⟨t, hyield, hadmissible⟩
    obtain rfl := ParseTree.eq_of_yield hyield
    have hforms : none = some Form.name ∨ none = some Form.lookup := hadmissible.2.1.1
    simp at hforms

end DecimalScript
