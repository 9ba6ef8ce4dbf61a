import DecimalScript.Proofs.Derivation

/-!
# One token of lookahead

For every symbol: which kinds of tokens can start it, whether it can be empty, and which kinds can
go on at its end. The tables are checked against each production once. From them follows that the
next token settles which production applies, that a part ends where a token comes that cannot go on,
and so that a text has at most one derivation.

What a parser with one token of lookahead finds is greedy: it leaves nothing out that the next token
could start. Two greedy derivations of one beginning are equal, and a derivation that ends where no
token can go on is greedy.

- `Symbol.starts`, `Symbol.isOptional`, `Symbol.continues`: the tables.
- `Production.starts_le`, `Production.chains`, `Production.eq_of_starts`: the checks.
- `ParseTree.Greedy`, `ParseTree.eq_of_greedy`, `ParseTree.greedy_of_ends`: greedy derivations.
- `ParseTree.unique`: derivations of texts with one beginning are equal, and so is what follows.

The productions are a finite table over the symbols, with the operators of a level and the kinds of
literals as parameters. So the checks go by cases on the symbol and on one or two of its
productions; what is left in each case is decided by evaluation for all kinds of tokens at once.
-/

namespace DecimalScript

/-- The kinds are listed in full, so what is checked of the list holds of every kind. -/
theorem TokenKind.mem_all (kind : TokenKind) : kind ∈ all := by
  rcases kind with _ | _ | _ | w | m | _
  · decide
  · decide
  · decide
  · cases w <;> decide
  · cases m <;> decide
  · decide

instance {p : TokenKind → Prop} [DecidablePred p] : Decidable (∀ kind, p kind) :=
  decidable_of_iff (∀ kind ∈ TokenKind.all, p kind)
    ⟨fun h kind => h kind (TokenKind.mem_all kind), fun h kind _ => h kind⟩

namespace Derivations

/-! ### The tables -/

/-- A kind of token that can start a primary expression. -/
def startsPrimary (kind : TokenKind) : Bool :=
  literalKinds.contains kind || kind == .mark .lparen || kind == .mark .lbracket ||
    kind == .mark .lbrace || kind == .word .functionWord

/-- A kind of token that can start an expression with a sign. -/
def startsSigned (kind : TokenKind) : Bool :=
  kind == .mark .minus || kind == .mark .plus || startsPrimary kind

/-- A kind of token that can start an expression. -/
def startsExpression (kind : TokenKind) : Bool :=
  kind == .mark .not || startsSigned kind

/-- A kind of token that can start a suffix. -/
def startsSuffix (kind : TokenKind) : Bool :=
  kind == .mark .lparen || kind == .mark .lbracket

/-- A kind of token that is an operator of a list. -/
def startsOperator (ops : List BinaryOp) (kind : TokenKind) : Bool :=
  ops.any fun op => kind == .mark (spelling op)

/-- The reserved words that start statements. -/
def leadingWords : List Word := [.returnWord, .ifWord, .whileWord, .foreachWord, .globalWord]

/-- A kind of token that can start a statement. -/
def startsStatement (kind : TokenKind) : Bool :=
  (leadingWords.map TokenKind.word).contains kind || startsPrimary kind

/-- A kind of token that can start an item. -/
def ItemKind.starts (kind : TokenKind) : ItemKind → Bool
  | expression | entry => startsExpression kind
  | parameter | name => kind == .name

/-- The kinds of tokens that can start a symbol. -/
def Symbol.starts (kind : TokenKind) : Symbol → Bool
  | statements | statement => startsStatement kind
  | block => kind == .mark .lbrace
  | conditional => kind == .word .ifWord
  | otherwise => kind == .word .elseWord
  | alternative => kind == .word .ifWord || kind == .mark .lbrace
  | assigned | default => kind == .mark .assign
  | secondName => kind == .mark .colon
  | right _ | negation => startsExpression kind
  | rightRest l => kind == .mark (spelling l.op)
  | relation | left _ | signed => startsSigned kind
  | relationRest => startsOperator relationOps kind
  | leftRest l => startsOperator l.ops kind
  | postfixed | primary => startsPrimary kind
  | suffixes => startsSuffix kind
  | item k | items k => k.starts kind
  | itemsRest _ => kind == .mark .comma

/-- Whether a symbol can be empty. -/
def Symbol.isOptional : Symbol → Bool
  | statements | otherwise | assigned | default | secondName | rightRest _ | relationRest
  | leftRest _ | suffixes | items _ | itemsRest _ => true
  | _ => false

/-- A kind of token that can go on at the end of a power. -/
def continuesPower (kind : TokenKind) : Bool :=
  startsOperator LeftLevel.power.ops kind || startsSuffix kind

/-- A kind of token that can go on at the end of a product. -/
def continuesProduct (kind : TokenKind) : Bool :=
  startsOperator LeftLevel.product.ops kind || continuesPower kind

/-- A kind of token that can go on at the end of a sum. -/
def continuesSum (kind : TokenKind) : Bool :=
  startsOperator LeftLevel.sum.ops kind || continuesProduct kind

/-- A kind of token that can go on at the end of a relation. -/
def continuesRelation (kind : TokenKind) : Bool :=
  startsOperator relationOps kind || continuesSum kind

/-- A kind of token that can go on at the end of a conjunction. -/
def continuesAnd (kind : TokenKind) : Bool :=
  kind == .mark .and || continuesRelation kind

/-- A kind of token that can go on at the end of a disjunction. -/
def continuesOr (kind : TokenKind) : Bool :=
  kind == .mark .or || continuesAnd kind

/-- A kind of token that can go on at the end of an expression. -/
def continuesExpression (kind : TokenKind) : Bool :=
  kind == .mark .tilde || continuesOr kind

/-- The kinds of tokens that can go on at the end of a level. -/
def LeftLevel.continues (kind : TokenKind) : LeftLevel → Bool
  | sum => continuesSum kind
  | product => continuesProduct kind
  | power => continuesPower kind

/-- The kinds of tokens that can go on at the end of a level. -/
def RightLevel.continues (kind : TokenKind) : RightLevel → Bool
  | concat => continuesExpression kind
  | or => continuesOr kind
  | and => continuesAnd kind

/-- A kind of token that can go on at the end of an item. -/
def ItemKind.continues (kind : TokenKind) : ItemKind → Bool
  | expression | entry => continuesExpression kind
  | parameter => kind == .mark .assign || continuesExpression kind
  | name => false

/-- The kinds of tokens that can go on at the end of a symbol. -/
def Symbol.continues (kind : TokenKind) : Symbol → Bool
  | statements => startsStatement kind || kind == .word .elseWord
  | block | primary => false
  | statement | conditional | otherwise | alternative => kind == .word .elseWord
  | assigned | default => kind == .mark .assign || continuesExpression kind
  | secondName => kind == .mark .colon
  | right l | rightRest l => l.continues kind
  | negation | relation | relationRest => continuesRelation kind
  | left l | leftRest l => l.continues kind
  | signed | postfixed | suffixes => startsSuffix kind
  | item k => k.continues kind
  | items k => k.starts kind || kind == .mark .comma || k.continues kind
  | itemsRest k => kind == .mark .comma || k.continues kind

/-- The kinds of tokens that can start the parts of a production. -/
def startsParts (kind : TokenKind) : List Part → Bool
  | [] => false
  | .token k :: _ => kind == k
  | .symbol s :: parts => s.starts kind || (s.isOptional && startsParts kind parts)

/-- Whether all parts of a production can be empty. -/
def areOptional : List Part → Bool
  | [] => true
  | .token _ :: _ => false
  | .symbol s :: parts => s.isOptional && areOptional parts

/-- Each part of a production of `s` ends where the next one starts: what starts the parts behind it
cannot go on at its end, and if they are all empty then what can go on at its end can go on at the
end of `s`. -/
def Chains (s : Symbol) : List Part → Prop
  | [] => True
  | .token _ :: parts => Chains s parts
  | .symbol x :: parts =>
    (∀ kind, startsParts kind parts = true → x.continues kind = false) ∧
      (areOptional parts = true → ∀ kind, x.continues kind = true → s.continues kind = true) ∧
      Chains s parts

instance decidableChains (s : Symbol) : (parts : List Part) → Decidable (Chains s parts)
  | [] => inferInstanceAs (Decidable True)
  | .token _ :: parts => decidableChains s parts
  | .symbol x :: parts =>
    have : Decidable (Chains s parts) := decidableChains s parts
    inferInstanceAs (Decidable
      ((∀ kind, startsParts kind parts = true → x.continues kind = false) ∧
        (areOptional parts = true → ∀ kind, x.continues kind = true → s.continues kind = true) ∧
        Chains s parts))

/-! ### The checks -/

/-- What starts a symbol that can be empty can go on at its end. -/
theorem Symbol.continues_of_starts {s : Symbol} {kind : TokenKind} (hs : s.isOptional = true)
    (h : s.starts kind = true) : s.continues kind = true := by
  cases s with
  | rightRest l | leftRest l => cases l <;> revert kind <;> decide
  | items k | itemsRest k => cases k <;> revert kind <;> decide
  | statements | otherwise | assigned | secondName | relationRest | suffixes | default =>
    revert kind
    decide
  | _ => cases hs

namespace Production

variable {s : Symbol} {parts parts' : List Part} {kind : TokenKind}

/-- What starts the parts of a production starts its symbol. -/
theorem starts_le (p : Production s parts) (h : startsParts kind parts = true) :
    s.starts kind = true := by
  cases s with
  | right l | left l | rightRest l => cases l <;> cases p <;> revert kind <;> decide
  | item k | items k | itemsRest k => cases k <;> cases p <;> revert kind <;> decide
  | leftRest l => cases l <;> cases p <;> revert kind <;> decide +revert
  | relationRest | primary => cases p <;> revert kind <;> decide +revert
  | _ => cases p <;> revert kind <;> decide

theorem isOptional_of_areOptional (p : Production s parts) (h : areOptional parts = true) :
    s.isOptional = true := by
  cases s with
  | right l | left l => cases l <;> cases p <;> cases h
  | item k => cases k <;> cases p <;> cases h
  | _ => cases p <;> first | rfl | cases h

/-- In every production each part ends where the next one starts. -/
theorem chains (p : Production s parts) : Chains s parts := by
  cases s with
  | right l | left l | rightRest l => cases l <;> cases p <;> decide
  | item k | items k | itemsRest k => cases k <;> cases p <;> decide
  | leftRest l => cases l <;> cases p <;> decide +revert
  | relationRest | primary => cases p <;> decide +revert
  | _ => cases p <;> decide

/-- Two productions of a symbol that start with one kind of token are the same. -/
theorem eq_of_starts (p : Production s parts) (q : Production s parts')
    (h : startsParts kind parts = true) (h' : startsParts kind parts' = true) :
    (⟨parts, p⟩ : (parts : List Part) × Production s parts) = ⟨parts', q⟩ := by
  -- The rests and the primary expressions take a set of operators or of literals through one
  -- production, so for these it is the parameter that has to be equal; all other productions start
  -- with different tokens.
  cases s with
  | leftRest l =>
    cases p with
    | absent => cases h
    | present op hop =>
      cases q with
      | absent => cases h'
      | present op' hop' =>
        have hops : ∀ op ∈ l.ops, ∀ op' ∈ l.ops,
            TokenKind.mark (spelling op) = .mark (spelling op') → op = op' := by cases l <;> decide
        obtain rfl := hops op hop op' hop' ((eq_of_beq h).symm.trans (eq_of_beq h'))
        rfl
  | relationRest =>
    cases p with
    | absent => cases h
    | present op hop =>
      cases q with
      | absent => cases h'
      | present op' hop' =>
        have hops : ∀ op ∈ relationOps, ∀ op' ∈ relationOps,
            TokenKind.mark (spelling op) = .mark (spelling op') → op = op' := by decide
        obtain rfl := hops op hop op' hop' ((eq_of_beq h).symm.trans (eq_of_beq h'))
        rfl
  | primary =>
    cases p with
    | literal k hk =>
      cases q with
      | literal k' hk' =>
        obtain rfl := (eq_of_beq h).symm.trans (eq_of_beq h')
        rfl
      | _ => exfalso; revert kind; decide +revert
    | _ => cases q <;> first | rfl | (exfalso; revert kind; decide +revert)
  | _ =>
    cases p <;> cases q <;> first
      | rfl
      | exact absurd h Bool.false_ne_true
      | exact absurd h' Bool.false_ne_true
      | (exfalso; revert kind; decide)

/-- Two productions of a symbol whose parts can all be empty are the same. -/
theorem eq_of_areOptional (p : Production s parts) (q : Production s parts')
    (h : areOptional parts = true) (h' : areOptional parts' = true) :
    (⟨parts, p⟩ : (parts : List Part) × Production s parts) = ⟨parts', q⟩ := by
  cases s <;> cases p <;> cases q <;> first
    | rfl
    | exact absurd h Bool.false_ne_true
    | exact absurd h' Bool.false_ne_true

end Production

/-! ### What starts and what ends a derivation -/

mutual

/-- The first token of a derivation is one that can start its symbol. -/
theorem ParseTree.starts_of_yield :
    ∀ {s : Symbol} (t : ParseTree s) {token : Token} {tokens : List Token},
      t.yield = token :: tokens → s.starts token.kind = true
  | _, .node p f, _, _, h => p.starts_le (f.starts_of_yield h)

theorem Forest.starts_of_yield :
    ∀ {parts : List Part} (f : Forest parts) {token : Token} {tokens : List Token},
      f.yield = token :: tokens → startsParts token.kind parts = true
  | _, .nil, _, _, h => by cases h
  | _, .leaf token hkind f, _, _, h => by
    cases h
    exact beq_iff_eq.mpr hkind
  | _, .sub t f, token, tokens, h => by
    unfold startsParts
    cases hyield : t.yield with
    | nil =>
      rw [Forest.yield, hyield] at h
      simp [t.isOptional_of_yield hyield, f.starts_of_yield h]
    | cons first others =>
      rw [Forest.yield, hyield] at h
      cases h
      simp [t.starts_of_yield hyield]

/-- A derivation without tokens is of a symbol that can be empty. -/
theorem ParseTree.isOptional_of_yield :
    ∀ {s : Symbol} (t : ParseTree s), t.yield = [] → s.isOptional = true
  | _, .node p f, h => p.isOptional_of_areOptional (f.areOptional_of_yield h)

theorem Forest.areOptional_of_yield :
    ∀ {parts : List Part} (f : Forest parts), f.yield = [] → areOptional parts = true
  | _, .nil, _ => rfl
  | _, .leaf _ _ _, h => by cases h
  | _, .sub t f, h => by
    obtain ⟨ht, hf⟩ := List.append_eq_nil_iff.mp h
    simp [areOptional, t.isOptional_of_yield ht, f.areOptional_of_yield hf]

end

/-- A derivation of a symbol ends before the tokens `rest`: the first of them cannot go on. -/
def Ends (s : Symbol) (rest : List Token) : Prop :=
  ∀ token ∈ rest.head?, s.continues token.kind = false

theorem ends_nil (s : Symbol) : Ends s [] :=
  fun _ h => by cases h

/-- Where the parts behind a symbol come next, the symbol ends. -/
theorem Chains.ends {s x : Symbol} {parts : List Part} (h : Chains s (.symbol x :: parts))
    (f : Forest parts) {rest : List Token} (hrest : Ends s rest) : Ends x (f.yield ++ rest) := by
  obtain ⟨hstarts, hempty, -⟩ := h
  intro token htoken
  cases hyield : f.yield with
  | nil =>
    rw [hyield] at htoken
    have hs := hrest token htoken
    cases hx : x.continues token.kind with
    | false => rfl
    | true =>
      rw [hempty (f.areOptional_of_yield hyield) _ hx] at hs
      cases hs
  | cons first others =>
    rw [hyield] at htoken
    cases htoken
    exact hstarts _ (f.starts_of_yield hyield)

/-! ### Greedy derivations -/

mutual

/-- A derivation before the tokens `rest` is greedy: where an optional part of it is empty, the
token that comes next is not one that could start the part. -/
def ParseTree.Greedy : {s : Symbol} → ParseTree s → List Token → Prop
  | _, @ParseTree.node s parts _ f, rest =>
    (areOptional parts = true → ∀ token ∈ rest.head?, s.starts token.kind = false) ∧ f.Greedy rest

/-- Derivations before the tokens `rest` are greedy, each before the tokens of the others. -/
def Forest.Greedy : {parts : List Part} → Forest parts → List Token → Prop
  | _, .nil, _ => True
  | _, .leaf _ _ f, rest => f.Greedy rest
  | _, .sub t f, rest => t.Greedy (f.yield ++ rest) ∧ f.Greedy rest

end

/-- The next token settles which production a greedy derivation starts with. -/
theorem production_eq_of_greedy {s : Symbol} {parts parts' : List Part} (p : Production s parts)
    (q : Production s parts') (f : Forest parts) (g : Forest parts') {rest rest' : List Token}
    (h : f.yield ++ rest = g.yield ++ rest') (hf : (ParseTree.node p f).Greedy rest)
    (hg : (ParseTree.node q g).Greedy rest') :
    (⟨parts, p⟩ : (parts : List Part) × Production s parts) = ⟨parts', q⟩ := by
  -- An empty derivation is not greedy before a token that starts the symbol.
  have hclash : ∀ {parts parts' : List Part} (p : Production s parts) (q : Production s parts')
      (f : Forest parts) (g : Forest parts') {rest rest' : List Token} {token : Token}
      {tokens : List Token}, (ParseTree.node p f).Greedy rest → f.yield = [] →
      g.yield = token :: tokens → f.yield ++ rest = g.yield ++ rest' → False := by
    intro parts parts' p q f g rest rest' token tokens hgreedy hf hg h
    rw [hf, hg] at h
    have hstarts := hgreedy.1 (f.areOptional_of_yield hf) token
      (by rw [show rest = token :: (tokens ++ rest') from h]; rfl)
    rw [q.starts_le (g.starts_of_yield hg)] at hstarts
    cases hstarts
  cases hfy : f.yield with
  | nil =>
    cases hgy : g.yield with
    | nil => exact p.eq_of_areOptional q (f.areOptional_of_yield hfy) (g.areOptional_of_yield hgy)
    | cons token tokens => exact (hclash p q f g hf hfy hgy h).elim
  | cons token tokens =>
    cases hgy : g.yield with
    | nil => exact (hclash q p g f hg hgy hfy h.symm).elim
    | cons token' tokens' =>
      rw [hfy, hgy] at h
      cases (List.cons.inj h).1
      exact p.eq_of_starts q (f.starts_of_yield hfy) (g.starts_of_yield hgy)

mutual

/-- Greedy derivations of a symbol that begin one text are equal, and so is what follows. -/
theorem ParseTree.eq_of_greedy :
    ∀ {s : Symbol} (t u : ParseTree s) {rest rest' : List Token},
      t.yield ++ rest = u.yield ++ rest' → t.Greedy rest → u.Greedy rest' → t = u ∧ rest = rest'
  | s, .node p f, .node q g, rest, rest', h, ht, hu => by
    cases production_eq_of_greedy p q f g h ht hu
    obtain ⟨rfl, hsame⟩ := f.eq_of_greedy g h ht.2 hu.2
    exact ⟨rfl, hsame⟩

/-- Greedy derivations of the same parts that begin alike are the same. -/
theorem Forest.eq_of_greedy :
    ∀ {parts : List Part} (f g : Forest parts) {rest rest' : List Token},
      f.yield ++ rest = g.yield ++ rest' → f.Greedy rest → g.Greedy rest' → f = g ∧ rest = rest'
  | _, .nil, .nil, _, _, h, _, _ => ⟨rfl, h⟩
  | _, .leaf token _ f, .leaf token' _ g, _, _, h, hf, hg => by
    obtain ⟨rfl, htail⟩ := List.cons.inj h
    obtain ⟨rfl, hsame⟩ := f.eq_of_greedy g htail hf hg
    exact ⟨rfl, hsame⟩
  | _, .sub t f, .sub u g, rest, rest', h, hf, hg => by
    rw [Forest.yield, Forest.yield, List.append_assoc, List.append_assoc] at h
    obtain ⟨rfl, htail⟩ := t.eq_of_greedy u h hf.1 hg.1
    obtain ⟨rfl, hsame⟩ := f.eq_of_greedy g htail hf.2 hg.2
    exact ⟨rfl, hsame⟩

end

mutual

/-- A derivation that ends where the next token cannot go on is greedy. -/
theorem ParseTree.greedy_of_ends :
    ∀ {s : Symbol} (t : ParseTree s) {rest : List Token}, Ends s rest → t.Greedy rest
  | s, .node p f, rest, h => by
    refine ⟨fun hparts token htoken => Bool.eq_false_iff.mpr fun hstarts => ?_,
      f.greedy_of_ends p.chains h⟩
    have hcontinues := Symbol.continues_of_starts (p.isOptional_of_areOptional hparts) hstarts
    exact Bool.false_ne_true ((h token htoken).symm.trans hcontinues)

theorem Forest.greedy_of_ends :
    ∀ {s : Symbol} {parts : List Part} (f : Forest parts) {rest : List Token},
      Chains s parts → Ends s rest → f.Greedy rest
  | _, _, .nil, _, _, _ => trivial
  | s, _, .leaf _ _ f, _, hchains, h => f.greedy_of_ends (s := s) hchains h
  | _, _, .sub t f, _, hchains, h =>
    ⟨t.greedy_of_ends (hchains.ends f h), f.greedy_of_ends hchains.2.2 h⟩

end

/-- **A text has one derivation**: two derivations of a symbol that begin one text, each ending
where the next token cannot go on, are equal, and so are the rests of the text. -/
theorem ParseTree.unique {s : Symbol} (t u : ParseTree s) {rest rest' : List Token}
    (h : t.yield ++ rest = u.yield ++ rest') (hrest : Ends s rest) (hrest' : Ends s rest') :
    t = u ∧ rest = rest' :=
  t.eq_of_greedy u h (t.greedy_of_ends hrest) (u.greedy_of_ends hrest')

end Derivations

end DecimalScript
