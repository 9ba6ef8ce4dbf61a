import DecimalScript.Proofs.Lookahead

/-!
# Stuck derivations

Where a derivation cannot go on: tokens begin it, and no token of the next one's kind, or no end of
the text, can come behind them. Which of these it is depends on nothing else of what follows, since
one token of lookahead settles every step.

- `Stuck`: parts of a production are stuck between the tokens taken and the rest.
- `Stuck.exists_completion`: other tokens in place of the rest complete the parts, so the tokens
  taken are not to blame.
- `Stuck.append_ne`: no tokens that start like the rest do, so the next one is.
-/

namespace DecimalScript

namespace Derivations

variable {s : Symbol} {kind : TokenKind} {parts parts' : List Part} {token : Token}
  {taken rest rest' rest'' : List Token}

/-! ### What only the next token decides -/

theorem head?_append_congr (h : rest'.head? = rest.head?) :
    (taken ++ rest').head? = (taken ++ rest).head? := by
  rw [List.head?_append, List.head?_append, h]

/-- The next token starts something, or nothing there does. -/
theorem starts_or_not (starts : TokenKind → Bool) (tokens : List Token) :
    (∃ token ∈ tokens.head?, starts token.kind = true) ∨
      ∀ token ∈ tokens.head?, starts token.kind = false := by
  cases tokens with
  | nil =>
    right
    intro token hhead
    cases hhead
  | cons token tokens =>
    cases hstarts : starts token.kind with
    | true => exact .inl ⟨token, rfl, hstarts⟩
    | false => exact .inr fun _ hhead => Option.some.inj hhead ▸ hstarts

mutual

/-- Whether a derivation is greedy is told from the next token. -/
theorem ParseTree.greedy_congr : ∀ {s : Symbol} (t : ParseTree s) {rest rest' : List Token},
    rest'.head? = rest.head? → t.Greedy rest → t.Greedy rest'
  | _, .node _ f, _, _, h, ht => ⟨by rw [h]; exact ht.1, f.greedy_congr h ht.2⟩

theorem Forest.greedy_congr : ∀ {parts : List Part} (f : Forest parts) {rest rest' : List Token},
    rest'.head? = rest.head? → f.Greedy rest → f.Greedy rest'
  | _, .nil, _, _, _, _ => trivial
  | _, .leaf _ _ f, _, _, h, hf => f.greedy_congr h hf
  | _, .sub t f, _, _, h, hf =>
    ⟨t.greedy_congr (head?_append_congr h) hf.1, f.greedy_congr h hf.2⟩

end

/-- A greedy derivation starts with the production that its first token starts. -/
theorem Production.eq_of_greedy (p : Production s parts) {q : Production s parts'}
    {g : Forest parts'} (hg : (ParseTree.node q g).Greedy rest)
    (h : ∃ token ∈ (g.yield ++ rest).head?, startsParts token.kind parts = true) :
    (⟨parts', q⟩ : (parts : List Part) × Production s parts) = ⟨parts, p⟩ := by
  obtain ⟨token, hhead, hstarts⟩ := h
  cases hyield : g.yield with
  | nil =>
    rw [hyield] at hhead
    have hnone := hg.1 (g.areOptional_of_yield hyield) token hhead
    rw [p.starts_le hstarts] at hnone
    cases hnone
  | cons first others =>
    rw [hyield] at hhead
    cases hhead
    exact q.eq_of_starts p (g.starts_of_yield hyield) hstarts

/-! ### Stuck parts -/

/-- The parts of a production are stuck: the tokens `taken` begin them, and the next one, the first
of `rest`, cannot come behind these. No next one is the end of the text. -/
inductive Stuck : List Part → (taken rest : List Token) → Prop where
  /-- A token of another kind is asked for. -/
  | token {kind : TokenKind} {parts : List Part} {rest : List Token}
      (h : ∀ token ∈ rest.head?, token.kind ≠ kind) : Stuck (.token kind :: parts) [] rest
  /-- A symbol is asked for that neither is empty nor starts with the next token. -/
  | symbol {s : Symbol} {parts : List Part} {rest : List Token} (hs : s.isOptional = false)
      (h : ∀ token ∈ rest.head?, s.starts token.kind = false) : Stuck (.symbol s :: parts) [] rest
  /-- What is behind a token is stuck. -/
  | leaf {kind : TokenKind} {parts : List Part} {token : Token} {taken rest : List Token}
      (h : token.kind = kind) (hstuck : Stuck parts taken rest) :
      Stuck (.token kind :: parts) (token :: taken) rest
  /-- What is behind a derivation is stuck. -/
  | sub {s : Symbol} {parts : List Part} {taken rest : List Token} (t : ParseTree s)
      (hadmissible : t.Admissible true) (hgreedy : t.Greedy (taken ++ rest))
      (hstuck : Stuck parts taken rest) : Stuck (.symbol s :: parts) (t.yield ++ taken) rest
  /-- A production is stuck that starts with the next token and comes without a restriction. -/
  | node {s : Symbol} {parts parts' : List Part} {taken rest : List Token} (p : Production s parts')
      (hfree : ∀ f : Forest parts', Allowed true s p f)
      (hstarts : ∃ token ∈ (taken ++ rest).head?, startsParts token.kind parts' = true)
      (hstuck : Stuck parts' taken rest) : Stuck (.symbol s :: parts) taken rest
  /-- A statement is stuck in the expression that it starts with. -/
  | target {parts : List Part} {taken rest : List Token}
      (hstarts : ∃ token ∈ (taken ++ rest).head?, startsPrimary token.kind = true)
      (hstuck : Stuck [.symbol .postfixed] taken rest) :
      Stuck (.symbol .statement :: parts) taken rest
  /-- A statement is stuck behind the expression that it starts with: that is not assigned to and is
  not a statement by itself. -/
  | statement {parts : List Part} {rest : List Token} (t : ParseTree .postfixed)
      (hadmissible : t.Admissible true) (hgreedy : t.Greedy rest)
      (hassign : ∀ token ∈ rest.head?, token.kind = .mark .assign →
        ¬ (t.form true = some .name ∨ t.form true = some .lookup))
      (hcall : ∀ token ∈ rest.head?, token.kind = .mark .semicolon → t.form true ≠ some .call) :
      Stuck (.symbol .statement :: parts) t.yield rest
  /-- An assignment is stuck behind its sign. -/
  | assignment {parts : List Part} {assign : Token} {taken rest : List Token}
      (t : ParseTree .postfixed) (hadmissible : t.Admissible true)
      (hgreedy : t.Greedy (assign :: (taken ++ rest)))
      (hform : t.form true = some .name ∨ t.form true = some .lookup)
      (hkind : assign.kind = .mark .assign)
      (hstuck : Stuck [.expression, .mark .semicolon] taken rest) :
      Stuck (.symbol .statement :: parts) (t.yield ++ assign :: taken) rest

/-- Stuck parts stay so, whatever parts are behind them. -/
theorem Stuck.append (h : Stuck parts taken rest) (more : List Part) :
    Stuck (parts ++ more) taken rest := by
  induction h with
  | token h => exact .token h
  | symbol hs h => exact .symbol hs h
  | leaf h _ ih => exact .leaf h ih
  | sub t hadmissible hgreedy _ ih => exact .sub t hadmissible hgreedy ih
  | node p hfree hstarts hstuck _ => exact .node p hfree hstarts hstuck
  | target hstarts hstuck _ => exact .target hstarts hstuck
  | statement t hadmissible hgreedy hassign hcall =>
    exact .statement t hadmissible hgreedy hassign hcall
  | assignment t hadmissible hgreedy hform hkind hstuck _ =>
    exact .assignment t hadmissible hgreedy hform hkind hstuck

/-! ### Every symbol has a derivation -/

theorem exists_token (h : kind ≠ .endOfFile) : ∃ token : Token, token.kind = kind := by
  cases kind with
  | number => exact ⟨⟨.number ⟨false, 0, 0⟩, "", ⟨none, .start, .start⟩⟩, rfl⟩
  | string => exact ⟨⟨.string "", "", ⟨none, .start, .start⟩⟩, rfl⟩
  | name => exact ⟨⟨.name "", "", ⟨none, .start, .start⟩⟩, rfl⟩
  | word w => exact ⟨⟨.word w, "", ⟨none, .start, .start⟩⟩, rfl⟩
  | mark m => exact ⟨⟨.mark m, "", ⟨none, .start, .start⟩⟩, rfl⟩
  | endOfFile => exact absurd rfl h

/-- Every part is a symbol or asks for a token of a kind that there is. -/
def Spellable : List Part → Prop
  | [] => True
  | .token kind :: parts => kind ≠ .endOfFile ∧ Spellable parts
  | .symbol _ :: parts => Spellable parts

instance decidableSpellable : (parts : List Part) → Decidable (Spellable parts)
  | [] => inferInstanceAs (Decidable True)
  | .token kind :: parts =>
    have : Decidable (Spellable parts) := decidableSpellable parts
    inferInstanceAs (Decidable (kind ≠ .endOfFile ∧ Spellable parts))
  | .symbol _ :: parts => decidableSpellable parts

/-- No production asks for the end of the text. -/
theorem Production.spellable (p : Production s parts) : Spellable parts := by
  cases s with
  | right l | left l | rightRest l => cases l <;> cases p <;> decide
  | item k | items k | itemsRest k => cases k <;> cases p <;> decide
  | leftRest l => cases l <;> cases p <;> decide +revert
  | relationRest | primary => cases p <;> decide +revert
  | _ => cases p <;> decide

/-- There are admissible derivations of the parts. -/
def Derivable (parts : List Part) : Prop :=
  ∃ f : Forest parts, f.Admissible true

theorem derivable_leaf (hkind : kind ≠ .endOfFile) (h : Derivable parts) :
    Derivable (.token kind :: parts) := by
  obtain ⟨token, htoken⟩ := exists_token hkind
  obtain ⟨f, hf⟩ := h
  exact ⟨.leaf token htoken f, hf⟩

theorem derivable_sub (hs : Derivable [.symbol s]) (h : Derivable parts) :
    Derivable (.symbol s :: parts) := by
  obtain ⟨g, hg⟩ := hs
  obtain ⟨f, hf⟩ := h
  cases g with
  | sub t _ => exact ⟨.sub t f, hg.1, hf⟩

/-- A symbol is derivable if the parts of one of its productions are. -/
theorem derivable_node (p : Production s parts) (hfree : ∀ f : Forest parts, Allowed true s p f)
    (h : Derivable parts) : Derivable [.symbol s] := by
  obtain ⟨f, hf⟩ := h
  exact ⟨.sub (.node p f) .nil, ⟨hfree f, hf⟩, trivial⟩

theorem derivable_tail {part : Part} (h : Derivable (part :: parts)) : Derivable parts := by
  obtain ⟨f, hf⟩ := h
  cases f with
  | leaf _ _ f => exact ⟨f, hf⟩
  | sub _ f => exact ⟨f, hf.2⟩

theorem derivable_nil : Derivable [] :=
  ⟨.nil, trivial⟩

/-- What can be empty is derivable. -/
theorem derivable_absent (p : Production s []) (hfree : ∀ f : Forest [], Allowed true s p f) :
    Derivable [.symbol s] :=
  derivable_node p hfree derivable_nil

/-- A symbol that consists of one other is derivable if that is. -/
theorem derivable_plain (p : Production s [.symbol s'])
    (hfree : ∀ f : Forest [.symbol s'], Allowed true s p f) (h : Derivable [.symbol s']) :
    Derivable [.symbol s] :=
  derivable_node p hfree (derivable_sub h derivable_nil)

theorem derivable_left (l : LeftLevel) (h : Derivable [.symbol l.operand]) :
    Derivable [.symbol (.left l)] :=
  derivable_node .only (fun _ => trivial)
    (derivable_sub h (derivable_sub (derivable_absent .absent fun _ => trivial) derivable_nil))

theorem derivable_right (l : RightLevel) (h : Derivable [.symbol l.operand]) :
    Derivable [.symbol (.right l)] :=
  derivable_node .only (fun _ => trivial)
    (derivable_sub h (derivable_sub (derivable_absent .absent fun _ => trivial) derivable_nil))

/-- A name is a primary expression. -/
theorem derivable_primary : Derivable [.symbol .primary] :=
  derivable_node (.literal .name (by decide)) (fun _ => trivial) (derivable_leaf nofun derivable_nil)

theorem derivable_postfixed : Derivable [.symbol .postfixed] :=
  derivable_node .only (fun _ => trivial)
    (derivable_sub derivable_primary
      (derivable_sub (derivable_absent .absent fun _ => trivial) derivable_nil))

theorem derivable_signed : Derivable [.symbol .signed] :=
  derivable_plain .plain (fun _ => trivial) derivable_postfixed

/-- The levels that group to the left, from the one that binds tightest. -/
theorem derivable_leftLevel (l : LeftLevel) : Derivable [.symbol (.left l)] := by
  have hpower : Derivable [.symbol (.left .power)] := derivable_left .power derivable_signed
  have hproduct : Derivable [.symbol (.left .product)] := derivable_left .product hpower
  cases l with
  | power => exact hpower
  | product => exact hproduct
  | sum => exact derivable_left .sum hproduct

theorem derivable_relation : Derivable [.symbol .relation] :=
  derivable_node .only (fun _ => trivial)
    (derivable_sub (derivable_leftLevel .sum)
      (derivable_sub (derivable_absent .absent fun _ => trivial) derivable_nil))

theorem derivable_negation : Derivable [.symbol .negation] :=
  derivable_plain .plain (fun _ => trivial) derivable_relation

/-- The levels that group to the right, from the one that binds tightest. -/
theorem derivable_rightLevel (l : RightLevel) : Derivable [.symbol (.right l)] := by
  have hand : Derivable [.symbol (.right .and)] := derivable_right .and derivable_negation
  have hor : Derivable [.symbol (.right .or)] := derivable_right .or hand
  cases l with
  | and => exact hand
  | or => exact hor
  | concat => exact derivable_right .concat hor

theorem derivable_expression : Derivable [.expression] :=
  derivable_rightLevel .concat

/-- A block may be empty. -/
theorem derivable_block : Derivable [.symbol .block] :=
  derivable_node .only (fun _ => trivial)
    (derivable_leaf nofun (derivable_sub (derivable_absent .absent fun _ => trivial)
      (derivable_leaf nofun derivable_nil)))

theorem derivable_item : ∀ k : ItemKind, Derivable [.symbol (.item k)]
  | .expression => derivable_plain .only (fun _ => trivial) derivable_expression
  | .entry =>
    derivable_node .only (fun _ => trivial) (derivable_sub derivable_expression
      (derivable_leaf nofun (derivable_sub derivable_expression derivable_nil)))
  | .parameter =>
    derivable_node .only (fun _ => trivial) (derivable_leaf nofun
      (derivable_sub (derivable_absent .absent fun _ => trivial) derivable_nil))
  | .name => derivable_node .only (fun _ => trivial) (derivable_leaf nofun derivable_nil)

/-- Every symbol has an admissible derivation: a name for an expression, a return for a statement,
nothing for what can be empty. -/
theorem derivable_symbol (s : Symbol) : Derivable [.symbol s] := by
  cases s with
  | statements | otherwise | assigned | secondName | rightRest l | relationRest | leftRest l
  | suffixes | items k | itemsRest k | default => exact derivable_absent .absent fun _ => trivial
  | block => exact derivable_block
  | statement =>
    exact derivable_node StatementForm.ret (fun _ => trivial)
      (derivable_leaf nofun (derivable_sub derivable_expression (derivable_leaf nofun derivable_nil)))
  | conditional =>
    exact derivable_node .only (fun _ => trivial)
      (derivable_leaf nofun (derivable_leaf nofun (derivable_sub derivable_expression
        (derivable_leaf nofun (derivable_sub derivable_block
          (derivable_sub (derivable_absent .absent fun _ => trivial) derivable_nil))))))
  | alternative => exact derivable_plain AlternativeForm.block (fun _ => trivial) derivable_block
  | right l => exact derivable_rightLevel l
  | negation => exact derivable_negation
  | relation => exact derivable_relation
  | left l => exact derivable_leftLevel l
  | signed => exact derivable_signed
  | postfixed => exact derivable_postfixed
  | primary => exact derivable_primary
  | item k => exact derivable_item k

/-- Parts that no end of the text is among have admissible derivations. -/
theorem Spellable.derivable : ∀ {parts : List Part}, Spellable parts → Derivable parts
  | [], _ => ⟨.nil, trivial⟩
  | .token _ :: _, h => derivable_leaf h.1 h.2.derivable
  | .symbol s :: _, h => derivable_sub (derivable_symbol s) (Spellable.derivable h)

/-! ### The tokens taken can be completed -/

/-- Suffixes go on to a call. -/
theorem ParseTree.exists_call_suffixes (t : ParseTree .suffixes) (ht : t.Admissible true) :
    ∃ u : ParseTree .suffixes, u.Admissible true ∧ u.form true = some .call ∧
      t.yield <+: u.yield := by
  -- By induction on the number of tokens: the call stands behind the last suffix.
  induction hlength : t.yield.length using Nat.strongRecOn generalizing t with
  | ind n ih =>
  obtain ⟨_, p, f, rfl⟩ := t.exists_node
  cases p with
  | absent =>
    cases f
    obtain ⟨opening, hopening⟩ := exists_token (show TokenKind.mark .lparen ≠ .endOfFile from nofun)
    obtain ⟨closing, hclosing⟩ := exists_token (show TokenKind.mark .rparen ≠ .endOfFile from nofun)
    refine ⟨.node .call (.leaf opening hopening (.sub (.node .absent .nil)
      (.leaf closing hclosing (.sub (.node .absent .nil) .nil)))), ?_, rfl, List.nil_prefix⟩
    exact ⟨trivial, ⟨trivial, trivial⟩, ⟨trivial, trivial⟩, trivial⟩
  | call =>
    obtain ⟨opening, hopening, f, rfl⟩ := f.exists_leaf
    obtain ⟨arguments, f, rfl⟩ := f.exists_sub
    obtain ⟨closing, hclosing, f, rfl⟩ := f.exists_leaf
    obtain ⟨others, f, rfl⟩ := f.exists_sub
    cases f
    obtain ⟨-, harguments, hothers, -⟩ := ht
    have hshorter : others.yield.length < n := by
      simp only [← hlength, ParseTree.yield, Forest.yield, List.length_cons, List.length_append]
      omega
    obtain ⟨u, hu, hform, hleads⟩ := ih _ hshorter others hothers rfl
    refine ⟨.node .call (.leaf opening hopening (.sub arguments (.leaf closing hclosing
      (.sub u .nil)))), ⟨trivial, harguments, hu, trivial⟩,
      Option.or_eq_some_iff.mpr (.inl hform), ?_⟩
    simpa [ParseTree.yield, Forest.yield] using hleads
  | lookup =>
    obtain ⟨opening, hopening, f, rfl⟩ := f.exists_leaf
    obtain ⟨key, f, rfl⟩ := f.exists_sub
    obtain ⟨closing, hclosing, f, rfl⟩ := f.exists_leaf
    obtain ⟨others, f, rfl⟩ := f.exists_sub
    cases f
    obtain ⟨-, hkey, hothers, -⟩ := ht
    have hshorter : others.yield.length < n := by
      simp only [← hlength, ParseTree.yield, Forest.yield, List.length_cons, List.length_append]
      omega
    obtain ⟨u, hu, hform, hleads⟩ := ih _ hshorter others hothers rfl
    refine ⟨.node .lookup (.leaf opening hopening (.sub key (.leaf closing hclosing
      (.sub u .nil)))), ⟨trivial, hkey, hu, trivial⟩, Option.or_eq_some_iff.mpr (.inl hform), ?_⟩
    simpa [ParseTree.yield, Forest.yield] using hleads

/-- A postfix expression goes on to a call. -/
theorem ParseTree.exists_call (t : ParseTree .postfixed) (ht : t.Admissible true) :
    ∃ u : ParseTree .postfixed, u.Admissible true ∧ u.form true = some .call ∧
      t.yield <+: u.yield := by
  obtain ⟨_, p, f, rfl⟩ := t.exists_node
  cases p with
  | only =>
    obtain ⟨first, f, rfl⟩ := f.exists_sub
    obtain ⟨suffixes, f, rfl⟩ := f.exists_sub
    cases f
    obtain ⟨-, hfirst, hsuffixes, -⟩ := ht
    obtain ⟨u, hu, hform, hleads⟩ := suffixes.exists_call_suffixes hsuffixes
    refine ⟨.node .only (.sub first (.sub u .nil)), ⟨trivial, hfirst, hu, trivial⟩,
      Option.or_eq_some_iff.mpr (.inl hform), ?_⟩
    simpa [ParseTree.yield, Forest.yield] using hleads

/-- A statement that starts with an expression goes on to a call. -/
theorem exists_call_statement (hparts : Derivable parts) (t : ParseTree .postfixed)
    (ht : t.Admissible true) :
    ∃ f : Forest (.symbol .statement :: parts), f.Admissible true ∧ t.yield <+: f.yield := by
  obtain ⟨u, hu, hform, hleads⟩ := t.exists_call ht
  obtain ⟨stop, hstop⟩ := exists_token (show TokenKind.mark .semicolon ≠ .endOfFile from nofun)
  obtain ⟨f, hf⟩ := hparts
  refine ⟨.sub (.node .simple (.sub u (.sub (.node .absent .nil) (.leaf stop hstop .nil)))) f,
    ⟨⟨hform, hu, ⟨trivial, trivial⟩, trivial⟩, hf⟩, ?_⟩
  exact (hleads.trans (List.prefix_append _ _)).trans (List.prefix_append _ _)

/-- **The tokens taken are not to blame.** Where parts are stuck, other tokens in place of the rest
complete them. -/
theorem Stuck.exists_completion (h : Stuck parts taken rest) (hparts : Derivable parts) :
    ∃ f : Forest parts, f.Admissible true ∧ taken <+: f.yield := by
  induction h with
  | token | symbol =>
    obtain ⟨f, hf⟩ := hparts
    exact ⟨f, hf, List.nil_prefix⟩
  | leaf hkind _ ih =>
    obtain ⟨g, hg⟩ := hparts
    cases g with
    | leaf _ _ g =>
      obtain ⟨f, hf, hleads⟩ := ih ⟨g, hg⟩
      exact ⟨.leaf _ hkind f, hf, List.prefix_cons_inj _ |>.mpr hleads⟩
  | sub t ht _ _ ih =>
    obtain ⟨g, hg⟩ := hparts
    cases g with
    | sub _ g =>
      obtain ⟨f, hf, hleads⟩ := ih ⟨g, hg.2⟩
      exact ⟨.sub t f, ⟨ht, hf⟩, List.prefix_append_right_inj _ |>.mpr hleads⟩
  | node p hfree _ _ ih =>
    -- What is stuck inside the production is completed there, and other parts come behind it.
    obtain ⟨f, hf, hleads⟩ := ih p.spellable.derivable
    obtain ⟨g, hg⟩ := hparts
    cases g with
    | sub _ g =>
      exact ⟨.sub (.node p f) g, ⟨⟨hfree f, hf⟩, hg.2⟩, hleads.trans (List.prefix_append _ _)⟩
  | target _ _ ih =>
    obtain ⟨f, hf, hleads⟩ := ih (derivable_symbol _)
    cases f with
    | sub t f =>
      cases f
      obtain ⟨g, hg, hleads'⟩ := exists_call_statement (derivable_tail hparts) t hf.1
      exact ⟨g, hg, (by simpa [Forest.yield] using hleads : _ <+: t.yield).trans hleads'⟩
  | statement t ht _ _ _ => exact exists_call_statement (derivable_tail hparts) t ht
  | assignment t ht _ hform hkind _ ih =>
    -- The sign is taken already, so the statement has to stay an assignment.
    obtain ⟨f, hf, hleads⟩ := ih (show Spellable _ by decide).derivable
    obtain ⟨g, hg⟩ := derivable_tail hparts
    cases f with
    | sub value f =>
      cases f with
      | leaf stop hstop f =>
        cases f
        refine ⟨.sub (.node .simple (.sub t (.sub (.node .present (.leaf _ hkind
            (.sub value .nil))) (.leaf stop hstop .nil)))) g,
          ⟨⟨hform, ht, ⟨trivial, hf.1, trivial⟩, trivial⟩, hg⟩, ?_⟩
        simp only [Forest.yield, ParseTree.yield, List.append_assoc, List.cons_append,
          List.append_nil, List.prefix_append_right_inj, List.prefix_cons_inj]
        simpa [Forest.yield] using hleads.trans (List.prefix_append _ g.yield)

/-! ### The next token is to blame -/

/-- A postfix expression starts like an expression, whatever is behind it. -/
theorem ParseTree.exists_head (t : ParseTree .postfixed) (rest : List Token) :
    ∃ token ∈ (t.yield ++ rest).head?, startsPrimary token.kind = true := by
  cases hyield : t.yield with
  | nil => exact nomatch t.isOptional_of_yield hyield
  | cons token tokens => exact ⟨token, rfl, t.starts_of_yield hyield⟩

/-- A statement that starts like an expression is a call or an assignment. -/
theorem ParseTree.exists_simple (u : ParseTree .statement) (rest : List Token)
    (h : ∃ token ∈ (u.yield ++ rest).head?, startsPrimary token.kind = true) :
    ∃ (t : ParseTree .postfixed) (value : ParseTree .assigned) (stop : Token)
      (hstop : stop.kind = .mark .semicolon),
      u = .node .simple (.sub t (.sub value (.leaf stop hstop .nil))) := by
  obtain ⟨token, hhead, hstarts⟩ := h
  cases hyield : u.yield with
  | nil => exact nomatch u.isOptional_of_yield hyield
  | cons first tokens =>
    rw [hyield] at hhead
    cases hhead
    obtain ⟨q, g⟩ := u
    have hsimple : startsParts token.kind
        [.symbol .postfixed, .symbol .assigned, .mark .semicolon] = true := by
      simp [startsParts, Symbol.starts, hstarts]
    -- All other statements start with a word of their own.
    cases q.eq_of_starts .simple (g.starts_of_yield hyield) hsimple
    cases g with
    | sub t g =>
      cases g with
      | sub value g =>
        cases g with
        | leaf stop hstop g =>
          cases g
          exact ⟨t, value, stop, hstop, rfl⟩

/-- A statement that starts with a derivation of an expression has just that one in front. -/
theorem ParseTree.exists_simple_behind (u : ParseTree .statement) {t : ParseTree .postfixed}
    (hu : u.Greedy rest') (ht : t.Greedy rest) (h : u.yield ++ rest' = t.yield ++ rest) :
    ∃ (value : ParseTree .assigned) (stop : Token) (hstop : stop.kind = .mark .semicolon),
      u = .node .simple (.sub t (.sub value (.leaf stop hstop .nil))) ∧
        value.yield ++ stop :: rest' = rest := by
  obtain ⟨t', value, stop, hstop, rfl⟩ := u.exists_simple rest' (by
    rw [h]
    exact t.exists_head _)
  have htokens : t'.yield ++ (value.yield ++ stop :: rest') = t.yield ++ rest := by
    simpa [ParseTree.yield, Forest.yield] using h
  have hgreedy : t'.Greedy (value.yield ++ stop :: rest') := by
    simpa [Forest.yield] using hu.2.1
  obtain ⟨rfl, htail⟩ := t'.eq_of_greedy t htokens hgreedy ht
  exact ⟨value, stop, hstop, rfl, htail⟩

/-- Behind the expression of a statement stands the semicolon of a call or the sign of an
assignment. -/
theorem call_or_assignment {t : ParseTree .postfixed} {value : ParseTree .assigned}
    {f : Forest [.mark .semicolon]} (h : Allowed true .statement .simple (.sub t (.sub value f))) :
    (value = .node .absent .nil ∧ t.form true = some .call) ∨
      ∃ (assign : Token) (hkind : assign.kind = .mark .assign) (e : ParseTree .expression),
        value = .node .present (.leaf assign hkind (.sub e .nil)) ∧
          (t.form true = some .name ∨ t.form true = some .lookup) := by
  obtain ⟨_, p, g, rfl⟩ := value.exists_node
  cases p with
  | absent =>
    cases g
    exact .inl ⟨rfl, h⟩
  | present =>
    obtain ⟨assign, hkind, g, rfl⟩ := g.exists_leaf
    obtain ⟨e, g, rfl⟩ := g.exists_sub
    cases g
    exact .inr ⟨assign, hkind, e, rfl, h⟩

/-- No greedy derivation of the parts starts with the tokens taken and goes on like the rest. -/
def Differs (parts : List Part) (taken rest : List Token) : Prop :=
  ∀ {rest' rest'' : List Token} (f : Forest parts), f.Admissible true → f.Greedy rest' →
    rest''.head? = rest.head? → f.yield ++ rest' ≠ taken ++ rest''

theorem differs_token (hkind : ∀ token ∈ rest.head?, token.kind ≠ kind) :
    Differs (.token kind :: parts) [] rest := by
  intro rest' rest'' f _ _ hhead heq
  cases f with
  | leaf token htoken f =>
    have hnext : rest''.head? = some token := congrArg List.head? heq.symm
    exact hkind token (hhead.symm.trans hnext) htoken

theorem differs_symbol (hs : s.isOptional = false)
    (hstarts : ∀ token ∈ rest.head?, s.starts token.kind = false) :
    Differs (.symbol s :: parts) [] rest := by
  intro rest' rest'' f _ _ hhead heq
  cases f with
  | sub t f =>
    cases hyield : t.yield with
    | nil => exact Bool.false_ne_true (hs.symm.trans (t.isOptional_of_yield hyield))
    | cons token tokens =>
      rw [List.nil_append, Forest.yield, hyield] at heq
      have hnext : rest''.head? = some token := congrArg List.head? heq.symm
      exact Bool.false_ne_true
        ((hstarts token (hhead.symm.trans hnext)).symm.trans (t.starts_of_yield hyield))

theorem differs_leaf {token : Token} (h : Differs parts taken rest) :
    Differs (.token kind :: parts) (token :: taken) rest := by
  intro rest' rest'' f hf hgreedy hhead heq
  cases f with
  | leaf first htoken f => exact h f hf hgreedy hhead (List.cons.inj heq).2

/-- A derivation of the same beginning has the part that is gone over, because both are greedy. -/
theorem differs_sub {t : ParseTree s} (hgreedy : t.Greedy (taken ++ rest))
    (h : Differs parts taken rest) : Differs (.symbol s :: parts) (t.yield ++ taken) rest := by
  intro rest' rest'' f hf hgreedy' hhead heq
  cases f with
  | sub u f =>
    rw [Forest.yield, List.append_assoc, List.append_assoc] at heq
    have hgreedy'' := t.greedy_congr (head?_append_congr hhead) hgreedy
    obtain ⟨rfl, htail⟩ := u.eq_of_greedy t heq hgreedy'.1 hgreedy''
    exact h f hf.2 hgreedy'.2 hhead htail

/-- A derivation of the same beginning has the production that the next token settles. -/
theorem differs_node {parts' : List Part} (p : Production s parts')
    (hstarts : ∃ token ∈ (taken ++ rest).head?, startsParts token.kind parts' = true)
    (h : Differs parts' taken rest) : Differs (.symbol s :: parts) taken rest := by
  intro rest' rest'' f hf hgreedy hhead heq
  cases f with
  | sub u f =>
    obtain ⟨q, g⟩ := u
    rw [Forest.yield, List.append_assoc] at heq
    rw [ParseTree.yield] at heq
    cases p.eq_of_greedy hgreedy.1 (by
      rw [heq, head?_append_congr hhead]
      exact hstarts)
    exact h g hf.1.2 hgreedy.1.2 hhead heq

/-- A statement that starts like an expression starts with an expression. -/
theorem differs_target
    (hstarts : ∃ token ∈ (taken ++ rest).head?, startsPrimary token.kind = true)
    (h : Differs [.symbol .postfixed] taken rest) :
    Differs (.symbol .statement :: parts) taken rest := by
  intro rest' rest'' f hf hgreedy hhead heq
  cases f with
  | sub u f =>
    rw [Forest.yield, List.append_assoc] at heq
    obtain ⟨t, value, stop, hstop, rfl⟩ := u.exists_simple (f.yield ++ rest') (by
      rw [heq, head?_append_congr hhead]
      exact hstarts)
    refine h (.sub t .nil) ⟨hf.1.2.1, trivial⟩ ⟨hgreedy.1.2.1, trivial⟩ hhead ?_
    simpa [ParseTree.yield, Forest.yield] using heq

/-- Behind the expression of a statement stands the sign of an assignment or a semicolon. -/
theorem differs_statement {t : ParseTree .postfixed} (hgreedy : t.Greedy rest)
    (hassign : ∀ token ∈ rest.head?, token.kind = .mark .assign →
      ¬ (t.form true = some .name ∨ t.form true = some .lookup))
    (hcall : ∀ token ∈ rest.head?, token.kind = .mark .semicolon → t.form true ≠ some .call) :
    Differs (.symbol .statement :: parts) t.yield rest := by
  intro rest' rest'' f hf hgreedy' hhead heq
  cases f with
  | sub u f =>
    rw [Forest.yield, List.append_assoc] at heq
    obtain ⟨value, stop, hstop, rfl, htail⟩ :=
      u.exists_simple_behind hgreedy'.1 (t.greedy_congr hhead hgreedy) heq
    rw [← htail] at hhead
    rcases call_or_assignment hf.1.1 with ⟨rfl, hform⟩ | ⟨assign, hassignKind, e, rfl, hform⟩
    · exact hcall stop hhead.symm hstop hform
    · exact hassign assign hhead.symm hassignKind hform

/-- Behind the sign of an assignment stand its value and a semicolon. -/
theorem differs_assignment {assign : Token} {t : ParseTree .postfixed}
    (hgreedy : t.Greedy (assign :: (taken ++ rest))) (hkind : assign.kind = .mark .assign)
    (h : Differs [.expression, .mark .semicolon] taken rest) :
    Differs (.symbol .statement :: parts) (t.yield ++ assign :: taken) rest := by
  intro rest' rest'' f hf hgreedy' hhead heq
  cases f with
  | sub u f =>
    rw [Forest.yield, List.append_assoc, List.append_assoc] at heq
    have hgreedy'' : t.Greedy (assign :: (taken ++ rest'')) := by
      refine t.greedy_congr ?_ hgreedy
      rfl
    obtain ⟨value, stop, hstop, rfl, htail⟩ := u.exists_simple_behind hgreedy'.1 hgreedy'' heq
    rcases call_or_assignment hf.1.1 with ⟨rfl, -⟩ | ⟨_, _, e, rfl, -⟩
    · -- Without a value the semicolon would stand where the sign does.
      obtain ⟨rfl, -⟩ := List.cons.inj htail
      exact nomatch hstop.symm.trans hkind
    · refine h (.sub e (.leaf stop hstop .nil)) ⟨hf.1.2.2.1.2.1, trivial⟩
        ⟨hgreedy'.1.2.2.1.2.1, trivial⟩ hhead ?_
      simpa [ParseTree.yield, Forest.yield] using (List.cons.inj htail).2

/-- **The next token is to blame.** Where parts are stuck, no derivation of them starts with the
tokens taken and goes on like the rest. -/
theorem Stuck.append_ne (h : Stuck parts taken rest) :
    ∀ {rest' rest'' : List Token} (f : Forest parts), f.Admissible true → f.Greedy rest' →
      rest''.head? = rest.head? → f.yield ++ rest' ≠ taken ++ rest'' := by
  -- The induction is on how the parts are stuck: a derivation of the same beginning agrees with
  -- what is gone over, and then it is stuck there as well.
  show Differs parts taken rest
  induction h with
  | token hkind => exact differs_token hkind
  | symbol hs hstarts => exact differs_symbol hs hstarts
  | leaf _ _ ih => exact differs_leaf ih
  | sub t _ hgreedy _ ih => exact differs_sub hgreedy ih
  | node p _ hstarts _ ih => exact differs_node p hstarts ih
  | target hstarts _ ih => exact differs_target hstarts ih
  | statement t _ hgreedy hassign hcall => exact differs_statement hgreedy hassign hcall
  | assignment t _ hgreedy _ hkind _ ih => exact differs_assignment hgreedy hkind ih

end Derivations

end DecimalScript
