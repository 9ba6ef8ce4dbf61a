import DecimalScript.Proofs.Lookahead
import DecimalScript.Proofs.ParserSteps

/-!
# Parsing expressions

A parser of a symbol is right (`Parses`) if it goes over exactly the admissible derivations of that
symbol which leave nothing out that the next token could start. One lemma for each way the parsers
of expressions are built says that a right parser comes of right parsers: operators of a level,
items between commas, suffixes, primary expressions.

A derivation is taken apart together with where it lies (`Fits`), and each token takes one off the
bound on nesting. So the bound is never felt, as long as it is at least the number of tokens.
-/

namespace DecimalScript

open Cursor DecimalScript.Parser

namespace Derivations

variable {s x : Symbol} {kind : TokenKind} {parts : List Part} {bound n : Nat} {c c₁ c' : Cursor}

/-! ### Derivations between cursors -/

/-- An admissible derivation whose tokens lead from one cursor to another, and which is greedy
there. -/
structure ParseTree.Covers (t : ParseTree s) (c c' : Cursor) : Prop where
  admissible : t.Admissible true
  greedy : t.Greedy c'.rest
  takes : Takes t.yield c c'

/-- Admissible derivations whose tokens lead from one cursor to another, and which are greedy
there. -/
structure Forest.Covers (f : Forest parts) (c c' : Cursor) : Prop where
  admissible : f.Admissible true
  greedy : f.Greedy c'.rest
  takes : Takes f.yield c c'

/-- A derivation covers what its parts cover, if the production is allowed and takes a token. -/
theorem ParseTree.Covers.node {p : Production s parts} {f : Forest parts} (hp : Allowed true s p f)
    (hparts : areOptional parts = false) (hf : f.Covers c c') : (ParseTree.node p f).Covers c c' :=
  ⟨⟨hp, hf.admissible⟩, ⟨fun h => Bool.noConfusion (hparts.symm.trans h), hf.greedy⟩, hf.takes⟩

/-- An optional part is empty where the next token does not start it. -/
theorem ParseTree.Covers.absent {p : Production s []} (hp : Allowed true s p .nil)
    (h : ∀ token ∈ c.rest.head?, s.starts token.kind = false) :
    (ParseTree.node p .nil).Covers c c :=
  ⟨⟨hp, trivial⟩, ⟨fun _ => h, trivial⟩, .refl c⟩

theorem Forest.Covers.nil : Forest.nil.Covers c c :=
  ⟨trivial, trivial, .refl c⟩

theorem Forest.Covers.leaf {token : Token} (h : token.kind = kind) {f : Forest parts}
    (htoken : Takes [token] c c₁) (hf : f.Covers c₁ c') : (Forest.leaf token h f).Covers c c' :=
  ⟨hf.admissible, hf.greedy, htoken.trans hf.takes⟩

theorem Forest.Covers.sub {t : ParseTree x} {f : Forest parts} (ht : t.Covers c c₁)
    (hf : f.Covers c₁ c') : (Forest.sub t f).Covers c c' :=
  ⟨⟨ht.admissible, hf.admissible⟩, ⟨hf.takes.rest ▸ ht.greedy, hf.greedy⟩, ht.takes.trans hf.takes⟩

/-- A derivation gives no tokens back. -/
theorem ParseTree.Covers.length_le {t : ParseTree s} (h : t.Covers c c') :
    c'.rest.length ≤ c.rest.length := by
  rw [h.takes.length]
  omega

/-- A derivation of a symbol that cannot be empty comes with a token that starts it. -/
theorem ParseTree.Covers.head {t : ParseTree s} (h : t.Covers c c') (hs : s.isOptional = false) :
    ∃ token, c.rest.head? = some token ∧ s.starts token.kind = true := by
  cases hyield : t.yield with
  | nil =>
    rw [t.isOptional_of_yield hyield] at hs
    cases hs
  | cons token tokens =>
    have htakes := h.takes
    rw [hyield] at htakes
    exact ⟨token, htakes.head?, t.starts_of_yield hyield⟩

/-- A class of tokens of which none starts a symbol refuses the first token of its derivation. -/
theorem ParseTree.Covers.head_eq_none {t : ParseTree s} (h : t.Covers c c') (hs : s.isOptional = false)
    {σ : Type} {f : Token → Option σ}
    (hf : ∀ token : Token, s.starts token.kind = true → f token = none) :
    ∀ token ∈ c.rest.head?, f token = none := by
  obtain ⟨token, hhead, hstarts⟩ := h.head hs
  intro other hother
  rw [hhead] at hother
  cases hother
  exact hf token hstarts

/-! ### Taking derivations apart -/

/-- A derivation that a parser has to find: its tokens are within the bound on nesting. -/
structure ParseTree.Fits (bound : Nat) (t : ParseTree s) (c c' : Cursor) : Prop
    extends t.Covers c c' where
  small : c.rest.length ≤ bound

/-- Derivations that end a derivation that a parser has to find. -/
structure Forest.Fits (bound : Nat) (f : Forest parts) (c c' : Cursor) : Prop
    extends f.Covers c c' where
  small : c.rest.length ≤ bound

theorem ParseTree.Fits.mono {t : ParseTree s} (h : t.Fits n c c') (hn : n ≤ bound) :
    t.Fits bound c c' :=
  ⟨h.toCovers, Nat.le_trans h.small hn⟩

theorem Forest.Fits.mono {f : Forest parts} (h : f.Fits n c c') (hn : n ≤ bound) :
    f.Fits bound c c' :=
  ⟨h.toCovers, Nat.le_trans h.small hn⟩

/-- A derivation that fits starts with an allowed production, and its parts fit. -/
theorem ParseTree.Fits.exists_node {t : ParseTree s} (h : t.Fits bound c c') :
    ∃ parts, ∃ p : Production s parts, ∃ f : Forest parts,
      t = .node p f ∧ Allowed true s p f ∧ f.Fits bound c c' := by
  cases t with
  | node p f =>
    exact ⟨_, p, f, rfl, h.admissible.1, ⟨h.admissible.2, h.greedy.2, h.takes⟩, h.small⟩

/-- Before an empty part stands no token that starts it. -/
theorem ParseTree.Fits.starts_eq_false {p : Production s []} {f : Forest []}
    (h : (ParseTree.node p f).Fits bound c c') :
    ∀ token ∈ c'.rest.head?, s.starts token.kind = false :=
  h.greedy.1 rfl

theorem Forest.Fits.eq_nil {f : Forest []} (h : f.Fits bound c c') : f = .nil ∧ c = c' := by
  cases f with
  | nil => exact ⟨rfl, h.takes.eq_of_nil.symm⟩

/-- A token takes one off the bound. -/
theorem Forest.Fits.exists_leaf {f : Forest (.token kind :: parts)} (h : f.Fits bound c c') :
    ∃ token, ∃ hkind : token.kind = kind, ∃ (f' : Forest parts) (c₁ : Cursor),
      f = .leaf token hkind f' ∧ Takes [token] c c₁ ∧ f'.Fits (bound - 1) c₁ c' := by
  cases f with
  | leaf token hkind f =>
    obtain ⟨c₁, htoken, hf⟩ := takes_cons.mp h.takes
    have hlength := htoken.length_lt
    have hsmall := h.small
    exact ⟨token, hkind, f, c₁, rfl, htoken, ⟨h.admissible, h.greedy, hf⟩, by omega⟩

theorem Forest.Fits.exists_sub {f : Forest (.symbol x :: parts)} (h : f.Fits bound c c') :
    ∃ (t : ParseTree x) (f' : Forest parts) (c₁ : Cursor),
      f = .sub t f' ∧ t.Fits bound c c₁ ∧ f'.Fits bound c₁ c' := by
  cases f with
  | sub t f =>
    obtain ⟨c₁, ht, hf⟩ := takes_append.mp h.takes
    have hcovers : t.Covers c c₁ := ⟨h.admissible.1, hf.rest ▸ h.greedy.1, ht⟩
    exact ⟨t, f, c₁, rfl, ⟨hcovers, h.small⟩, ⟨h.admissible.2, h.greedy.2, hf⟩,
      Nat.le_trans hcovers.length_le h.small⟩

/-- The production of a level that groups to the right asks for an operand. -/
theorem areOptional_right (l : RightLevel) :
    areOptional [.symbol l.operand, .symbol (.rightRest l)] = false := by
  cases l <;> rfl

/-- The production of a level that groups to the left asks for an operand. -/
theorem areOptional_left (l : LeftLevel) :
    areOptional [.symbol l.operand, .symbol (.leftRest l)] = false := by
  cases l <;> rfl

end Derivations

open Derivations

namespace Grammar

/-- A parser goes over exactly the admissible and greedy derivations of a symbol. All of them are
found if the bound on nesting is at least the number of tokens. -/
structure Parses {α : Type} (s : Symbol) (value : Meaning s → α) (bound : Nat) (p : Parser α) :
    Prop where
  sound : ∀ {c c' : Cursor} {a : α}, p c = .ok (a, c') →
    ∃ t : ParseTree s, t.Covers c c' ∧ value t.meaning = a
  complete : ∀ {c c' : Cursor} (t : ParseTree s), t.Fits bound c c' → p c = .ok (value t.meaning, c')

/-! ### The nodes that the parser makes

The grammar puts its meaning together by itself. The functions that the parser has for it give the
same: they differ in that the parser folds over operands and suffixes and the grammar recurses. -/

/-- An operator stands for the mark that the grammar spells it with. -/
theorem mark_eq_spelling (op : BinaryOp) : op.mark = spelling op := by
  cases op with
  | relation r => cases r <;> rfl
  | arithmetic op => cases op <;> rfl
  | concat | or | and => rfl

/-- The parser builds an operation as the grammar does, its left operand on the left. -/
theorem binary_eq_operation (op : BinaryOp) (left right : Expr) :
    binary op left right = operation op left right :=
  rfl

/-- Grouped to the left, each operator has everything in front of it on its left. -/
theorem leftGrouped_eq_leftOperations (others : List (BinaryOp × Expr)) :
    ∀ first, leftGrouped ⟨first, others⟩ = leftOperations first others := by
  induction others with
  | nil => exact fun _ => rfl
  | cons pair others ih =>
    intro first
    rw [leftOperations, ← binary_eq_operation]
    exact ih _

/-- What the parser keeps of a suffix, in the grammar's terms. -/
def Suffix.said : Suffix → Derivations.Suffix
  | .call arguments stop => .call arguments stop
  | .lookup key stop => .lookup key stop

/-- Applied from the first on, each suffix is behind everything in front of it. -/
theorem foldl_applySuffix_eq_suffixed (suffixes : List Suffix) :
    ∀ e, suffixes.foldl applySuffix e = suffixed e (suffixes.map Suffix.said) := by
  induction suffixes with
  | nil => exact fun _ => rfl
  | cons suffix suffixes ih =>
    intro e
    rw [List.foldl_cons, ih]
    cases suffix <;> rfl

/-! ### Operators of a level -/

/-- Operators with marks of their own are told from the next token. -/
theorem operatorIn_eq_some {ops : List BinaryOp}
    (hops : ∀ op ∈ ops, ∀ op' ∈ ops,
      TokenKind.mark (spelling op) = .mark (spelling op') → op = op')
    {token : Token} {op : BinaryOp} :
    operatorIn ops token = some op ↔ op ∈ ops ∧ token.kind = .mark (spelling op) := by
  have hkind : ∀ op : BinaryOp,
      token.content = .mark op.mark ↔ token.kind = .mark (spelling op) := by
    intro op
    rw [mark_eq_spelling]
    unfold Token.kind
    cases token.content <;> simp [TokenContent.kind]
  unfold operatorIn
  constructor
  · intro h
    exact ⟨List.mem_of_find?_eq_some h, (hkind op).mp (by simpa using List.find?_some h)⟩
  · rintro ⟨hmem, hop⟩
    -- The search gives the first operator of the mark; no two operators of a level share one.
    cases hfind : ops.find? fun op => token.content = .mark op.mark with
    | none =>
      have hne := List.find?_eq_none.mp hfind op hmem
      simp [(hkind op).mpr hop] at hne
    | some op' =>
      have hop' := (hkind op').mp (by simpa using List.find?_some hfind)
      rw [hops op' (List.mem_of_find?_eq_some hfind) op hmem (hop'.symm.trans hop)]

/-- A token is no operator of a level just when its mark is none of those. -/
theorem operatorIn_eq_none {ops : List BinaryOp} {token : Token} :
    operatorIn ops token = none ↔ startsOperator ops token.kind = false := by
  unfold operatorIn startsOperator Token.kind
  rw [List.find?_eq_none, List.any_eq_false]
  cases token.content <;> simp [TokenContent.kind, mark_eq_spelling]

/-- No token starts an item. -/
theorem head_bind_eq_none {σ : Type} {f : Token → Option σ} {rest : List Token} :
    rest.head?.bind f = none ↔ ∀ token ∈ rest.head?, f token = none := by
  cases rest.head? with
  | none => exact ⟨fun _ => nofun, fun _ => rfl⟩
  | some token => exact ⟨fun h _ hmem => Option.some.inj hmem ▸ h, fun h => h token rfl⟩

/-- A link is an operator and the operand behind it. -/
theorem link_eq_ok {σ α : Type} {operator : Token → Option σ} {expected : String}
    {operand : Parser α} {pair : σ × α} {c c' : Cursor} :
    link operator expected operand c = .ok (pair, c') ↔
      ∃ token c₁, operator token = some pair.1 ∧ Takes [token] c c₁ ∧
        operand c₁ = .ok (pair.2, c') := by
  unfold link
  simp only [bind_eq_ok, expect_eq_ok, pure_eq_ok]
  constructor
  · rintro ⟨op', c₁, ⟨token, hop, htoken⟩, a', c₂, ha, rfl, rfl⟩
    exact ⟨token, c₁, hop, htoken, ha⟩
  · rintro ⟨token, c₁, hop, htoken, ha⟩
    exact ⟨pair.1, c₁, ⟨token, hop, htoken⟩, pair.2, c', ha, rfl, rfl⟩

section Levels

variable {bound : Nat} {operand : Parser Expr}

/-- A link takes its operator at least. -/
theorem consumes_link {σ α : Type} {s : Symbol} {value : Meaning s → α}
    {operator : Token → Option σ} {expected : String} {operand : Parser α}
    (h : Parses s value bound operand) :
    Consumes operator fun _ : σ => link operator expected operand := by
  intro _ c a c' _ hlink
  obtain ⟨token, c₁, -, htoken, ha⟩ := link_eq_ok.mp hlink
  obtain ⟨t, ht, -⟩ := h.sound ha
  have hlength := ht.length_le
  exact Nat.lt_of_le_of_lt hlength htoken.length_lt

/-- No two operators of a level that groups to the left are spelled alike. -/
theorem leftOps_unique (l : LeftLevel) : ∀ op ∈ l.ops, ∀ op' ∈ l.ops,
    TokenKind.mark (spelling op) = .mark (spelling op') → op = op' := by
  cases l <;> decide

/-- Operands behind the first one of a level that groups to the left. -/
theorem covers_of_leftRuns {l : LeftLevel} (h : Parses l.operand l.operandExpr bound operand)
    {c c' : Cursor} {others : List (BinaryOp × Expr)}
    (hruns : Runs (operatorIn l.ops) (fun _ => link (operatorIn l.ops) "operator" operand) c others
      c') : ∃ t : ParseTree (.leftRest l), t.Covers c c' ∧ t.meaning = others := by
  induction hruns with
  | stop hstop =>
    exact ⟨.node .absent .nil, .absent trivial fun token htoken =>
      operatorIn_eq_none.mp (head_bind_eq_none.mp hstop token htoken), rfl⟩
  | @step c c₂ c' _ pair _ _ hlink _ ih =>
    obtain ⟨token, c₁, hop, htoken, ha⟩ := link_eq_ok.mp hlink
    obtain ⟨hmem, hkind⟩ := (operatorIn_eq_some (leftOps_unique l)).mp hop
    obtain ⟨t, ht, hvalue⟩ := h.sound ha
    obtain ⟨rest, hrest, rfl⟩ := ih
    refine ⟨.node (.present _ hmem) (.leaf token hkind (.sub t (.sub rest .nil))),
      .node trivial rfl (.leaf hkind htoken (.sub ht (.sub hrest .nil))), ?_⟩
    exact congrArg (fun e => (pair.1, e) :: rest.meaning) hvalue

/-- The parser follows the links of a derivation of a level that groups to the left. -/
theorem leftRuns_of_fits {l : LeftLevel} (h : Parses l.operand l.operandExpr bound operand)
    (t : ParseTree (.leftRest l)) {c c' : Cursor} (ht : t.Fits bound c c') :
    Runs (operatorIn l.ops) (fun _ => link (operatorIn l.ops) "operator" operand) c t.meaning
      c' := by
  obtain ⟨_, p, f, rfl, -, hf⟩ := ht.exists_node
  cases p with
  | absent =>
    obtain ⟨rfl, rfl⟩ := hf.eq_nil
    -- An absent rest says of the next token that no operator of the level starts there.
    exact .stop (head_bind_eq_none.mpr fun token htoken =>
      operatorIn_eq_none.mpr (ht.starts_eq_false token htoken))
  | present op hmem =>
    obtain ⟨token, hkind, f, c₁, rfl, htoken, hf⟩ := hf.exists_leaf
    obtain ⟨next, f, c₂, rfl, hnext, hf⟩ := hf.exists_sub
    obtain ⟨rest, f, c₃, rfl, hrest, hf⟩ := hf.exists_sub
    obtain ⟨rfl, rfl⟩ := hf.eq_nil
    have hop := (operatorIn_eq_some (leftOps_unique l)).mpr ⟨hmem, hkind⟩
    have ha := h.complete next (hnext.mono (Nat.sub_le _ _))
    have hlength := htoken.length_lt
    have hlength' := hnext.length_le
    refine .step (by rw [htoken.head?]; exact hop) (link_eq_ok.mpr ⟨token, c₁, hop, htoken, ha⟩) ?_
    -- Every token taken leaves one less for the rest, which is how the bound goes down.
    exact leftRuns_of_fits h rest (hrest.mono (Nat.sub_le _ _))
termination_by c.rest.length

/-- A chain is an operand and as many links as there are. -/
theorem chain_eq_ok {σ α : Type} {operator : Token → Option σ} {expected : String}
    {operand : Parser α} (hconsumes : Consumes operator fun _ => link operator expected operand)
    {chained : Chain σ α} {c c' : Cursor} :
    chain operator expected operand c = .ok (chained, c') ↔
      ∃ c₁, operand c = .ok (chained.first, c₁) ∧
        Runs operator (fun _ => link operator expected operand) c₁ chained.others c' := by
  unfold chain
  simp only [bind_eq_ok, pure_eq_ok, many_eq_ok hconsumes]
  constructor
  · rintro ⟨first, c₁, hfirst, others, c₂, hothers, rfl, rfl⟩
    exact ⟨c₁, hfirst, hothers⟩
  · rintro ⟨c₁, hfirst, hothers⟩
    exact ⟨chained.first, c₁, hfirst, chained.others, c', hothers, rfl, rfl⟩

/-- A level that groups to the left. -/
theorem parses_leftLevel {l : LeftLevel} (h : Parses l.operand l.operandExpr bound operand) :
    Parses (.left l) id bound (leftLevel l.ops operand) where
  sound := by
    intro c c' e hok
    obtain ⟨chained, c₁, hchain, hpure⟩ := bind_eq_ok.mp hok
    obtain ⟨rfl, rfl⟩ := pure_eq_ok.mp hpure
    obtain ⟨c₂, hfirst, hruns⟩ := (chain_eq_ok (consumes_link h)).mp hchain
    obtain ⟨t, ht, hvalue⟩ := h.sound hfirst
    obtain ⟨others, hothers, hmeaning⟩ := covers_of_leftRuns h hruns
    refine ⟨.node .only (.sub t (.sub others .nil)),
      .node trivial (areOptional_left l) (.sub ht (.sub hothers .nil)), ?_⟩
    -- The only place where the loop's grouping meets the grammar's.
    show leftOperations (l.operandExpr t.meaning) others.meaning = leftGrouped chained
    rw [hvalue, hmeaning, ← leftGrouped_eq_leftOperations]
  complete := by
    intro c c' t ht
    obtain ⟨_, p, f, rfl, -, hf⟩ := ht.exists_node
    cases p with
    | only =>
      obtain ⟨first, f, c₁, rfl, hfirst, hf⟩ := hf.exists_sub
      obtain ⟨others, f, c₂, rfl, hothers, hf⟩ := hf.exists_sub
      obtain ⟨rfl, rfl⟩ := hf.eq_nil
      have hok : chain (operatorIn l.ops) "operator" operand c =
          .ok (⟨l.operandExpr first.meaning, others.meaning⟩, c₂) :=
        (chain_eq_ok (consumes_link h)).mpr
          ⟨c₁, h.complete first hfirst, leftRuns_of_fits h others hothers⟩
      exact bind_eq_ok.mpr ⟨_, c₂, hok, pure_eq_ok.mpr
        ⟨leftGrouped_eq_leftOperations others.meaning (l.operandExpr first.meaning), rfl⟩⟩

theorem operatorIn_singleton_eq_none {op : BinaryOp} {token : Token} :
    operatorIn [op] token = none ↔ (token.kind == .mark (spelling op)) = false := by
  rw [operatorIn_eq_none]
  simp [startsOperator]

/-- Operands behind the first one make the derivation of a level that groups to the right. -/
theorem covers_of_rightRuns {l : RightLevel} (h : Parses l.operand l.operandExpr bound operand)
    {c₁ c' : Cursor} {others : List (BinaryOp × Expr)}
    (hruns : Runs (operatorIn [l.op]) (fun _ => link (operatorIn [l.op]) "operator" operand) c₁
      others c') :
    ∀ {c : Cursor} (t : ParseTree l.operand), t.Covers c c₁ →
      ∃ u : ParseTree (.right l), u.Covers c c' ∧
        u.meaning = rightGroupedFrom (l.operandExpr t.meaning) others := by
  -- The tree of the first operand is carried along, as the node over it takes in the whole rest.
  induction hruns with
  | stop hstop =>
    intro c t ht
    exact ⟨.node .only (.sub t (.sub (.node .absent .nil) .nil)),
      .node trivial (areOptional_right l) (.sub ht (.sub (.absent trivial fun token htoken =>
        operatorIn_singleton_eq_none.mp (head_bind_eq_none.mp hstop token htoken)) .nil)), rfl⟩
  | @step c₁ c₃ c' _ pair others _ hlink _ ih =>
    intro c t ht
    obtain ⟨token, c₂, hop, htoken, ha⟩ := link_eq_ok.mp hlink
    obtain ⟨hmem, hkind⟩ := (operatorIn_eq_some (by simp)).mp hop
    rw [List.mem_singleton] at hmem
    obtain ⟨next, hnext, hvalue⟩ := h.sound ha
    obtain ⟨rest, hrest, hmeaning⟩ := ih next hnext
    refine ⟨.node .only (.sub t (.sub (.node .present
        (.leaf token (hmem ▸ hkind) (.sub rest .nil))) .nil)),
      .node trivial (areOptional_right l)
        (.sub ht (.sub (.node trivial rfl (.leaf _ htoken (.sub hrest .nil))) .nil)), ?_⟩
    show operation l.op (l.operandExpr t.meaning) rest.meaning =
      binary pair.1 (l.operandExpr t.meaning) (rightGroupedFrom pair.2 others)
    rw [hmeaning, hvalue, hmem, binary_eq_operation]

/-- The parser follows the links of a derivation of a level that groups to the right, and groups
them from behind. -/
theorem rightRuns_of_fits {l : RightLevel} (h : Parses l.operand l.operandExpr bound operand)
    (t : ParseTree (.right l)) {c c' : Cursor} (ht : t.Fits bound c c') :
    ∃ first others c₁, operand c = .ok (first, c₁) ∧
      Runs (operatorIn [l.op]) (fun _ => link (operatorIn [l.op]) "operator" operand) c₁ others
        c' ∧ t.meaning = rightGroupedFrom first others := by
  obtain ⟨_, p, f, rfl, -, hf⟩ := ht.exists_node
  cases p with
  | only =>
    obtain ⟨first, f, c₁, rfl, hfirst, hf⟩ := hf.exists_sub
    obtain ⟨rest, f, c₂, rfl, hrest, hf⟩ := hf.exists_sub
    obtain ⟨rfl, rfl⟩ := hf.eq_nil
    have hok := h.complete first hfirst
    have hlength := hfirst.length_le
    -- The right operand is a tree of the same level, so what is a loop to the parser is a recursion
    -- here.
    obtain ⟨_, p, g, rfl, -, hg⟩ := hrest.exists_node
    cases p with
    | absent =>
      obtain ⟨rfl, rfl⟩ := hg.eq_nil
      exact ⟨_, [], _, hok, .stop (head_bind_eq_none.mpr fun token htoken =>
        operatorIn_singleton_eq_none.mpr (hrest.starts_eq_false token htoken)), rfl⟩
    | present =>
      obtain ⟨token, hkind, g, c₃, rfl, htoken, hg⟩ := hg.exists_leaf
      obtain ⟨behind, g, c₄, rfl, hbehind, hg⟩ := hg.exists_sub
      obtain ⟨rfl, rfl⟩ := hg.eq_nil
      have hlength' := htoken.length_lt
      obtain ⟨next, others, c₅, hnext, hruns, hmeaning⟩ :=
        rightRuns_of_fits h behind (hbehind.mono (Nat.sub_le _ _))
      have hop : operatorIn [l.op] token = some l.op :=
        (operatorIn_eq_some (by simp)).mpr ⟨List.mem_singleton_self _, hkind⟩
      refine ⟨_, (l.op, next) :: others, c₁, hok, ?_, ?_⟩
      · exact .step (by rw [htoken.head?]; exact hop)
          (link_eq_ok.mpr ⟨token, c₃, hop, htoken, hnext⟩) hruns
      · show operation l.op (l.operandExpr first.meaning) behind.meaning = _
        rw [hmeaning, ← binary_eq_operation]
        rfl
termination_by c.rest.length

/-- A level that groups to the right. -/
theorem parses_rightLevel {l : RightLevel} (h : Parses l.operand l.operandExpr bound operand) :
    Parses (.right l) id bound (rightLevel l.op operand) where
  sound := by
    intro c c' e hok
    obtain ⟨chained, c₁, hchain, hpure⟩ := bind_eq_ok.mp hok
    obtain ⟨rfl, rfl⟩ := pure_eq_ok.mp hpure
    obtain ⟨c₂, hfirst, hruns⟩ := (chain_eq_ok (consumes_link h)).mp hchain
    obtain ⟨t, ht, hvalue⟩ := h.sound hfirst
    obtain ⟨u, hu, hmeaning⟩ := covers_of_rightRuns h hruns t ht
    exact ⟨u, hu, by rw [id, hmeaning, hvalue]; rfl⟩
  complete := by
    intro c c' t ht
    obtain ⟨first, others, c₁, hfirst, hruns, hmeaning⟩ := rightRuns_of_fits h t ht
    have hok : chain (operatorIn [l.op]) "operator" operand c = .ok (⟨first, others⟩, c') :=
      (chain_eq_ok (consumes_link h)).mpr ⟨c₁, hfirst, hruns⟩
    exact bind_eq_ok.mpr ⟨_, c', hok, pure_eq_ok.mpr ⟨hmeaning.symm, rfl⟩⟩

/-- No two relations are spelled alike. -/
theorem relationOps_unique : ∀ op ∈ Derivations.relationOps, ∀ op' ∈ Derivations.relationOps,
    TokenKind.mark (spelling op) = .mark (spelling op') → op = op' := by
  decide

/-- A relation. -/
theorem parses_relation (h : Parses (.left .sum) id bound operand) :
    Parses .relation id bound (relation operand) where
  sound := by
    intro c c' e hok
    obtain ⟨first, c₁, hfirst, hok⟩ := bind_eq_ok.mp hok
    obtain ⟨t, ht, rfl⟩ := h.sound hfirst
    obtain ⟨next, c₂, haccept, hok⟩ := bind_eq_ok.mp hok
    cases next with
    | none =>
      obtain ⟨hnone, rfl⟩ := accept_eq_none.mp haccept
      obtain ⟨rfl, rfl⟩ := pure_eq_ok.mp hok
      exact ⟨.node .only (.sub t (.sub (.node .absent .nil) .nil)),
        .node trivial rfl (.sub ht (.sub (.absent trivial fun token htoken =>
          operatorIn_eq_none.mp (hnone token htoken)) .nil)), rfl⟩
    | some op =>
      obtain ⟨token, hop, htoken⟩ := accept_eq_some.mp haccept
      obtain ⟨hmem, hkind⟩ := (operatorIn_eq_some relationOps_unique).mp hop
      obtain ⟨second, c₃, hsecond, hok⟩ := bind_eq_ok.mp hok
      obtain ⟨u, hu, rfl⟩ := h.sound hsecond
      obtain ⟨rfl, rfl⟩ := pure_eq_ok.mp hok
      exact ⟨.node .only (.sub t (.sub (.node (.present op hmem)
          (.leaf token hkind (.sub u .nil))) .nil)),
        .node trivial rfl
          (.sub ht (.sub (.node trivial rfl (.leaf hkind htoken (.sub hu .nil))) .nil)), rfl⟩
  complete := by
    intro c c' t ht
    obtain ⟨_, p, f, rfl, -, hf⟩ := ht.exists_node
    cases p with
    | only =>
      obtain ⟨first, f, c₁, rfl, hfirst, hf⟩ := hf.exists_sub
      obtain ⟨rest, f, c₂, rfl, hrest, hf⟩ := hf.exists_sub
      obtain ⟨rfl, rfl⟩ := hf.eq_nil
      have hok := h.complete first hfirst
      obtain ⟨_, p, g, rfl, -, hg⟩ := hrest.exists_node
      cases p with
      | absent =>
        obtain ⟨rfl, rfl⟩ := hg.eq_nil
        refine bind_eq_ok.mpr ⟨_, _, hok, bind_eq_ok.mpr ⟨none, _, ?_, rfl⟩⟩
        exact accept_eq_none.mpr ⟨fun token htoken =>
          operatorIn_eq_none.mpr (hrest.starts_eq_false token htoken), rfl⟩
      | present op hmem =>
        obtain ⟨token, hkind, g, c₃, rfl, htoken, hg⟩ := hg.exists_leaf
        obtain ⟨second, g, c₄, rfl, hsecond, hg⟩ := hg.exists_sub
        obtain ⟨rfl, rfl⟩ := hg.eq_nil
        have hop := (operatorIn_eq_some relationOps_unique).mpr ⟨hmem, hkind⟩
        have hok' := h.complete second (hsecond.mono (Nat.sub_le _ _))
        exact bind_eq_ok.mpr ⟨_, _, hok, bind_eq_ok.mpr ⟨_, _,
          accept_eq_some.mpr ⟨token, hop, htoken⟩, bind_eq_ok.mpr ⟨_, _, hok', rfl⟩⟩⟩

/-- A relation with a negation in front, or without. -/
theorem parses_negation (h : Parses .relation id bound operand) :
    Parses .negation id bound (negation operand) where
  sound := by
    intro c c' e hok
    obtain ⟨next, c₁, haccept, hok⟩ := bind_eq_ok.mp hok
    cases next with
    | none =>
      obtain ⟨-, rfl⟩ := accept_eq_none.mp haccept
      obtain ⟨t, ht, rfl⟩ := h.sound hok
      exact ⟨.node .plain (.sub t .nil), .node trivial rfl (.sub ht .nil), rfl⟩
    | some start =>
      obtain ⟨token, hmark, htoken⟩ := accept_eq_some.mp haccept
      obtain ⟨hkind, rfl⟩ := isMark_eq_some.mp hmark
      obtain ⟨inner, c₂, hinner, hok⟩ := bind_eq_ok.mp hok
      obtain ⟨t, ht, rfl⟩ := h.sound hinner
      obtain ⟨rfl, rfl⟩ := pure_eq_ok.mp hok
      exact ⟨.node .negated (.leaf token hkind (.sub t .nil)),
        .node trivial rfl (.leaf hkind htoken (.sub ht .nil)), rfl⟩
  complete := by
    intro c c' t ht
    obtain ⟨_, p, f, rfl, -, hf⟩ := ht.exists_node
    cases p with
    | plain =>
      obtain ⟨inner, f, c₁, rfl, hinner, hf⟩ := hf.exists_sub
      obtain ⟨rfl, rfl⟩ := hf.eq_nil
      refine bind_eq_ok.mpr ⟨none, c, accept_eq_none.mpr ⟨?_, rfl⟩, h.complete inner hinner⟩
      -- No relation starts with `!`, so the parser cannot take the sign for a tree without one.
      refine hinner.head_eq_none rfl fun token hstarts => isMark_eq_none.mpr fun hkind => ?_
      rw [hkind] at hstarts
      cases hstarts
    | negated =>
      obtain ⟨token, hkind, f, c₁, rfl, htoken, hf⟩ := hf.exists_leaf
      obtain ⟨inner, f, c₂, rfl, hinner, hf⟩ := hf.exists_sub
      obtain ⟨rfl, rfl⟩ := hf.eq_nil
      exact bind_eq_ok.mpr ⟨_, _,
        accept_eq_some.mpr ⟨token, isMark_eq_some.mpr ⟨hkind, rfl⟩, htoken⟩,
        bind_eq_ok.mpr ⟨_, _, h.complete inner (hinner.mono (Nat.sub_le _ _)), rfl⟩⟩

/-- A sign in front of an expression is a minus, which is kept, or a plus, which is not. -/
theorem signMark_eq_some {token : Token} {sign : Option Span} :
    signMark token = some sign ↔ (token.kind = .mark .minus ∧ sign = some token.span) ∨
      (token.kind = .mark .plus ∧ sign = none) := by
  unfold signMark Token.kind
  cases token.content with
  | mark m => cases m <;> simp [TokenContent.kind, eq_comm]
  | _ => simp [TokenContent.kind]

/-- A postfix expression with a sign in front, or without. -/
theorem parses_signed (h : Parses .postfixed id bound operand) :
    Parses .signed id bound (signed operand) where
  sound := by
    intro c c' e hok
    obtain ⟨next, c₁, haccept, hok⟩ := bind_eq_ok.mp hok
    cases next with
    | none =>
      obtain ⟨-, rfl⟩ := accept_eq_none.mp haccept
      obtain ⟨t, ht, rfl⟩ := h.sound hok
      exact ⟨.node .plain (.sub t .nil), .node trivial rfl (.sub ht .nil), rfl⟩
    | some sign =>
      obtain ⟨token, hmark, htoken⟩ := accept_eq_some.mp haccept
      rcases signMark_eq_some.mp hmark with ⟨hkind, rfl⟩ | ⟨hkind, rfl⟩
      · obtain ⟨inner, c₂, hinner, hok⟩ := bind_eq_ok.mp hok
        obtain ⟨t, ht, rfl⟩ := h.sound hinner
        obtain ⟨rfl, rfl⟩ := pure_eq_ok.mp hok
        exact ⟨.node .negative (.leaf token hkind (.sub t .nil)),
          .node trivial rfl (.leaf hkind htoken (.sub ht .nil)), rfl⟩
      · obtain ⟨t, ht, rfl⟩ := h.sound hok
        exact ⟨.node .positive (.leaf token hkind (.sub t .nil)),
          .node trivial rfl (.leaf hkind htoken (.sub ht .nil)), rfl⟩
  complete := by
    intro c c' t ht
    obtain ⟨_, p, f, rfl, -, hf⟩ := ht.exists_node
    cases p with
    | plain =>
      obtain ⟨inner, f, c₁, rfl, hinner, hf⟩ := hf.exists_sub
      obtain ⟨rfl, rfl⟩ := hf.eq_nil
      refine bind_eq_ok.mpr ⟨none, c, accept_eq_none.mpr ⟨?_, rfl⟩, h.complete inner hinner⟩
      refine hinner.head_eq_none rfl fun token hstarts => ?_
      cases hsign : signMark token with
      | none => rfl
      | some sign =>
        rcases signMark_eq_some.mp hsign with ⟨hkind, -⟩ | ⟨hkind, -⟩ <;>
          rw [hkind] at hstarts <;> cases hstarts
    | negative =>
      obtain ⟨token, hkind, f, c₁, rfl, htoken, hf⟩ := hf.exists_leaf
      obtain ⟨inner, f, c₂, rfl, hinner, hf⟩ := hf.exists_sub
      obtain ⟨rfl, rfl⟩ := hf.eq_nil
      exact bind_eq_ok.mpr ⟨_, _,
        accept_eq_some.mpr ⟨token, signMark_eq_some.mpr (.inl ⟨hkind, rfl⟩), htoken⟩,
        bind_eq_ok.mpr ⟨_, _, h.complete inner (hinner.mono (Nat.sub_le _ _)), rfl⟩⟩
    | positive =>
      obtain ⟨token, hkind, f, c₁, rfl, htoken, hf⟩ := hf.exists_leaf
      obtain ⟨inner, f, c₂, rfl, hinner, hf⟩ := hf.exists_sub
      obtain ⟨rfl, rfl⟩ := hf.eq_nil
      exact bind_eq_ok.mpr ⟨_, _,
        accept_eq_some.mpr ⟨token, signMark_eq_some.mpr (.inr ⟨hkind, rfl⟩), htoken⟩,
        h.complete inner (hinner.mono (Nat.sub_le _ _))⟩

/-- All levels of operators. -/
theorem parses_operators (h : Parses .postfixed id bound operand) :
    Parses .expression id bound (operators operand) := by
  have hpower : Parses (.left .power) id bound _ := parses_leftLevel (parses_signed h)
  have hproduct : Parses (.left .product) id bound _ := parses_leftLevel hpower
  have hsum : Parses (.left .sum) id bound _ := parses_leftLevel hproduct
  have hand : Parses (.right .and) id bound _ :=
    parses_rightLevel (parses_negation (parses_relation hsum))
  have hor : Parses (.right .or) id bound _ := parses_rightLevel hand
  exact parses_rightLevel hor

end Levels

/-! ### Items between commas -/

section Items

variable {bound : Nat} {k : ItemKind} {item : Parser (ItemMeaning k)} {closing : Mark}

/-- Items behind commas that were read are derived, each one with its comma. -/
theorem covers_of_itemRuns (h : Parses (.item k) id bound item) {expected : String}
    {c c' : Cursor} {others : List (Span × ItemMeaning k)}
    (hruns : Runs (isMark .comma) (fun _ => link (isMark .comma) expected item) c others c') :
    ∃ t : ParseTree (.itemsRest k), t.Covers c c' ∧ t.meaning = others.map Prod.snd := by
  induction hruns with
  | stop hstop =>
    exact ⟨.node .absent .nil, .absent trivial fun token htoken =>
      isMark_eq_none_iff.mp (head_bind_eq_none.mp hstop token htoken), rfl⟩
  | @step c c₂ c' _ pair _ _ hlink _ ih =>
    obtain ⟨token, c₁, hcomma, htoken, ha⟩ := link_eq_ok.mp hlink
    obtain ⟨hkind, -⟩ := isMark_eq_some.mp hcomma
    obtain ⟨t, ht, hvalue⟩ := h.sound ha
    obtain ⟨rest, hrest, hmeaning⟩ := ih
    refine ⟨.node .present (.leaf token hkind (.sub t (.sub rest .nil))),
      .node trivial rfl (.leaf hkind htoken (.sub ht (.sub hrest .nil))), ?_⟩
    exact congr (congrArg List.cons hvalue) hmeaning

/-- The parser follows a derivation of items behind commas. -/
theorem itemRuns_of_fits (h : Parses (.item k) id bound item) {expected : String}
    (t : ParseTree (.itemsRest k)) {c c' : Cursor} (ht : t.Fits bound c c') :
    ∃ others : List (Span × ItemMeaning k),
      Runs (isMark .comma) (fun _ => link (isMark .comma) expected item) c others c' ∧
        t.meaning = others.map Prod.snd := by
  obtain ⟨_, p, f, rfl, -, hf⟩ := ht.exists_node
  cases p with
  | absent =>
    obtain ⟨rfl, rfl⟩ := hf.eq_nil
    exact ⟨[], .stop (head_bind_eq_none.mpr fun token htoken =>
      isMark_eq_none_iff.mpr (ht.starts_eq_false token htoken)), rfl⟩
  | present =>
    obtain ⟨token, hkind, f, c₁, rfl, htoken, hf⟩ := hf.exists_leaf
    obtain ⟨next, f, c₂, rfl, hnext, hf⟩ := hf.exists_sub
    obtain ⟨rest, f, c₃, rfl, hrest, hf⟩ := hf.exists_sub
    obtain ⟨rfl, rfl⟩ := hf.eq_nil
    have hcomma := isMark_eq_some.mpr ⟨hkind, rfl⟩
    have ha := h.complete next (hnext.mono (Nat.sub_le _ _))
    have hlength := htoken.length_lt
    have hlength' := hnext.length_le
    obtain ⟨others, hruns, hmeaning⟩ :=
      itemRuns_of_fits h rest (hrest.mono (Nat.sub_le _ _))
    refine ⟨(token.span, next.meaning) :: others, ?_, congrArg (List.cons next.meaning) hmeaning⟩
    exact .step (by rw [htoken.head?]; exact hcomma)
      (link_eq_ok.mpr ⟨token, c₁, hcomma, htoken, ha⟩) hruns
termination_by c.rest.length

/-- Items between commas, at least one. -/
theorem itemChain_sound (h : Parses (.item k) id bound item) {expected : String} {c c' : Cursor}
    {chained : Chain Span (ItemMeaning k)}
    (hok : chain (isMark .comma) expected item c = .ok (chained, c')) :
    ∃ (first : ParseTree (.item k)) (others : ParseTree (.itemsRest k)) (c₁ : Cursor),
      first.Covers c c₁ ∧ others.Covers c₁ c' ∧ first.meaning = chained.first ∧
        others.meaning = chained.others.map Prod.snd := by
  obtain ⟨c₁, hfirst, hruns⟩ := (chain_eq_ok (consumes_link h)).mp hok
  obtain ⟨first, ht, hvalue⟩ := h.sound hfirst
  obtain ⟨others, hothers, hmeaning⟩ := covers_of_itemRuns h hruns
  exact ⟨first, others, c₁, ht, hothers, hvalue, hmeaning⟩

theorem itemChain_complete (h : Parses (.item k) id bound item) (expected : String)
    {c c₁ c' : Cursor} {first : ParseTree (.item k)} {others : ParseTree (.itemsRest k)}
    (hfirst : first.Fits bound c c₁) (hothers : others.Fits bound c₁ c') :
    ∃ chained, chain (isMark .comma) expected item c = .ok (chained, c') ∧
      chained.first = first.meaning ∧ chained.others.map Prod.snd = others.meaning := by
  obtain ⟨links, hruns, hmeaning⟩ := itemRuns_of_fits h others hothers
  exact ⟨⟨first.meaning, links⟩,
    (chain_eq_ok (consumes_link h)).mpr ⟨c₁, h.complete first hfirst, hruns⟩, rfl, hmeaning.symm⟩

/-- Items between commas and the closing mark, with which no item starts. -/
theorem commaList_sound (h : Parses (.item k) id bound item)
    (hclosing : k.starts (.mark closing) = false) {c c' : Cursor}
    {r : List (ItemMeaning k) × Span} (hok : commaList item closing c = .ok (r, c')) :
    ∃ (t : ParseTree (.items k)) (stop : Token) (c₁ : Cursor), t.Covers c c₁ ∧
      stop.kind = .mark closing ∧ Takes [stop] c₁ c' ∧ r = (t.meaning, stop.span) := by
  obtain ⟨next, c₁, haccept, hok⟩ := bind_eq_ok.mp hok
  cases next with
  | some span =>
    obtain ⟨stop, hmark, htakes⟩ := accept_eq_some.mp haccept
    obtain ⟨hkind, rfl⟩ := isMark_eq_some.mp hmark
    obtain ⟨rfl, rfl⟩ := pure_eq_ok.mp hok
    have hends : ∀ token ∈ c.rest.head?, k.starts token.kind = false := by
      intro token htoken
      rw [htakes.head?] at htoken
      cases htoken
      rw [hkind]
      exact hclosing
    exact ⟨.node .absent .nil, stop, c, .absent trivial hends, hkind, htakes, rfl⟩
  | none =>
    obtain ⟨-, rfl⟩ := accept_eq_none.mp haccept
    obtain ⟨chained, c₂, hchain, hok⟩ := bind_eq_ok.mp hok
    obtain ⟨span, c₃, hstop, hok⟩ := bind_eq_ok.mp hok
    obtain ⟨stop, ⟨hkind, rfl⟩, htakes⟩ := mark_eq_ok.mp hstop
    obtain ⟨rfl, rfl⟩ := pure_eq_ok.mp hok
    obtain ⟨first, others, c₁, hfirst, hothers, hvalue, hmeaning⟩ := itemChain_sound h hchain
    refine ⟨.node .present (.sub first (.sub others .nil)), stop, c₂,
      .node trivial rfl (.sub hfirst (.sub hothers .nil)), hkind, htakes, ?_⟩
    exact congrArg (·, stop.span) (congr (congrArg List.cons hvalue) hmeaning).symm

/-- The parser follows a derivation of items up to the closing mark, which starts no item. -/
theorem commaList_complete (h : Parses (.item k) id bound item)
    (hclosing : k.starts (.mark closing) = false) {c c₁ c' : Cursor}
    (t : ParseTree (.items k)) {stop : Token} (ht : t.Fits bound c c₁)
    (hkind : stop.kind = .mark closing) (hstop : Takes [stop] c₁ c') :
    commaList item closing c = .ok ((t.meaning, stop.span), c') := by
  obtain ⟨_, p, f, rfl, -, hf⟩ := ht.exists_node
  cases p with
  | absent =>
    obtain ⟨rfl, rfl⟩ := hf.eq_nil
    exact bind_eq_ok.mpr ⟨_, _,
      accept_eq_some.mpr ⟨stop, isMark_eq_some.mpr ⟨hkind, rfl⟩, hstop⟩, rfl⟩
  | present =>
    obtain ⟨first, f, c₂, rfl, hfirst, hf⟩ := hf.exists_sub
    obtain ⟨others, f, c₃, rfl, hothers, hf⟩ := hf.exists_sub
    obtain ⟨rfl, rfl⟩ := hf.eq_nil
    obtain ⟨chained, hchain, hvalue, hmeaning⟩ := itemChain_complete h
      (TokenKind.description (.mark .comma)) hfirst hothers
    -- The parser looks for the closing mark first, which no item of the list may start with.
    have hnone : ∀ token ∈ c.rest.head?, isMark closing token = none := by
      refine hfirst.head_eq_none rfl fun token htoken => isMark_eq_none.mpr fun hmark => ?_
      rw [hmark] at htoken
      exact Bool.false_ne_true (hclosing.symm.trans htoken)
    refine bind_eq_ok.mpr ⟨none, c, accept_eq_none.mpr ⟨hnone, rfl⟩, ?_⟩
    refine bind_eq_ok.mpr ⟨chained, c₃, hchain, ?_⟩
    refine bind_eq_ok.mpr ⟨_, c', mark_eq_ok.mpr ⟨stop, ⟨hkind, rfl⟩, hstop⟩, ?_⟩
    refine pure_eq_ok.mpr ⟨?_, rfl⟩
    rw [hvalue, hmeaning]
    rfl

end Items

/-! ### Primary and postfix expressions -/

section Nested

variable {bound : Nat} {expr : Parser Expr} {block : Parser Block}

/-- An expression and the mark behind it. -/
theorem closed_sound {α : Type} {make : Expr → Span → α} (hexpr : Parses .expression id bound expr)
    {m : Mark} {c c' : Cursor} {a : α}
    (hok : (do let e ← expr; let stop ← mark m; return make e stop : Parser α) c = .ok (a, c')) :
    ∃ (t : ParseTree .expression) (stop : Token) (c₁ : Cursor), t.Covers c c₁ ∧
      stop.kind = .mark m ∧ Takes [stop] c₁ c' ∧ a = make t.meaning stop.span := by
  obtain ⟨_, c₁, hinner, hok⟩ := bind_eq_ok.mp hok
  obtain ⟨_, c₂, hclose, hok⟩ := bind_eq_ok.mp hok
  obtain ⟨rfl, rfl⟩ := pure_eq_ok.mp hok
  obtain ⟨t, ht, rfl⟩ := hexpr.sound hinner
  obtain ⟨stop, ⟨hkind, rfl⟩, hstop⟩ := mark_eq_ok.mp hclose
  exact ⟨t, stop, c₁, ht, hkind, hstop, rfl⟩

/-- The parser follows a derivation of an expression up to its closing mark. -/
theorem closed_complete {α : Type} (make : Expr → Span → α)
    (hexpr : Parses .expression id bound expr) {m : Mark} {c c₁ c' : Cursor}
    {t : ParseTree .expression} {stop : Token} (ht : t.Fits bound c c₁)
    (hkind : stop.kind = .mark m) (hstop : Takes [stop] c₁ c') :
    (do let e ← expr; let stop ← mark m; return make e stop : Parser α) c =
      .ok (make t.meaning stop.span, c') :=
  bind_eq_ok.mpr ⟨_, _, hexpr.complete t ht, bind_eq_ok.mpr ⟨_, _,
    mark_eq_ok.mpr ⟨stop, ⟨hkind, rfl⟩, hstop⟩, rfl⟩⟩

theorem parses_expressionItem (hexpr : Parses .expression id bound expr) :
    Parses (.item .expression) id bound expr where
  sound := by
    intro c c' e hok
    obtain ⟨t, ht, rfl⟩ := hexpr.sound hok
    exact ⟨.node .only (.sub t .nil), .node trivial rfl (.sub ht .nil), rfl⟩
  complete := by
    intro c c' t ht
    obtain ⟨_, p, f, rfl, -, hf⟩ := ht.exists_node
    cases p with
    | only =>
      obtain ⟨e, f, c₁, rfl, he, hf⟩ := hf.exists_sub
      obtain ⟨rfl, rfl⟩ := hf.eq_nil
      exact hexpr.complete e he

theorem parses_entry (hexpr : Parses .expression id bound expr) :
    Parses (.item .entry) id bound (entry expr) where
  sound := by
    intro c c' e hok
    obtain ⟨key, c₁, hkey, hok⟩ := bind_eq_ok.mp hok
    obtain ⟨_, c₂, hcolon, hok⟩ := bind_eq_ok.mp hok
    obtain ⟨value, c₃, hvalue, hok⟩ := bind_eq_ok.mp hok
    obtain ⟨rfl, rfl⟩ := pure_eq_ok.mp hok
    obtain ⟨t, ht, rfl⟩ := hexpr.sound hkey
    obtain ⟨token, ⟨hkind, -⟩, htoken⟩ := mark_eq_ok.mp hcolon
    obtain ⟨u, hu, rfl⟩ := hexpr.sound hvalue
    exact ⟨.node .only (.sub t (.leaf token hkind (.sub u .nil))),
      .node trivial rfl (.sub ht (.leaf hkind htoken (.sub hu .nil))), rfl⟩
  complete := by
    intro c c' t ht
    obtain ⟨_, p, f, rfl, -, hf⟩ := ht.exists_node
    cases p with
    | only =>
      obtain ⟨key, f, c₁, rfl, hkey, hf⟩ := hf.exists_sub
      obtain ⟨colon, hkind, f, c₂, rfl, hcolon, hf⟩ := hf.exists_leaf
      obtain ⟨value, f, c₃, rfl, hvalue, hf⟩ := hf.exists_sub
      obtain ⟨rfl, rfl⟩ := hf.eq_nil
      exact bind_eq_ok.mpr ⟨_, _, hexpr.complete key hkey, bind_eq_ok.mpr ⟨_, _,
        mark_eq_ok.mpr ⟨colon, ⟨hkind, rfl⟩, hcolon⟩, bind_eq_ok.mpr ⟨_, _,
          hexpr.complete value (hvalue.mono (Nat.sub_le _ _)), rfl⟩⟩⟩

theorem lastEnd_eq_ok {p : Position} {c c' : Cursor} :
    lastEnd c = .ok (p, c') ↔ c.last = p ∧ c = c' := by
  constructor
  · intro h
    cases h
    exact ⟨rfl, rfl⟩
  · rintro ⟨rfl, rfl⟩
    rfl

/-- Behind a default stands what its last token says. -/
theorem parameter_stop {name assign : Token} {c₁ c₂ c₃ : Cursor} {t : ParseTree .expression}
    (hassign : Takes [assign] c₁ c₂) (ht : t.Covers c₂ c₃) :
    c₃.last = endOf name.span.stop (assign :: (t.yield ++ [])) := by
  rw [ht.takes.last, hassign.last, List.append_nil]
  rfl

/-- A parameter is a name, perhaps with a default; the span of one with a default reaches to its
end. -/
theorem parses_parameter (hexpr : Parses .expression id bound expr) :
    Parses (.item .parameter) id bound (parameter expr) where
  sound := by
    intro c c' p hok
    obtain ⟨⟨_, _⟩, c₁, hname, hok⟩ := bind_eq_ok.mp hok
    obtain ⟨name, ⟨hnameKind, hpair⟩, htoken⟩ := name_eq_ok.mp hname
    cases hpair
    obtain ⟨next, c₂, haccept, hok⟩ := bind_eq_ok.mp hok
    cases next with
    | none =>
      obtain ⟨hnone, rfl⟩ := accept_eq_none.mp haccept
      obtain ⟨rfl, rfl⟩ := pure_eq_ok.mp hok
      exact ⟨.node .only (.leaf name hnameKind (.sub (.node .absent .nil) .nil)),
        .node trivial rfl (.leaf hnameKind htoken (.sub (.absent trivial fun token hhead =>
          isMark_eq_none_iff.mp (hnone token hhead)) .nil)), rfl⟩
    | some _ =>
      obtain ⟨assign, hmark, hassign⟩ := accept_eq_some.mp haccept
      obtain ⟨hkind, -⟩ := isMark_eq_some.mp hmark
      obtain ⟨default, c₃, hdefault, hok⟩ := bind_eq_ok.mp hok
      obtain ⟨t, ht, rfl⟩ := hexpr.sound hdefault
      obtain ⟨stop, c₄, hstop, hok⟩ := bind_eq_ok.mp hok
      obtain ⟨rfl, rfl⟩ := lastEnd_eq_ok.mp hstop
      obtain ⟨rfl, rfl⟩ := pure_eq_ok.mp hok
      refine ⟨.node .only (.leaf name hnameKind (.sub (.node .present
          (.leaf assign hkind (.sub t .nil))) .nil)),
        .node trivial rfl (.leaf hnameKind htoken (.sub (.node trivial rfl
          (.leaf hkind hassign (.sub ht .nil))) .nil)), ?_⟩
      -- The parser ends the parameter's span at the last token taken, the grammar at the default's
      -- last token.
      rw [parameter_stop hassign ht]
      rfl
  complete := by
    intro c c' t ht
    obtain ⟨_, p, f, rfl, -, hf⟩ := ht.exists_node
    cases p with
    | only =>
      obtain ⟨name, hnameKind, f, c₁, rfl, hname, hf⟩ := hf.exists_leaf
      obtain ⟨default, f, c₂, rfl, hdefault, hf⟩ := hf.exists_sub
      obtain ⟨rfl, rfl⟩ := hf.eq_nil
      have hok : Grammar.name "parameter name" c = .ok ((nameOf name, name.span), c₁) :=
        name_eq_ok.mpr ⟨name, ⟨hnameKind, rfl⟩, hname⟩
      obtain ⟨_, p, g, rfl, -, hg⟩ := hdefault.exists_node
      cases p with
      | absent =>
        obtain ⟨rfl, rfl⟩ := hg.eq_nil
        exact bind_eq_ok.mpr ⟨_, _, hok, bind_eq_ok.mpr ⟨none, _, accept_eq_none.mpr
          ⟨fun token hhead => isMark_eq_none_iff.mpr (hdefault.starts_eq_false token hhead), rfl⟩,
          rfl⟩⟩
      | present =>
        obtain ⟨assign, hkind, g, c₃, rfl, hassign, hg⟩ := hg.exists_leaf
        obtain ⟨e, g, c₄, rfl, he, hg⟩ := hg.exists_sub
        obtain ⟨rfl, rfl⟩ := hg.eq_nil
        have hok' := hexpr.complete e (he.mono (by omega))
        refine bind_eq_ok.mpr ⟨_, _, hok, bind_eq_ok.mpr ⟨_, _,
          accept_eq_some.mpr ⟨assign, isMark_eq_some.mpr ⟨hkind, rfl⟩, hassign⟩,
          bind_eq_ok.mpr ⟨_, _, hok', bind_eq_ok.mpr ⟨_, _, rfl, ?_⟩⟩⟩⟩
        rw [parameter_stop hassign he.toCovers]
        rfl

/-- How a primary expression can start. -/
theorem opening_eq_some {token : Token} {o : Opening} :
    opening token = some o ↔
      (token.kind ∈ literalKinds ∧ o = .literal (literalOf token)) ∨
      (token.kind = .mark .lparen ∧ o = .group) ∨
      (token.kind = .mark .lbracket ∧ o = .array token.span) ∨
      (token.kind = .mark .lbrace ∧ o = .dictionary token.span) ∨
      (token.kind = .word .functionWord ∧ o = .function token.span) := by
  unfold opening literalOf Token.kind
  cases token.content with
  | mark m => cases m <;> simp [TokenContent.kind, literalKinds, eq_comm]
  | word w => cases w <;> simp [TokenContent.kind, literalKinds, eq_comm]
  | _ => simp [TokenContent.kind, literalKinds, eq_comm]

section Primary

variable {expr : Parser Expr} {block : Parser Block} {k : ItemKind} {opener closing : Mark}
  {item : Parser (ItemMeaning k)} {token : Token} {c c₁ c' : Cursor}

/-- Items between brackets: what has been taken is a primary expression. -/
theorem bracketed_sound (make : Span → List (ItemMeaning k) → Expr)
    {p : Production .primary [.mark opener, .symbol (.items k), .mark closing]}
    (hmake : ∀ {start stop : Token} (hstart : start.kind = .mark opener) (t : ParseTree (.items k))
      (hstop : stop.kind = .mark closing),
      (ParseTree.node p (.leaf start hstart (.sub t (.leaf stop hstop .nil)))).meaning =
        make (start.span.upTo stop.span) t.meaning)
    (h : Parses (.item k) id bound item) (hclosing : k.starts (.mark closing) = false)
    (hkind : token.kind = .mark opener) (htoken : Takes [token] c c₁) {e : Expr}
    (hok : (do
      let (items, stop) ← commaList item closing
      return make (token.span.upTo stop) items : Parser Expr) c₁ = .ok (e, c')) :
    ∃ t : ParseTree .primary, t.Covers c c' ∧ t.meaning = e := by
  obtain ⟨⟨_, _⟩, c₂, hlist, hok⟩ := bind_eq_ok.mp hok
  obtain ⟨t, stop, c₃, ht, hstopKind, hstop, hpair⟩ := commaList_sound h hclosing hlist
  cases hpair
  obtain ⟨rfl, rfl⟩ := pure_eq_ok.mp hok
  exact ⟨.node p (.leaf token hkind (.sub t (.leaf stop hstopKind .nil))),
    .node trivial rfl (.leaf hkind htoken (.sub ht (.leaf hstopKind hstop .nil))),
    hmake hkind t hstopKind⟩

/-- Behind the word of a function literal stand its parameters and its body. -/
theorem function_sound (hexpr : Parses .expression id bound expr)
    (hblock : Parses .block id bound block) (hkind : token.kind = .word .functionWord)
    (htoken : Takes [token] c c₁) {e : Expr}
    (hok : (do
      let _ ← Grammar.mark .lparen
      let (parameters, _) ← commaList (parameter expr) .rparen
      let body ← block
      return .function (token.span.upTo body.span) parameters body : Parser Expr) c₁ =
        .ok (e, c')) :
    ∃ t : ParseTree .primary, t.Covers c c' ∧ t.meaning = e := by
  obtain ⟨_, c₂, hopen, hok⟩ := bind_eq_ok.mp hok
  obtain ⟨start, ⟨hstartKind, -⟩, hstart⟩ := mark_eq_ok.mp hopen
  obtain ⟨⟨_, _⟩, c₃, hlist, hok⟩ := bind_eq_ok.mp hok
  obtain ⟨t, stop, c₄, ht, hstopKind, hstop, hpair⟩ :=
    commaList_sound (parses_parameter hexpr) rfl hlist
  cases hpair
  obtain ⟨_, c₅, hbody, hok⟩ := bind_eq_ok.mp hok
  obtain ⟨body, hcovers, rfl⟩ := hblock.sound hbody
  obtain ⟨rfl, rfl⟩ := pure_eq_ok.mp hok
  exact ⟨.node .function (.leaf token hkind (.leaf start hstartKind
      (.sub t (.leaf stop hstopKind (.sub body .nil))))),
    .node trivial rfl (.leaf hkind htoken (.leaf hstartKind hstart
      (.sub ht (.leaf hstopKind hstop (.sub hcovers .nil))))), rfl⟩

/-- The parameters and the body of a function literal are taken. -/
theorem function_complete (hexpr : Parses .expression id bound expr)
    (hblock : Parses .block id bound block) (hkind : token.kind = .word .functionWord)
    (f : Forest [.mark .lparen, .symbol (.items .parameter), .mark .rparen, .symbol .block])
    (hf : f.Fits bound c c') :
    (do
      let _ ← Grammar.mark .lparen
      let (parameters, _) ← commaList (parameter expr) .rparen
      let body ← block
      return .function (token.span.upTo body.span) parameters body : Parser Expr) c =
      .ok ((ParseTree.node (s := .primary) .function (.leaf token hkind f)).meaning, c') := by
  obtain ⟨start, hstartKind, f, c₁, rfl, hstart, hf⟩ := hf.exists_leaf
  obtain ⟨parameters, f, c₂, rfl, hparameters, hf⟩ := hf.exists_sub
  obtain ⟨stop, hstopKind, f, c₃, rfl, hstop, hf⟩ := hf.exists_leaf
  obtain ⟨body, f, c₄, rfl, hbody, hf⟩ := hf.exists_sub
  obtain ⟨rfl, rfl⟩ := hf.eq_nil
  have hlist := commaList_complete (parses_parameter hexpr) rfl parameters
    (hparameters.mono (Nat.sub_le _ _)) hstopKind hstop
  have hok := hblock.complete body (hbody.mono (by omega))
  exact bind_eq_ok.mpr ⟨_, _, mark_eq_ok.mpr ⟨start, ⟨hstartKind, rfl⟩, hstart⟩,
    bind_eq_ok.mpr ⟨_, _, hlist, bind_eq_ok.mpr ⟨_, _, hok, rfl⟩⟩⟩

/-- A primary expression. What is inside it has fewer tokens than itself. -/
theorem parses_primary (hexpr : Parses .expression id bound expr)
    (hblock : Parses .block id bound block) :
    Parses .primary id (bound + 1) (primary expr block) where
  sound := by
    intro c c' e hok
    obtain ⟨o, c₁, hexpect, hok⟩ := bind_eq_ok.mp hok
    obtain ⟨token, hopening, htoken⟩ := expect_eq_ok.mp hexpect
    -- The first token alone decides which of the five families of primary expressions it is.
    rcases opening_eq_some.mp hopening with ⟨hkind, rfl⟩ | ⟨hkind, rfl⟩ | ⟨hkind, rfl⟩ |
      ⟨hkind, rfl⟩ | ⟨hkind, rfl⟩
    · obtain ⟨rfl, rfl⟩ := pure_eq_ok.mp hok
      exact ⟨.node (.literal token.kind hkind) (.leaf token rfl .nil),
        .node trivial rfl (.leaf rfl htoken .nil), rfl⟩
    · obtain ⟨t, close, c₂, ht, hcloseKind, hstop, rfl⟩ := closed_sound hexpr hok
      exact ⟨.node .group (.leaf token hkind (.sub t (.leaf close hcloseKind .nil))),
        .node trivial rfl (.leaf hkind htoken (.sub ht (.leaf hcloseKind hstop .nil))), rfl⟩
    · exact bracketed_sound (k := .expression) .array (p := .array) (fun _ _ _ => rfl)
        (parses_expressionItem hexpr) rfl hkind htoken hok
    · exact bracketed_sound (k := .entry) .dictionary (p := .dictionary) (fun _ _ _ => rfl)
        (parses_entry hexpr) rfl hkind htoken hok
    · exact function_sound hexpr hblock hkind htoken hok
  complete := by
    intro c c' t ht
    have hopening : ∀ {token : Token} {o : Opening} {c₁ : Cursor}, opening token = some o →
        Takes [token] c c₁ → expect "expression" opening c = .ok (o, c₁) :=
      fun hopening htoken => expect_eq_ok.mpr ⟨_, hopening, htoken⟩
    obtain ⟨_, p, f, rfl, -, hf⟩ := ht.exists_node
    cases p with
    | literal kind hmem =>
      obtain ⟨token, hkind, f, c₁, rfl, htoken, hf⟩ := hf.exists_leaf
      obtain ⟨rfl, rfl⟩ := hf.eq_nil
      have ho := opening_eq_some.mpr (.inl ⟨hkind ▸ hmem, rfl⟩)
      exact bind_eq_ok.mpr ⟨_, _, hopening ho htoken, rfl⟩
    | group =>
      obtain ⟨token, hkind, f, c₁, rfl, htoken, hf⟩ := hf.exists_leaf
      obtain ⟨inner, f, c₂, rfl, hinner, hf⟩ := hf.exists_sub
      obtain ⟨close, hcloseKind, f, c₃, rfl, hclose, hf⟩ := hf.exists_leaf
      obtain ⟨rfl, rfl⟩ := hf.eq_nil
      have ho := opening_eq_some.mpr (.inr (.inl ⟨hkind, rfl⟩))
      exact bind_eq_ok.mpr ⟨_, _, hopening ho htoken,
        closed_complete (fun e _ => e) hexpr hinner hcloseKind hclose⟩
    | array =>
      obtain ⟨token, hkind, f, c₁, rfl, htoken, hf⟩ := hf.exists_leaf
      obtain ⟨elements, f, c₂, rfl, helements, hf⟩ := hf.exists_sub
      obtain ⟨stop, hstopKind, f, c₃, rfl, hstop, hf⟩ := hf.exists_leaf
      obtain ⟨rfl, rfl⟩ := hf.eq_nil
      have ho := opening_eq_some.mpr (.inr (.inr (.inl ⟨hkind, rfl⟩)))
      have hlist := commaList_complete (parses_expressionItem hexpr) rfl elements helements hstopKind
        hstop
      exact bind_eq_ok.mpr ⟨_, _, hopening ho htoken, bind_eq_ok.mpr ⟨_, _, hlist, rfl⟩⟩
    | dictionary =>
      obtain ⟨token, hkind, f, c₁, rfl, htoken, hf⟩ := hf.exists_leaf
      obtain ⟨entries, f, c₂, rfl, hentries, hf⟩ := hf.exists_sub
      obtain ⟨stop, hstopKind, f, c₃, rfl, hstop, hf⟩ := hf.exists_leaf
      obtain ⟨rfl, rfl⟩ := hf.eq_nil
      have ho := opening_eq_some.mpr (.inr (.inr (.inr (.inl ⟨hkind, rfl⟩))))
      have hlist := commaList_complete (parses_entry hexpr) rfl entries hentries hstopKind hstop
      exact bind_eq_ok.mpr ⟨_, _, hopening ho htoken, bind_eq_ok.mpr ⟨_, _, hlist, rfl⟩⟩
    | function =>
      obtain ⟨token, hkind, f, c₁, rfl, htoken, hf⟩ := hf.exists_leaf
      have ho := opening_eq_some.mpr (.inr (.inr (.inr (.inr ⟨hkind, rfl⟩))))
      exact bind_eq_ok.mpr ⟨_, _, hopening ho htoken, function_complete hexpr hblock hkind f hf⟩

end Primary

/-- A suffix opens with a parenthesis or a bracket. -/
theorem suffixMark_eq_some {token : Token} {opener : Mark} :
    suffixMark token = some opener ↔
      token.kind = .mark opener ∧ (opener = .lparen ∨ opener = .lbracket) := by
  unfold suffixMark Token.kind
  cases token.content with
  | mark m => cases m <;> simp [TokenContent.kind] <;> rintro rfl <;> simp
  | _ => simp [TokenContent.kind]

theorem suffixMark_eq_none {token : Token} :
    suffixMark token = none ↔ startsSuffix token.kind = false := by
  unfold suffixMark startsSuffix Token.kind
  cases token.content with
  | mark m => cases m <;> simp [TokenContent.kind]
  | _ => simp [TokenContent.kind]

/-- The parts of a suffix, in front of the other suffixes. -/
inductive SuffixCovers : Derivations.Suffix → Cursor → Cursor → Prop where
  | call {opening stop : Token} {arguments : ParseTree (.items .expression)} {c c₁ c₂ c' : Cursor}
      (hkind : opening.kind = .mark .lparen) (hopening : Takes [opening] c c₁)
      (harguments : arguments.Covers c₁ c₂) (hstopKind : stop.kind = .mark .rparen)
      (hstop : Takes [stop] c₂ c') : SuffixCovers (.call arguments.meaning stop.span) c c'
  | lookup {opening stop : Token} {key : ParseTree .expression} {c c₁ c₂ c' : Cursor}
      (hkind : opening.kind = .mark .lbracket) (hopening : Takes [opening] c c₁)
      (hkey : key.Covers c₁ c₂) (hstopKind : stop.kind = .mark .rbracket)
      (hstop : Takes [stop] c₂ c') : SuffixCovers (.lookup key.meaning stop.span) c c'

theorem SuffixCovers.length_lt {a : Derivations.Suffix} {c c' : Cursor} (h : SuffixCovers a c c') :
    c'.rest.length < c.rest.length := by
  cases h with
  | call _ hopening hparts _ hstop | lookup _ hopening hparts _ hstop =>
    have := hopening.length_lt
    have := hparts.length_le
    have := hstop.length_lt
    omega

/-- A suffix that was read is derived, with the tokens that it took. -/
theorem suffix_sound (hexpr : Parses .expression id bound expr) {opener : Mark}
    (hopener : opener = .lparen ∨ opener = .lbracket) {c c₁ : Cursor} {a : Suffix}
    (hok : suffix expr opener c = .ok (a, c₁)) : SuffixCovers a.said c c₁ := by
  obtain ⟨_, c₂, hmark, hok⟩ := bind_eq_ok.mp hok
  obtain ⟨token, ⟨hkind, -⟩, htoken⟩ := mark_eq_ok.mp hmark
  obtain rfl | rfl := hopener
  · obtain ⟨⟨_, _⟩, c₃, hlist, hok⟩ := bind_eq_ok.mp hok
    obtain ⟨t, stop, c₄, ht, hstopKind, hstop, hpair⟩ :=
      commaList_sound (parses_expressionItem hexpr) rfl hlist
    cases hpair
    obtain ⟨rfl, rfl⟩ := pure_eq_ok.mp hok
    exact .call hkind htoken ht hstopKind hstop
  · obtain ⟨t, stop, c₃, ht, hstopKind, hstop, rfl⟩ := closed_sound hexpr hok
    exact .lookup hkind htoken ht hstopKind hstop

theorem suffixMark_of_head {rest : List Token} {opener : Mark}
    (h : rest.head?.bind suffixMark = some opener) : opener = .lparen ∨ opener = .lbracket := by
  obtain ⟨token, -, hmark⟩ := Option.bind_eq_some_iff.mp h
  exact (suffixMark_eq_some.mp hmark).2

theorem consumes_suffix (hexpr : Parses .expression id bound expr) :
    Consumes suffixMark (suffix expr) := by
  intro _ _ _ _ hhead hok
  exact (suffix_sound hexpr (suffixMark_of_head hhead) hok).length_lt

/-- Suffixes in a row that were read are derived. -/
theorem covers_of_suffixRuns (hexpr : Parses .expression id bound expr) {c c' : Cursor}
    {suffixes : List Suffix} (hruns : Runs suffixMark (suffix expr) c suffixes c') :
    ∃ t : ParseTree .suffixes, t.Covers c c' ∧ t.meaning = suffixes.map Suffix.said := by
  induction hruns with
  | stop hstop =>
    exact ⟨.node .absent .nil, .absent trivial fun token htoken =>
      suffixMark_eq_none.mp (head_bind_eq_none.mp hstop token htoken), rfl⟩
  | step hhead hok _ ih =>
    obtain ⟨others, hothers, hmeaning⟩ := ih
    rw [List.map_cons, ← hmeaning]
    have hsuffix := suffix_sound hexpr (suffixMark_of_head hhead) hok
    -- The suffix is an index of `SuffixCovers`, so it must be a variable before the case split.
    generalize Suffix.said _ = said at hsuffix ⊢
    cases hsuffix with
    | @call token stop arguments _ _ _ _ hkind htoken harguments hstopKind hstop =>
      exact ⟨.node .call (.leaf token hkind (.sub arguments (.leaf stop hstopKind
          (.sub others .nil)))),
        .node trivial rfl (.leaf hkind htoken (.sub harguments (.leaf hstopKind hstop
          (.sub hothers .nil)))), rfl⟩
    | @lookup token stop key _ _ _ _ hkind htoken hkey hstopKind hstop =>
      exact ⟨.node .lookup (.leaf token hkind (.sub key (.leaf stop hstopKind
          (.sub others .nil)))),
        .node trivial rfl (.leaf hkind htoken (.sub hkey (.leaf hstopKind hstop
          (.sub hothers .nil)))), rfl⟩

/-- What is inside a suffix has fewer tokens than itself. -/
theorem suffixRuns_of_fits (hexpr : Parses .expression id bound expr) (t : ParseTree .suffixes)
    {c c' : Cursor} (ht : t.Fits (bound + 1) c c') :
    ∃ suffixes, Runs suffixMark (suffix expr) c suffixes c' ∧
      suffixes.map Suffix.said = t.meaning := by
  obtain ⟨_, p, f, rfl, -, hf⟩ := ht.exists_node
  cases p with
  | absent =>
    obtain ⟨rfl, rfl⟩ := hf.eq_nil
    refine ⟨[], .stop ?_, rfl⟩
    exact (head_bind_eq_none.mpr fun token htoken =>
      suffixMark_eq_none.mpr (ht.starts_eq_false token htoken))
  | call =>
    obtain ⟨token, hkind, f, c₁, rfl, htoken, hf⟩ := hf.exists_leaf
    obtain ⟨arguments, f, c₂, rfl, harguments, hf⟩ := hf.exists_sub
    obtain ⟨stop, hstopKind, f, c₃, rfl, hstop, hf⟩ := hf.exists_leaf
    obtain ⟨others, f, c₄, rfl, hothers, hf⟩ := hf.exists_sub
    obtain ⟨rfl, rfl⟩ := hf.eq_nil
    have hmark := suffixMark_eq_some.mpr ⟨hkind, .inl rfl⟩
    have hlist := commaList_complete (parses_expressionItem hexpr) rfl arguments harguments hstopKind
      hstop
    have hlength := htoken.length_lt
    have hlength' := harguments.length_le
    have hlength'' := hstop.length_lt
    obtain ⟨suffixes, hruns, hmeaning⟩ :=
      suffixRuns_of_fits hexpr others (hothers.mono (by omega))
    refine ⟨.call arguments.meaning stop.span :: suffixes, ?_, congrArg _ hmeaning⟩
    exact .step (by rw [htoken.head?]; exact hmark) (bind_eq_ok.mpr ⟨_, _,
      mark_eq_ok.mpr ⟨token, ⟨hkind, rfl⟩, htoken⟩, bind_eq_ok.mpr ⟨_, _, hlist, rfl⟩⟩) hruns
  | lookup =>
    obtain ⟨token, hkind, f, c₁, rfl, htoken, hf⟩ := hf.exists_leaf
    obtain ⟨key, f, c₂, rfl, hkey, hf⟩ := hf.exists_sub
    obtain ⟨stop, hstopKind, f, c₃, rfl, hstop, hf⟩ := hf.exists_leaf
    obtain ⟨others, f, c₄, rfl, hothers, hf⟩ := hf.exists_sub
    obtain ⟨rfl, rfl⟩ := hf.eq_nil
    have hmark := suffixMark_eq_some.mpr ⟨hkind, .inr rfl⟩
    have hok := closed_complete Suffix.lookup hexpr hkey hstopKind hstop
    have hlength := htoken.length_lt
    have hlength' := hkey.length_le
    have hlength'' := hstop.length_lt
    obtain ⟨suffixes, hruns, hmeaning⟩ :=
      suffixRuns_of_fits hexpr others (hothers.mono (by omega))
    refine ⟨.lookup key.meaning stop.span :: suffixes, ?_, congrArg _ hmeaning⟩
    exact .step (by rw [htoken.head?]; exact hmark) (bind_eq_ok.mpr ⟨_, _,
      mark_eq_ok.mpr ⟨token, ⟨hkind, rfl⟩, htoken⟩, hok⟩) hruns
termination_by c.rest.length

/-- A primary expression with its suffixes. -/
theorem parses_postfixed (hexpr : Parses .expression id bound expr)
    (hblock : Parses .block id bound block) :
    Parses .postfixed id (bound + 1) (postfixed expr block) where
  sound := by
    intro c c' e hok
    obtain ⟨first, c₁, hfirst, hok⟩ := bind_eq_ok.mp hok
    obtain ⟨suffixes, c₂, hmany, hok⟩ := bind_eq_ok.mp hok
    obtain ⟨rfl, rfl⟩ := pure_eq_ok.mp hok
    obtain ⟨t, ht, rfl⟩ := (parses_primary hexpr hblock).sound hfirst
    obtain ⟨u, hu, hmeaning⟩ :=
      covers_of_suffixRuns hexpr ((many_eq_ok (consumes_suffix hexpr)).mp hmany)
    refine ⟨.node .only (.sub t (.sub u .nil)), .node trivial rfl (.sub ht (.sub hu .nil)), ?_⟩
    show suffixed t.meaning u.meaning = suffixes.foldl applySuffix t.meaning
    rw [hmeaning]
    exact (foldl_applySuffix_eq_suffixed suffixes t.meaning).symm
  complete := by
    intro c c' t ht
    obtain ⟨_, p, f, rfl, -, hf⟩ := ht.exists_node
    cases p with
    | only =>
      obtain ⟨first, f, c₁, rfl, hfirst, hf⟩ := hf.exists_sub
      obtain ⟨suffixes, f, c₂, rfl, hsuffixes, hf⟩ := hf.exists_sub
      obtain ⟨rfl, rfl⟩ := hf.eq_nil
      have hok := (parses_primary hexpr hblock).complete first hfirst
      obtain ⟨read, hruns, hmeaning⟩ := suffixRuns_of_fits hexpr suffixes hsuffixes
      have hmany := (many_eq_ok (consumes_suffix hexpr)).mpr hruns
      refine bind_eq_ok.mpr ⟨_, _, hok, bind_eq_ok.mpr ⟨_, _, hmany, pure_eq_ok.mpr ⟨?_, rfl⟩⟩⟩
      show read.foldl applySuffix first.meaning = suffixed first.meaning suffixes.meaning
      rw [← hmeaning]
      exact foldl_applySuffix_eq_suffixed read first.meaning

end Nested

end Grammar

end DecimalScript
