import DecimalScript.Proofs.ParserCorrect
import DecimalScript.Proofs.StuckDerivations

/-!
# Where parsers refuse tokens

A parser that is right about what it goes over may still refuse a token too late, or for a reason
that an earlier step has made. These do not: where one refuses a token, the derivation is stuck
there (`Refusal.At`). One lemma for each way the parsers of expressions are built says that this
passes from the parsers it is built of (`Decides`); the parts that have been gone over are given by
their derivations.

A symbol that a parser refuses has either begun, and then the next token settles its production, or
not even its first token is there. So the lemmas come down to three: a production is refused behind
its first token (`At.started`), behind its first symbol (`At.behind`) or in it (`At.begun`). -/

namespace DecimalScript

open Cursor DecimalScript.Parser Derivations

/-! ### What a refusal says -/

/-- What a refusal names is its offending token: the first of the rest. Only the end of the text is
named without a place. -/
def Refusal.Names (r : Refusal) : Prop :=
  match r.fault with
  | .unexpectedEnd _ => r.rest = [] ∧ r.span = none
  | .unexpectedToken _ lexeme =>
    ∃ token ∈ r.rest.head?, lexeme = token.lexeme ∧ r.span = some token.span
  | .notAStatement => ∃ token ∈ r.rest.head?, token.kind = .mark .semicolon
  | .notAssignable => ∃ token ∈ r.rest.head?, token.kind = .mark .assign

/-- A refusal names the token at a cursor, and its span starts where a token does that is not gone
over yet. -/
structure Refusal.Here (c : Cursor) (r : Refusal) : Prop where
  rest : r.rest = c.rest
  names : r.Names
  starts : ∀ span ∈ r.span, ∃ token ∈ c.rest, span.start = token.span.start

/-- A refusal of parts from a cursor on: they are stuck at the token that it names. -/
structure Refusal.At (parts : List Part) (c : Cursor) (r : Refusal) : Prop where
  stuck : ∃ taken, c.rest = taken ++ r.rest ∧ Stuck parts taken r.rest
  names : r.Names
  starts : ∀ span ∈ r.span, ∃ token ∈ c.rest, span.start = token.span.start

namespace Refusal.At

variable {s x : Symbol} {kind : TokenKind} {parts parts' : List Part} {opener : Token}
  {c c₁ : Cursor} {r : Refusal}

/-- A token of another kind is refused. -/
theorem token (hkind : ∀ token ∈ c.rest.head?, token.kind ≠ kind) (h : r.Here c) :
    r.At (.token kind :: parts) c :=
  ⟨⟨[], h.rest.symm, .token (by rw [h.rest]; exact hkind)⟩, h.names, h.starts⟩

/-- A token is refused that does not start a symbol. -/
theorem symbol (hs : s.isOptional = false)
    (hstarts : ∀ token ∈ c.rest.head?, s.starts token.kind = false) (h : r.Here c) :
    r.At (.symbol s :: parts) c :=
  ⟨⟨[], h.rest.symm, .symbol hs (by rw [h.rest]; exact hstarts)⟩, h.names, h.starts⟩

/-- A refusal behind a token that is asked for is one in front of it. -/
theorem leaf (hkind : opener.kind = kind) (htoken : Takes [opener] c c₁) (h : r.At parts c₁) :
    r.At (.token kind :: parts) c := by
  obtain ⟨⟨taken, hrest, hstuck⟩, hnames, hstarts⟩ := h
  refine ⟨⟨opener :: taken, ?_, .leaf hkind hstuck⟩, hnames, fun span hspan => ?_⟩
  · rw [htoken.rest, hrest]
    rfl
  · obtain ⟨start, hmem, hstart⟩ := hstarts span hspan
    exact ⟨start, htoken.rest ▸ List.mem_append_right _ hmem, hstart⟩

/-- A refusal behind a symbol that is derived is one in front of it. -/
theorem sub {t : ParseTree s} (ht : t.Covers c c₁) (h : r.At parts c₁) :
    r.At (.symbol s :: parts) c := by
  obtain ⟨⟨taken, hrest, hstuck⟩, hnames, hstarts⟩ := h
  refine ⟨⟨t.yield ++ taken, ?_, .sub t ht.admissible (hrest ▸ ht.greedy) hstuck⟩, hnames,
    fun span hspan => ?_⟩
  · rw [ht.takes.rest, hrest, List.append_assoc]
  · obtain ⟨start, hmem, hstart⟩ := hstarts span hspan
    exact ⟨start, ht.takes.rest ▸ List.mem_append_right _ hmem, hstart⟩

/-- A refusal in the parts of a production is one of its symbol, if the next token can only start
that production. -/
theorem node (p : Production s parts') (hfree : ∀ f : Forest parts', Allowed true s p f)
    (hstarts : ∃ token ∈ c.rest.head?, startsParts token.kind parts' = true)
    (h : r.At parts' c) : r.At (.symbol s :: parts) c := by
  obtain ⟨⟨taken, hrest, hstuck⟩, hnames, hspan⟩ := h
  exact ⟨⟨taken, hrest, .node p hfree (hrest ▸ hstarts) hstuck⟩, hnames, hspan⟩

/-- Refused parts stay so, whatever parts are behind them. -/
theorem append (h : r.At parts c) (more : List Part) : r.At (parts ++ more) c := by
  obtain ⟨⟨taken, hrest, hstuck⟩, hnames, hstarts⟩ := h
  exact ⟨⟨taken, hrest, hstuck.append more⟩, hnames, hstarts⟩

/-- A symbol that is refused is refused whatever parts are behind it. -/
theorem first (h : r.At [.symbol s] c) : r.At (.symbol s :: parts) c :=
  h.append parts

/-- A symbol is refused before its first token if that does not start it. -/
theorem here (h : r.At [.symbol s] c)
    (hstarts : ∀ token ∈ c.rest.head?, s.starts token.kind = false) : r.Here c := by
  obtain ⟨⟨taken, hrest, hstuck⟩, hnames, hspan⟩ := h
  cases taken with
  | nil => exact ⟨hrest.symm, hnames, hspan⟩
  | cons token taken =>
    -- Tokens that are gone over begin a derivation, so that the first of them starts it.
    obtain ⟨f, -, hleads⟩ := hstuck.exists_completion (derivable_symbol s)
    cases f with
    | sub t f =>
      cases f
      obtain ⟨later, hyield⟩ := hleads
      rw [Forest.yield, Forest.yield, List.append_nil] at hyield
      have hnone := hstarts token (by rw [hrest]; rfl)
      rw [t.starts_of_yield hyield.symm] at hnone
      cases hnone

/-- A production is refused behind its first token. -/
theorem started (p : Production s (.token kind :: parts'))
    (hfree : ∀ f : Forest (.token kind :: parts'), Allowed true s p f) (hkind : opener.kind = kind)
    (htoken : Takes [opener] c c₁) (h : r.At parts' c₁) : r.At [.symbol s] c :=
  .node p hfree ⟨opener, htoken.head?, beq_iff_eq.mpr hkind⟩ (.leaf hkind htoken h)

/-- A production is refused behind its first symbol. -/
theorem behind (p : Production s (.symbol x :: parts'))
    (hfree : ∀ f : Forest (.symbol x :: parts'), Allowed true s p f) (hx : x.isOptional = false)
    {t : ParseTree x} (ht : t.Covers c c₁) (h : r.At parts' c₁) : r.At [.symbol s] c := by
  obtain ⟨token, hhead, hstarts⟩ := ht.head hx
  exact .node p hfree ⟨token, hhead, Bool.or_eq_true_iff.mpr (.inl hstarts)⟩ (.sub ht h)

/-- A production is refused in its first symbol, or before it. -/
theorem begun (p : Production s (.symbol x :: parts'))
    (hfree : ∀ f : Forest (.symbol x :: parts'), Allowed true s p f) (hs : s.isOptional = false)
    (hnone : ∀ token ∈ c.rest.head?, x.starts token.kind = false → s.starts token.kind = false)
    (h : r.At [.symbol x] c) : r.At [.symbol s] c := by
  rcases starts_or_not x.starts c.rest with ⟨token, hhead, hx⟩ | hx
  · exact .node p hfree ⟨token, hhead, Bool.or_eq_true_iff.mpr (.inl hx)⟩ h.first
  · -- Then no production of the symbol starts here, so that it is refused itself.
    exact .symbol hs (fun token hhead => hnone token hhead (hx token hhead)) (h.here hx)

end Refusal.At

/-! ### Parsers that refuse -/

namespace Parser

variable {α β σ : Type}

/-- Two parsers in a row are refused by the first one, or by the second one where the first one
stopped. -/
theorem bind_eq_error {p : Parser α} {f : α → Parser β} {c : Cursor} {r : Refusal} :
    (p >>= f) c = .error r ↔ p c = .error r ∨ ∃ a c₁, p c = .ok (a, c₁) ∧ f a c₁ = .error r := by
  cases hp : p c with
  | error refusal => simp [bind_of_error hp]
  | ok pair =>
    rw [bind_of_ok hp]
    constructor
    · exact fun h => .inr ⟨pair.1, pair.2, rfl, h⟩
    · rintro (h | ⟨a, c₁, hpair, h⟩)
      · cases h
      · cases hpair
        exact h

/-- A result that is only passed on is not refused. -/
theorem eq_error_of_return {p : Parser α} {f : α → β} {c : Cursor} {r : Refusal}
    (h : (do let a ← p; return f a : Parser β) c = .error r) : p c = .error r := by
  rcases bind_eq_error.mp h with hp | ⟨_, _, _, hpure⟩
  · exact hp
  · cases hpure

theorem accept_ne_error {f : Token → Option α} {c : Cursor} {r : Refusal} :
    accept? f c ≠ .error r := by
  unfold accept?
  split
  · exact nofun
  · split <;> exact nofun

/-- Looking for a token refuses none, whether it is there or not. -/
theorem accept_of_eq_error {f : Token → Option α} {g : Option α → Parser β} {c : Cursor}
    {r : Refusal} (h : (accept? f >>= g) c = .error r) :
    ∃ next c₁, accept? f c = .ok (next, c₁) ∧ g next c₁ = .error r :=
  (bind_eq_error.mp h).resolve_left accept_ne_error

theorem here_of_refuse {expected : String} {c : Cursor} {r : Refusal}
    (h : (refuse expected : Parser α) c = .error r) : r.Here c := by
  obtain ⟨last, rest⟩ := c
  cases rest with
  | nil =>
    cases h
    exact ⟨rfl, ⟨rfl, rfl⟩, nofun⟩
  | cons token rest =>
    cases h
    refine ⟨rfl, ⟨token, rfl, rfl, rfl⟩, fun span hspan => ⟨token, List.mem_cons_self, ?_⟩⟩
    rw [← Option.some.inj hspan]

/-- A token that is expected and not there is to blame. -/
theorem expect_eq_error {expected : String} {f : Token → Option α} {c : Cursor} {r : Refusal}
    (h : expect expected f c = .error r) : (∀ token ∈ c.rest.head?, f token = none) ∧ r.Here c := by
  obtain ⟨last, rest⟩ := c
  cases rest with
  | nil =>
    rw [expect_nil] at h
    exact ⟨nofun, here_of_refuse h⟩
  | cons token rest =>
    cases hf : f token with
    | some a =>
      rw [expect_cons, hf] at h
      cases h
    | none =>
      rw [expect_cons, hf] at h
      exact ⟨fun _ hhead => Option.some.inj hhead ▸ hf, here_of_refuse h⟩

/-- A repetition fails in an item that a token starts, behind others. -/
inductive Fails (starts : Token → Option σ) (item : σ → Parser α) : Cursor → Refusal → Prop where
  | here {c : Cursor} {r : Refusal} {s : σ} (hs : c.rest.head?.bind starts = some s)
      (hr : item s c = .error r) : Fails starts item c r
  | later {c c₁ : Cursor} {r : Refusal} {s : σ} {a : α} (hs : c.rest.head?.bind starts = some s)
      (ha : item s c = .ok (a, c₁)) (hr : Fails starts item c₁ r) : Fails starts item c r

/-- A repetition is refused in one of its items. -/
theorem fails_of_manyUpTo {starts : Token → Option σ} {item : σ → Parser α} :
    ∀ {bound : Nat} {c : Cursor} {r : Refusal}, manyUpTo starts item bound c = .error r →
      Fails starts item c r
  | 0, _, _, h => nomatch h
  | bound + 1, c, r, h => by
    unfold manyUpTo at h
    cases hs : c.rest.head?.bind starts with
    | none =>
      simp only [hs] at h
      cases h
    | some s =>
      simp only [hs] at h
      cases ha : item s c with
      | error refusal =>
        simp only [ha] at h
        cases h
        -- The loop has no failure of its own: it is always the item of some round that fails.
        exact .here hs ha
      | ok pair =>
        obtain ⟨a, c₁⟩ := pair
        simp only [ha] at h
        cases hlater : manyUpTo starts item bound c₁ with
        | ok pair =>
          simp only [hlater] at h
          cases h
        | error refusal =>
          simp only [hlater] at h
          cases h
          exact .later hs ha (fails_of_manyUpTo hlater)

theorem fails_of_many {starts : Token → Option σ} {item : σ → Parser α} {c : Cursor} {r : Refusal}
    (h : many starts item c = .error r) : Fails starts item c r := by
  unfold many at h
  split at h
  · cases h
  · exact fails_of_manyUpTo h

end Parser

namespace Grammar

variable {s : Symbol} {kind : TokenKind} {parts : List Part} {bound : Nat} {c : Cursor}
  {r : Refusal}

theorem at_of_mark {m : Mark} (h : mark m c = .error r) : r.At (.mark m :: parts) c := by
  obtain ⟨hnone, hhere⟩ := expect_eq_error h
  exact .token (fun token hhead => isMark_eq_none.mp (hnone token hhead)) hhere

theorem at_of_name {role : String} (h : name role c = .error r) :
    r.At (.token .name :: parts) c := by
  obtain ⟨hnone, hhere⟩ := expect_eq_error h
  exact .token (fun token hhead => kind_ne_of_isName (hnone token hhead)) hhere

/-- A parser goes over exactly the derivations of a symbol and, where there is none, refuses the
token at which they are stuck. -/
structure Decides {α : Type} (s : Symbol) (value : Meaning s → α) (bound : Nat)
    (p : Parser α) : Prop extends Parses s value bound p where
  refuses : ∀ {c : Cursor} {r : Refusal}, c.rest.length ≤ bound → p c = .error r →
    r.At [.symbol s] c

/-! ### Operators of a level -/

theorem link_eq_error {σ α : Type} {operator : Token → Option σ} {expected : String}
    {operand : Parser α} {op : σ} (hop : c.rest.head?.bind operator = some op)
    (h : link operator expected operand c = .error r) :
    ∃ token c₁, operator token = some op ∧ Takes [token] c c₁ ∧ operand c₁ = .error r := by
  rcases bind_eq_error.mp h with h | ⟨op', c₁, hexpect, h⟩
  · cases hop.symm.trans (head_bind_eq_none.mpr (expect_eq_error h).1)
  · obtain ⟨token, hop', htoken⟩ := expect_eq_ok.mp hexpect
    rw [htoken.head?] at hop
    rcases bind_eq_error.mp h with h | ⟨_, _, _, h⟩
    · exact ⟨token, c₁, hop, htoken, h⟩
    · cases h

/-- A chain is refused in its first operand or in a link. -/
theorem chain_eq_error {σ α : Type} {operator : Token → Option σ} {expected : String}
    {operand : Parser α} (h : chain operator expected operand c = .error r) :
    operand c = .error r ∨ ∃ first c₁, operand c = .ok (first, c₁) ∧
      Fails operator (fun _ => link operator expected operand) c₁ r := by
  rcases bind_eq_error.mp h with h | ⟨first, c₁, hfirst, h⟩
  · exact .inl h
  · rcases bind_eq_error.mp h with h | ⟨_, _, _, h⟩
    · exact .inr ⟨first, c₁, hfirst, fails_of_many h⟩
    · cases h

/-- Operands behind operators, and more of them behind each: refused in the last operand. -/
theorem at_of_linkFails {σ α : Type} {x rest : Symbol} {value : Meaning x → α}
    {operator : Token → Option σ} {expected : String} {operand : Parser α}
    (h : Decides x value bound operand)
    (hrest : ∀ {token : Token} {op : σ}, operator token = some op →
      ∃ (kind : TokenKind) (p : Production rest [.token kind, .symbol x, .symbol rest]),
        token.kind = kind ∧ ∀ f, Allowed true rest p f)
    (hfails : Fails operator (fun _ => link operator expected operand) c r) :
    c.rest.length ≤ bound → r.At [.symbol rest] c := by
  -- The round that fails either fails in its operand, behind the operator, or is a later one,
  -- behind an operand that is complete.
  induction hfails with
  | here hs hr =>
    intro hsmall
    obtain ⟨token, c₁, hop, htoken, hr⟩ := link_eq_error hs hr
    obtain ⟨kind, p, hkind, hfree⟩ := hrest hop
    have hlength := htoken.length_lt
    exact .started p hfree hkind htoken (h.refuses (by omega) hr).first
  | later hs ha _ ih =>
    intro hsmall
    obtain ⟨token, c₁, hop, htoken, ha⟩ := link_eq_ok.mp ha
    obtain ⟨kind, p, hkind, hfree⟩ := hrest hop
    obtain ⟨t, ht, -⟩ := h.sound ha
    have hlength := htoken.length_lt
    have hlength' := ht.length_le
    exact .started p hfree hkind htoken (.sub ht (ih (by omega)))

section Levels

variable {operand : Parser Expr}

/-- A level that groups to the left is read or refused in one of its operands. -/
theorem decides_leftLevel {l : LeftLevel} (h : Decides l.operand l.operandExpr bound operand) :
    Decides (.left l) id bound (leftLevel l.ops operand) where
  toParses := parses_leftLevel h.toParses
  refuses := by
    intro c r hsmall herror
    have hfree : ∀ f, Allowed true (.left l) .only f := fun _ => trivial
    have hchain := eq_error_of_return herror
    rcases chain_eq_error hchain with hfirst | ⟨first, c₁, hfirst, hfails⟩
    · exact .begun .only hfree rfl (fun _ _ => by cases l <;> exact id) (h.refuses hsmall hfirst)
    · obtain ⟨t, ht, -⟩ := h.sound hfirst
      have hlength := ht.length_le
      refine .behind .only hfree (by cases l <;> rfl) ht
        (at_of_linkFails h (fun {token op} hop => ?_) hfails (by omega))
      obtain ⟨hmem, hkind⟩ := (operatorIn_eq_some (leftOps_unique l)).mp hop
      exact ⟨_, .present op hmem, hkind, fun _ => trivial⟩

/-- A link of a level that groups to the right is refused where its derivation would be: what
follows the operator is a level again. -/
theorem at_of_rightFails {l : RightLevel} (h : Decides l.operand l.operandExpr bound operand)
    (hfails : Fails (operatorIn [l.op]) (fun _ => link (operatorIn [l.op]) "operator" operand)
      c r) :
    c.rest.length ≤ bound → r.At [.symbol (.rightRest l)] c := by
  have hfree : ∀ f, Allowed true (.right l) .only f := fun _ => trivial
  have hkind : ∀ {token : Token} {op : BinaryOp}, operatorIn [l.op] token = some op →
      token.kind = .mark (spelling l.op) := by
    intro token op hop
    obtain ⟨hmem, hkind⟩ := (operatorIn_eq_some (by simp)).mp hop
    rw [List.mem_singleton] at hmem
    exact hmem ▸ hkind
  induction hfails with
  | here hs hr =>
    intro hsmall
    obtain ⟨token, c₁, hop, htoken, hr⟩ := link_eq_error hs hr
    have hlength := htoken.length_lt
    exact .started .present (fun _ => trivial) (hkind hop) htoken
      -- The operand of the failing round is the start of a whole tree of the level, which the
      -- level's own start condition admits.
      (.begun .only hfree rfl (fun _ _ => by cases l <;> exact id) (h.refuses (by omega) hr))
  | later hs ha _ ih =>
    intro hsmall
    obtain ⟨token, c₁, hop, htoken, ha⟩ := link_eq_ok.mp ha
    obtain ⟨t, ht, -⟩ := h.sound ha
    have hlength := htoken.length_lt
    have hlength' := ht.length_le
    exact .started .present (fun _ => trivial) (hkind hop) htoken
      (.behind .only hfree (by cases l <;> rfl) ht (ih (by omega)))

theorem decides_rightLevel {l : RightLevel} (h : Decides l.operand l.operandExpr bound operand) :
    Decides (.right l) id bound (rightLevel l.op operand) where
  toParses := parses_rightLevel h.toParses
  refuses := by
    intro c r hsmall herror
    have hfree : ∀ f, Allowed true (.right l) .only f := fun _ => trivial
    have hchain := eq_error_of_return herror
    rcases chain_eq_error hchain with hfirst | ⟨first, c₁, hfirst, hfails⟩
    · exact .begun .only hfree rfl (fun _ _ => by cases l <;> exact id) (h.refuses hsmall hfirst)
    · obtain ⟨t, ht, -⟩ := h.sound hfirst
      have hlength := ht.length_le
      exact .behind .only hfree (by cases l <;> rfl) ht (at_of_rightFails h hfails (by omega))

theorem decides_relation (h : Decides (.left .sum) id bound operand) :
    Decides .relation id bound (relation operand) where
  toParses := parses_relation h.toParses
  refuses := by
    intro c r hsmall herror
    rcases bind_eq_error.mp herror with hfirst | ⟨first, c₁, hfirst, herror⟩
    · exact .begun .only (fun _ => trivial) rfl (fun _ _ => id) (h.refuses hsmall hfirst)
    obtain ⟨t, ht, -⟩ := h.sound hfirst
    have hlength := ht.length_le
    obtain ⟨next, c₂, haccept, herror⟩ := accept_of_eq_error herror
    cases next with
    | none => cases herror
    | some op =>
      obtain ⟨token, hop, htoken⟩ := accept_eq_some.mp haccept
      obtain ⟨hmem, hkind⟩ := (operatorIn_eq_some relationOps_unique).mp hop
      have hlength' := htoken.length_lt
      have hsecond := eq_error_of_return herror
      exact .behind .only (fun _ => trivial) rfl ht (.started (.present op hmem)
        (fun _ => trivial) hkind htoken (h.refuses (by omega) hsecond))

theorem decides_negation (h : Decides .relation id bound operand) :
    Decides .negation id bound (negation operand) where
  toParses := parses_negation h.toParses
  refuses := by
    intro c r hsmall herror
    obtain ⟨next, c₁, haccept, herror⟩ := accept_of_eq_error herror
    cases next with
    | none =>
      obtain ⟨hnone, rfl⟩ := accept_eq_none.mp haccept
      refine .begun .plain (fun _ => trivial) rfl (fun token hhead hstarts => ?_)
        (h.refuses hsmall herror)
      -- A token that starts neither a relation nor a negation starts no tree of this level.
      exact Bool.or_eq_false_iff.mpr ⟨isMark_eq_none_iff.mp (hnone token hhead), hstarts⟩
    | some start =>
      obtain ⟨token, hmark, htoken⟩ := accept_eq_some.mp haccept
      obtain ⟨hkind, rfl⟩ := isMark_eq_some.mp hmark
      have hlength := htoken.length_lt
      have hinner := eq_error_of_return herror
      exact .started .negated (fun _ => trivial) hkind htoken (h.refuses (by omega) hinner)

theorem signMark_eq_none {token : Token} :
    signMark token = none ↔
      (token.kind == .mark .minus) = false ∧ (token.kind == .mark .plus) = false := by
  unfold signMark Token.kind
  cases token.content with
  | mark m => cases m <;> simp [TokenContent.kind]
  | _ => simp [TokenContent.kind]

theorem decides_signed (h : Decides .postfixed id bound operand) :
    Decides .signed id bound (signed operand) where
  toParses := parses_signed h.toParses
  refuses := by
    intro c r hsmall herror
    obtain ⟨next, c₁, haccept, herror⟩ := accept_of_eq_error herror
    cases next with
    | none =>
      obtain ⟨hnone, rfl⟩ := accept_eq_none.mp haccept
      refine .begun .plain (fun _ => trivial) rfl (fun token hhead hstarts => ?_)
        (h.refuses hsmall herror)
      exact Bool.or_eq_false_iff.mpr
        ⟨Bool.or_eq_false_iff.mpr (signMark_eq_none.mp (hnone token hhead)), hstarts⟩
    | some sign =>
      obtain ⟨token, hmark, htoken⟩ := accept_eq_some.mp haccept
      have hlength := htoken.length_lt
      rcases signMark_eq_some.mp hmark with ⟨hkind, rfl⟩ | ⟨hkind, rfl⟩
      · have hinner := eq_error_of_return herror
        exact .started .negative (fun _ => trivial) hkind htoken (h.refuses (by omega) hinner)
      · exact .started .positive (fun _ => trivial) hkind htoken (h.refuses (by omega) herror)

/-- All levels of operators together are decided, from the tightest to the loosest. -/
theorem decides_operators (h : Decides .postfixed id bound operand) :
    Decides .expression id bound (operators operand) := by
  have hpower : Decides (.left .power) id bound _ := decides_leftLevel (decides_signed h)
  have hproduct : Decides (.left .product) id bound _ := decides_leftLevel hpower
  have hsum : Decides (.left .sum) id bound _ := decides_leftLevel hproduct
  have hand : Decides (.right .and) id bound _ :=
    decides_rightLevel (decides_negation (decides_relation hsum))
  have hor : Decides (.right .or) id bound _ := decides_rightLevel hand
  exact decides_rightLevel hor

end Levels

/-! ### Items between commas -/

section Items

variable {k : ItemKind} {item : Parser (ItemMeaning k)} {closing : Mark}

/-- Items between commas, at least one, with parts behind them. -/
theorem at_of_itemChain (h : Decides (.item k) id bound item) {expected : String}
    (hsmall : c.rest.length ≤ bound)
    (herror : chain (isMark .comma) expected item c = .error r) :
    r.At (.symbol (.item k) :: .symbol (.itemsRest k) :: parts) c := by
  rcases chain_eq_error herror with hfirst | ⟨first, c₁, hfirst, hfails⟩
  · exact (h.refuses hsmall hfirst).first
  · obtain ⟨t, ht, -⟩ := h.sound hfirst
    have hlength := ht.length_le
    refine .sub ht (at_of_linkFails h (fun {token _} hcomma => ?_) hfails (by omega)).first
    exact ⟨_, .present, (isMark_eq_some.mp hcomma).1, fun _ => trivial⟩

/-- Where the first of some items is refused before its first token, the closing mark is missing. -/
theorem at_of_commaList (h : Decides (.item k) id bound item) (hsmall : c.rest.length ≤ bound)
    (herror : commaList item closing c = .error r) :
    r.At (.symbol (.items k) :: .mark closing :: parts) c := by
  obtain ⟨next, c₁, haccept, herror⟩ := accept_of_eq_error herror
  cases next with
  | some span => cases herror
  | none =>
    obtain ⟨hclosing, rfl⟩ := accept_eq_none.mp haccept
    rcases bind_eq_error.mp herror with hchain | ⟨chained, c₁, hchain, herror⟩
    · rcases starts_or_not k.starts c.rest with ⟨token, hhead, hitem⟩ | hitem
      · exact .node .present (fun _ => trivial) ⟨token, hhead, Bool.or_eq_true_iff.mpr (.inl hitem)⟩
          (at_of_itemChain h hsmall hchain)
      · -- There are no items then, and what is refused is not the closing mark.
        have hnone : (.node .absent .nil : ParseTree (.items k)).Covers c c :=
          .absent trivial hitem
        have hfirst : r.At [.symbol (.item k)] c := by
          rcases chain_eq_error hchain with hfirst | ⟨first, c₁, hfirst, -⟩
          · exact h.refuses hsmall hfirst
          · obtain ⟨t, ht, -⟩ := h.sound hfirst
            obtain ⟨token, hhead, hstarts⟩ := ht.head rfl
            cases (hitem token hhead).symm.trans hstarts
        exact .sub hnone (.token (fun token hhead => isMark_eq_none.mp (hclosing token hhead))
          (hfirst.here hitem))
    · obtain ⟨first, others, c₂, hfirst, hothers, -⟩ := itemChain_sound h.toParses hchain
      have hitems : (.node .present (.sub first (.sub others .nil)) : ParseTree (.items k)).Covers
          c c₁ :=
        .node trivial rfl (.sub hfirst (.sub hothers .nil))
      have hmark := eq_error_of_return herror
      exact .sub hitems (at_of_mark hmark)

end Items

/-! ### Primary and postfix expressions -/

section Nested

variable {expr : Parser Expr} {block : Parser Block}

/-- An expression and the mark behind it. -/
theorem at_of_closed {α : Type} (hexpr : Decides .expression id bound expr)
    (hsmall : c.rest.length ≤ bound) {m : Mark} {make : Expr → Span → α}
    (herror : (do let e ← expr; let stop ← mark m; return make e stop : Parser α) c = .error r) :
    r.At (.expression :: .mark m :: parts) c := by
  rcases bind_eq_error.mp herror with hinner | ⟨_, c₁, hinner, herror⟩
  · exact (hexpr.refuses hsmall hinner).first
  obtain ⟨t, ht, -⟩ := hexpr.sound hinner
  have hclose := eq_error_of_return herror
  exact .sub ht (at_of_mark hclose)

theorem decides_expressionItem (hexpr : Decides .expression id bound expr) :
    Decides (.item .expression) id bound expr where
  toParses := parses_expressionItem hexpr.toParses
  refuses := fun hsmall herror =>
    .begun .only (fun _ => trivial) rfl (fun _ _ => id) (hexpr.refuses hsmall herror)

theorem decides_entry (hexpr : Decides .expression id bound expr) :
    Decides (.item .entry) id bound (entry expr) where
  toParses := parses_entry hexpr.toParses
  refuses := by
    intro c r hsmall herror
    rcases bind_eq_error.mp herror with hkey | ⟨key, c₁, hkey, herror⟩
    · exact .begun .only (fun _ => trivial) rfl (fun _ _ => id) (hexpr.refuses hsmall hkey)
    obtain ⟨t, ht, -⟩ := hexpr.sound hkey
    have hlength := ht.length_le
    refine .behind .only (fun _ => trivial) rfl ht ?_
    rcases bind_eq_error.mp herror with hcolon | ⟨_, c₂, hcolon, herror⟩
    · exact at_of_mark hcolon
    obtain ⟨token, ⟨hkind, -⟩, htoken⟩ := mark_eq_ok.mp hcolon
    have hlength' := htoken.length_lt
    have hvalue := eq_error_of_return herror
    exact .leaf hkind htoken (hexpr.refuses (by omega) hvalue)

theorem decides_parameter (hexpr : Decides .expression id bound expr) :
    Decides (.item .parameter) id bound (parameter expr) where
  toParses := parses_parameter hexpr.toParses
  refuses := by
    intro c r hsmall herror
    rcases bind_eq_error.mp herror with hname | ⟨⟨_, _⟩, c₁, hname, herror⟩
    · obtain ⟨hnone, hhere⟩ := expect_eq_error hname
      exact .symbol rfl (fun token hhead =>
        beq_eq_false_iff_ne.mpr (kind_ne_of_isName (hnone token hhead))) hhere
    obtain ⟨name, ⟨hnameKind, -⟩, htoken⟩ := name_eq_ok.mp hname
    have hlength := htoken.length_lt
    refine .started .only (fun _ => trivial) hnameKind htoken ?_
    obtain ⟨next, c₂, haccept, herror⟩ := accept_of_eq_error herror
    cases next with
    | none => cases herror
    | some _ =>
      obtain ⟨assign, hmark, hassign⟩ := accept_eq_some.mp haccept
      obtain ⟨hkind, -⟩ := isMark_eq_some.mp hmark
      have hlength' := hassign.length_lt
      rcases bind_eq_error.mp herror with hdefault | ⟨_, _, _, herror⟩
      · exact .started .present (fun _ => trivial) hkind hassign (hexpr.refuses (by omega) hdefault)
      · have hstop := eq_error_of_return herror
        cases hstop

/-- Other tokens start no primary expression. -/
theorem opening_eq_none {token : Token} :
    opening token = none ↔ startsPrimary token.kind = false := by
  unfold opening startsPrimary Token.kind
  cases token.content with
  | mark m => cases m <;> simp [TokenContent.kind, literalKinds]
  | word w => cases w <;> simp [TokenContent.kind, literalKinds]
  | _ => simp [TokenContent.kind, literalKinds]

theorem decides_primary (hexpr : Decides .expression id bound expr)
    (hblock : Decides .block id bound block) :
    Decides .primary id (bound + 1) (primary expr block) where
  toParses := parses_primary hexpr.toParses hblock.toParses
  refuses := by
    intro c r hsmall herror
    rcases bind_eq_error.mp herror with hexpect | ⟨o, c₁, hexpect, herror⟩
    · obtain ⟨hnone, hhere⟩ := expect_eq_error hexpect
      exact .symbol rfl (fun token hhead => opening_eq_none.mp (hnone token hhead)) hhere
    obtain ⟨token, hopening, htoken⟩ := expect_eq_ok.mp hexpect
    have hlength := htoken.length_lt
    rcases opening_eq_some.mp hopening with ⟨hkind, rfl⟩ | ⟨hkind, rfl⟩ | ⟨hkind, rfl⟩ |
      ⟨hkind, rfl⟩ | ⟨hkind, rfl⟩
    · cases herror
    · exact .started .group (fun _ => trivial) hkind htoken (at_of_closed hexpr (by omega) herror)
    · refine .started .array (fun _ => trivial) hkind htoken ?_
      have hlist := eq_error_of_return herror
      exact at_of_commaList (decides_expressionItem hexpr) (by omega) hlist
    · refine .started .dictionary (fun _ => trivial) hkind htoken ?_
      have hlist := eq_error_of_return herror
      exact at_of_commaList (decides_entry hexpr) (by omega) hlist
    · refine .started .function (fun _ => trivial) hkind htoken ?_
      rcases bind_eq_error.mp herror with hopen | ⟨_, c₂, hopen, herror⟩
      · exact at_of_mark hopen
      obtain ⟨start, ⟨hstartKind, -⟩, hstart⟩ := mark_eq_ok.mp hopen
      have hlength' := hstart.length_lt
      refine .leaf hstartKind hstart ?_
      rcases bind_eq_error.mp herror with hlist | ⟨⟨_, _⟩, c₃, hlist, herror⟩
      · exact at_of_commaList (decides_parameter hexpr) (by omega) hlist
      obtain ⟨t, stop, c₄, ht, hstopKind, hstop, -⟩ :=
        commaList_sound (parses_parameter hexpr.toParses) rfl hlist
      have := ht.length_le
      have := hstop.length_lt
      have hbody := eq_error_of_return herror
      exact .sub ht (.leaf hstopKind hstop (hblock.refuses (by omega) hbody))

/-- What is refused behind a suffix is refused behind the suffixes in front of it. -/
theorem at_of_suffixCovers {a : Derivations.Suffix} {c₁ : Cursor} (h : SuffixCovers a c c₁)
    (hr : r.At [.symbol .suffixes] c₁) : r.At [.symbol .suffixes] c := by
  cases h with
  | call hkind htoken harguments hstopKind hstop =>
    exact .started .call (fun _ => trivial) hkind htoken
      (.sub harguments (.leaf hstopKind hstop hr))
  | lookup hkind htoken hkey hstopKind hstop =>
    exact .started .lookup (fun _ => trivial) hkind htoken (.sub hkey (.leaf hstopKind hstop hr))

/-- A suffix is refused at what it is given or at its closing mark. -/
theorem at_of_suffix (hexpr : Decides .expression id bound expr)
    (hsmall : c.rest.length ≤ bound + 1) {opener : Mark}
    (hopener : c.rest.head?.bind suffixMark = some opener)
    (herror : suffix expr opener c = .error r) : r.At [.symbol .suffixes] c := by
  obtain ⟨token, hhead, hmark⟩ := Option.bind_eq_some_iff.mp hopener
  obtain ⟨hkind, hforms⟩ := suffixMark_eq_some.mp hmark
  rcases bind_eq_error.mp herror with hopen | ⟨_, c₁, hopen, herror⟩
  · exact absurd hkind (isMark_eq_none.mp ((expect_eq_error hopen).1 token hhead))
  obtain ⟨start, ⟨hstartKind, -⟩, hstart⟩ := mark_eq_ok.mp hopen
  have hlength := hstart.length_lt
  obtain rfl | rfl := hforms
  · refine .started .call (fun _ => trivial) hstartKind hstart ?_
    have hlist := eq_error_of_return herror
    exact at_of_commaList (decides_expressionItem hexpr) (by omega) hlist
  · exact .started .lookup (fun _ => trivial) hstartKind hstart
      (at_of_closed hexpr (by omega) herror)

theorem at_of_suffixFails (hexpr : Decides .expression id bound expr)
    (hfails : Fails suffixMark (suffix expr) c r) :
    c.rest.length ≤ bound + 1 → r.At [.symbol .suffixes] c := by
  induction hfails with
  | here hs hr => exact fun hsmall => at_of_suffix hexpr hsmall hs hr
  | later hs ha _ ih =>
    intro hsmall
    have hcovers := suffix_sound hexpr.toParses (suffixMark_of_head hs) ha
    have hlength := hcovers.length_lt
    exact at_of_suffixCovers hcovers (ih (by omega))

theorem decides_postfixed (hexpr : Decides .expression id bound expr)
    (hblock : Decides .block id bound block) :
    Decides .postfixed id (bound + 1) (postfixed expr block) where
  toParses := parses_postfixed hexpr.toParses hblock.toParses
  refuses := by
    intro c r hsmall herror
    have hprimary := decides_primary hexpr hblock
    rcases bind_eq_error.mp herror with hfirst | ⟨first, c₁, hfirst, herror⟩
    · exact .begun .only (fun _ => trivial) rfl (fun _ _ => id) (hprimary.refuses hsmall hfirst)
    obtain ⟨t, ht, -⟩ := hprimary.sound hfirst
    have hlength := ht.length_le
    have hmany := eq_error_of_return herror
    exact .behind .only (fun _ => trivial) rfl ht
      (at_of_suffixFails hexpr (fails_of_many hmany) (by omega))

end Nested

end Grammar

end DecimalScript
