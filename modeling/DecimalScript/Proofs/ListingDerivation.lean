import Mathlib.Data.List.Forall2
import DecimalScript.Proofs.Bare
import DecimalScript.Proofs.ListingLayout
import DecimalScript.Proofs.ParserCorrect

/-!
# The derivation of a listing

The tokens of a listing have an admissible derivation that says what was listed, places apart. The
proof goes over programs, one construct after the other. What an expression is a derivation of
depends on its outermost operator (`Placed`): parentheses stand where the grammar asks for an
operand that binds tighter. -/

namespace DecimalScript

open Derivations Listing

/-! ### Tokens of pieces -/

/-- The tokens that pieces spell. -/
def Listing.Spells (pieces : List Piece) (tokens : List Token) : Prop :=
  tokens.map (fun t => (t.content, t.lexeme)) = spellings pieces

namespace Listing

variable {ps qs : List Piece} {ts : List Token}

/-- Pieces in a row spell their tokens in a row. -/
theorem spellings_append (ps qs : List Piece) :
    spellings (ps ++ qs) = spellings ps ++ spellings qs := by
  induction ps with
  | nil => rfl
  | cons p ps ih => cases p <;> simp [spellings, ih]

theorem Spells.append (h : Spells (ps ++ qs) ts) :
    ∃ ts₁ ts₂, ts = ts₁ ++ ts₂ ∧ Spells ps ts₁ ∧ Spells qs ts₂ := by
  unfold Spells at h
  rw [spellings_append] at h
  exact List.map_eq_append_iff.mp h

theorem Spells.nil (h : Spells [] ts) : ts = [] :=
  List.map_eq_nil_iff.mp h

/-- A piece that is a token spells just that token. -/
theorem Spells.token {content : TokenContent} {lexeme : String}
    (h : Spells (.token content lexeme :: ps) ts) :
    ∃ t ts', ts = t :: ts' ∧ t.content = content ∧ t.lexeme = lexeme ∧ Spells ps ts' := by
  obtain ⟨t, ts', rfl, ht, hlater⟩ := List.map_eq_cons_iff.mp h
  cases ht
  exact ⟨t, ts', rfl, rfl, rfl, hlater⟩

theorem Spells.mark {m : Mark} (h : Spells (mark m :: ps) ts) :
    ∃ t ts', ts = t :: ts' ∧ t.kind = .mark m ∧ Spells ps ts' := by
  obtain ⟨t, ts', rfl, hcontent, -, hlater⟩ := Spells.token h
  exact ⟨t, ts', rfl, congrArg TokenContent.kind hcontent, hlater⟩

/-- Blanks spell nothing. -/
theorem Spells.blank (h : Spells (.blank :: ps) ts) : Spells ps ts :=
  h

end Listing

/-! ### What pieces denote -/

/-- However pieces are spelled, they have an admissible derivation of the symbol that says such a
thing. -/
def Denotes (s : Symbol) (P : Meaning s → Prop) (pieces : List Piece) : Prop :=
  ∀ ts, Spells pieces ts → ∃ t : ParseTree s, t.yield = ts ∧ t.Admissible true ∧ P t.meaning

/-- However pieces are spelled, they have admissible derivations of the parts with such values. -/
def Lays (parts : List Part) (P : Values parts → Prop) (pieces : List Piece) : Prop :=
  ∀ ts, Spells pieces ts → ∃ f : Forest parts, f.yield = ts ∧ f.Admissible true ∧ P f.values

section

variable {s x : Symbol} {parts : List Part} {ps qs : List Piece}

/-- A production denotes something if its parts are laid out so that it makes just that. -/
theorem Denotes.node {P : Meaning s → Prop} (p : Production s parts)
    (hp : ∀ f, Allowed true s p f) (h : Lays parts (fun vs => P (combine s p vs)) ps) :
    Denotes s P ps := by
  intro ts hts
  obtain ⟨f, hyield, hf, hP⟩ := h ts hts
  exact ⟨.node p f, hyield, ⟨hp f, hf⟩, hP⟩

theorem Lays.nil {P : Values [] → Prop} (h : P ()) : Lays [] P [] := by
  intro ts hts
  exact ⟨.nil, hts.nil.symm, trivial, h⟩

/-- A token that is asked for is a piece of its own. -/
theorem Lays.token {content : TokenContent} {lexeme : String}
    {P : Values (.token content.kind :: parts) → Prop}
    (h : ∀ t : Token, t.content = content → t.lexeme = lexeme →
      Lays parts (fun vs => P (t, vs)) ps) :
    Lays (.token content.kind :: parts) P (.token content lexeme :: ps) := by
  intro ts hts
  obtain ⟨t, ts, rfl, hcontent, hlexeme, hlater⟩ := hts.token
  obtain ⟨f, rfl, hf, hP⟩ := h t hcontent hlexeme ts hlater
  exact ⟨.leaf t (congrArg TokenContent.kind hcontent) f, rfl, hf, hP⟩

theorem Lays.mark {m : Mark} {P : Values (.mark m :: parts) → Prop}
    (h : ∀ t, Lays parts (fun vs => P (t, vs)) ps) :
    Lays (.mark m :: parts) P (Listing.mark m :: ps) :=
  Lays.token fun t _ _ => h t

/-- A listing has the mark that the grammar spells an operator with. -/
theorem Lays.operator (op : BinaryOp) {P : Values (.mark (spelling op) :: parts) → Prop}
    (h : ∀ t, Lays parts (fun vs => P (t, vs)) ps) :
    Lays (.mark (spelling op) :: parts) P (Listing.mark op.mark :: ps) := by
  rw [Grammar.mark_eq_spelling]
  exact Lays.mark h

theorem Lays.word {w : Word} {P : Values (.word w :: parts) → Prop}
    (h : ∀ t, Lays parts (fun vs => P (t, vs)) ps) :
    Lays (.word w :: parts) P (Listing.word w :: ps) :=
  Lays.token fun t _ _ => h t

theorem Lays.name {n : String} {P : Values (.token .name :: parts) → Prop}
    (h : ∀ t, nameOf t = n → Lays parts (fun vs => P (t, vs)) ps) :
    Lays (.token .name :: parts) P (Listing.name n :: ps) := by
  refine Lays.token fun t hcontent _ => h t ?_
  unfold nameOf
  rw [hcontent]

/-- A symbol that is asked for takes some pieces, and the other parts take what follows. -/
theorem Lays.sub {Q : Meaning x → Prop} {P : Values (.symbol x :: parts) → Prop}
    (h : Denotes x Q ps) (hlater : ∀ ts m, Q m → Lays parts (fun vs => P ((ts, m), vs)) qs) :
    Lays (.symbol x :: parts) P (ps ++ qs) := by
  intro ts hts
  obtain ⟨ts, us, rfl, hps, hqs⟩ := hts.append
  obtain ⟨t, rfl, ht, hQ⟩ := h ts hps
  obtain ⟨f, rfl, hf, hP⟩ := hlater _ _ hQ us hqs
  exact ⟨.sub t f, rfl, ⟨ht, hf⟩, hP⟩

/-- Nothing stands behind the last part. -/
theorem Lays.last {Q : Meaning x → Prop} {P : Values [.symbol x] → Prop} (h : Denotes x Q ps)
    (hP : ∀ ts m, Q m → P ((ts, m), ())) : Lays [.symbol x] P ps := by
  rw [← List.append_nil ps]
  exact Lays.sub h fun ts m hm => Lays.nil (hP ts m hm)

/-- Blanks and new lines make no difference. -/
theorem Lays.blank {P : Values parts → Prop} (h : Lays parts P ps) : Lays parts P (.blank :: ps) :=
  h

end

/-! ### Expressions without operators, and grouped ones -/

/-- An expression is this one, places apart. -/
def Alike (a e : Expr) : Prop :=
  e.bare = a

/-- Operations are alike if their operands are; where their spans reach does not matter. -/
theorem Alike.binary {a b e e' : Expr} (op : BinaryOp) (h : Alike a e) (h' : Alike b e') :
    Alike (.binary .nowhere op a b) (operation op e e') := by
  subst h h'
  rfl

/-- Only a name is like a name. -/
theorem Alike.eq_name {e : Expr} {n : String} (h : Alike (.name .nowhere n) e) :
    ∃ span, e = .name span n := by
  cases e with
  | name span m =>
    cases h
    exact ⟨span, rfl⟩
  | _ => cases h

theorem Alike.eq_lookup {e a b : Expr} (h : Alike (.lookup .nowhere a b) e) :
    ∃ span target key, e = .lookup span target key ∧ target.bare = a ∧ key.bare = b := by
  cases e with
  | lookup span target key =>
    cases h
    exact ⟨span, target, key, rfl, rfl, rfl⟩
  | _ => cases h

theorem Alike.eq_call {e a : Expr} {es : List Expr} (h : Alike (.call .nowhere a es) e) :
    ∃ span callee arguments, e = .call span callee arguments ∧ callee.bare = a ∧
      bareExprs arguments = es := by
  cases e with
  | call span callee arguments =>
    cases h
    exact ⟨span, callee, arguments, rfl, rfl, rfl⟩
  | _ => cases h

namespace Denotes

variable {ps qs : List Piece} {a b : Expr}

/-- A production of two symbols of which the second is empty. -/
theorem alone {s x y : Symbol} {P : Meaning s → Prop} {Q : Meaning x → Prop}
    (p : Production s [.symbol x, .symbol y]) (hp : ∀ f, Allowed true s p f) (q : Production y [])
    (hq : ∀ f, Allowed true y q f) (h : Denotes x Q ps)
    (hP : ∀ ts us m, Q m → P (combine s p ((ts, m), (us, combine y q ()), ()))) :
    Denotes s P ps := by
  have hrest : Denotes y (· = combine y q ()) [] := .node q hq (.nil rfl)
  refine .node p hp ?_
  rw [← List.append_nil ps]
  refine .sub h fun ts m hm => .last hrest ?_
  rintro us _ rfl
  exact hP ts us m hm

theorem postfixed (h : Denotes .primary (Alike a) ps) : Denotes .postfixed (Alike a) ps :=
  alone .only (fun _ => trivial) .absent (fun _ => trivial) h fun _ _ _ hm => hm

theorem signed (h : Denotes .postfixed (Alike a) ps) : Denotes .signed (Alike a) ps :=
  .node .plain (fun _ => trivial) (.last h fun _ _ hm => hm)

/-- An operand alone is the whole of its level. -/
theorem left {l : LeftLevel} (h : Denotes l.operand (fun m => Alike a (l.operandExpr m)) ps) :
    Denotes (.left l) (Alike a) ps :=
  alone .only (fun _ => trivial) .absent (fun _ => trivial) h fun _ _ _ hm => hm

theorem sum (h : Denotes .signed (Alike a) ps) : Denotes (.left .sum) (Alike a) ps :=
  left (l := .sum) (left (l := .product) (left (l := .power) h))

theorem relation (h : Denotes (.left .sum) (Alike a) ps) : Denotes .relation (Alike a) ps :=
  alone .only (fun _ => trivial) .absent (fun _ => trivial) h fun _ _ _ hm => hm

theorem negation (h : Denotes .relation (Alike a) ps) : Denotes .negation (Alike a) ps :=
  .node .plain (fun _ => trivial) (.last h fun _ _ hm => hm)

theorem right {l : RightLevel} (h : Denotes l.operand (fun m => Alike a (l.operandExpr m)) ps) :
    Denotes (.right l) (Alike a) ps :=
  alone .only (fun _ => trivial) .absent (fun _ => trivial) h fun _ _ _ hm => hm

theorem conjunction (h : Denotes .negation (Alike a) ps) : Denotes (.right .and) (Alike a) ps :=
  right (l := .and) h

theorem disjunction (h : Denotes .negation (Alike a) ps) : Denotes (.right .or) (Alike a) ps :=
  right (l := .or) h.conjunction

/-- Where no operator is, a negation is an expression. -/
theorem expression (h : Denotes .negation (Alike a) ps) : Denotes .expression (Alike a) ps :=
  right (l := .concat) h.disjunction

/-- An expression between parentheses. -/
theorem group (h : Denotes .expression (Alike a) ps) :
    Denotes .primary (Alike a) (parenthesized ps) :=
  .node .group (fun _ => trivial) (.mark fun _ => .sub h fun _ _ hm => .mark fun _ => .nil hm)

/-! ### Operators between expressions -/

/-- An operation of a level that groups to the right. -/
theorem rightOperation {l : RightLevel}
    (hleft : Denotes l.operand (fun m => Alike a (l.operandExpr m)) ps)
    (hright : Denotes (.right l) (Alike b) qs) :
    Denotes (.right l) (Alike (.binary .nowhere l.op a b))
      (ps ++ .blank :: mark l.op.mark :: .blank :: qs) := by
  have hrest : Denotes (.rightRest l) (fun m => ∃ e : Expr, m = some e ∧ Alike b e)
      (.blank :: mark l.op.mark :: .blank :: qs) :=
    .node .present (fun _ => trivial) (.blank (.operator l.op fun _ => .blank (.last hright
      fun _ e he => ⟨e, rfl, he⟩)))
  refine .node .only (fun _ => trivial) (.sub hleft fun _ m hm => .last hrest ?_)
  rintro _ _ ⟨e, rfl, he⟩
  exact hm.binary l.op he

/-- An operation of a level that groups to the left. -/
theorem leftOperation {l : LeftLevel} {op : BinaryOp} (hop : op ∈ l.ops)
    (hleft : Denotes l.operand (fun m => Alike a (l.operandExpr m)) ps)
    (hright : Denotes l.operand (fun m => Alike b (l.operandExpr m)) qs) :
    Denotes (.left l) (Alike (.binary .nowhere op a b))
      (ps ++ .blank :: mark op.mark :: .blank :: qs) := by
  have hnone : Denotes (.leftRest l) (· = []) [] :=
    .node .absent (fun _ => trivial) (.nil rfl)
  have hrest : Denotes (.leftRest l) (fun m => ∃ e : Expr, m = [(op, e)] ∧ Alike b e)
      (.blank :: mark op.mark :: .blank :: qs) := by
    refine .node (.present op hop) (fun _ => trivial) (.blank (.operator op fun _ => .blank ?_))
    rw [← List.append_nil qs]
    refine .sub hright fun _ m hm => .last hnone ?_
    rintro _ _ rfl
    exact ⟨l.operandExpr m, rfl, hm⟩
  refine .node .only (fun _ => trivial) (.sub hleft fun _ m hm => .last hrest ?_)
  rintro _ _ ⟨e, rfl, he⟩
  exact hm.binary op he

/-- A relation with its operator. -/
theorem relationOperation (r : Relation) (hleft : Denotes (.left .sum) (Alike a) ps)
    (hright : Denotes (.left .sum) (Alike b) qs) :
    Denotes .relation (Alike (.binary .nowhere (.relation r) a b))
      (ps ++ .blank :: mark r.mark :: .blank :: qs) := by
  have hop : BinaryOp.relation r ∈ relationOps := by cases r <;> decide
  have hrest : Denotes .relationRest (fun m => ∃ e : Expr, m = some (.relation r, e) ∧ Alike b e)
      (.blank :: mark r.mark :: .blank :: qs) :=
    .node (.present _ hop) (fun _ => trivial) (.blank (.operator (.relation r) fun _ => .blank
      (.last hright fun _ e he => ⟨e, rfl, he⟩)))
  refine .node .only (fun _ => trivial) (.sub hleft fun _ m hm => .last hrest ?_)
  rintro _ _ ⟨e, rfl, he⟩
  exact hm.binary (.relation r) he

/-! ### Suffixes -/

end Denotes

/-- Suffixes may be followed by more suffixes. -/
def Extends : {s : Symbol} → ParseTree s → Prop
  | .suffixes, t => ∀ u : ParseTree .suffixes, ∃ both : ParseTree .suffixes,
      both.yield = t.yield ++ u.yield ∧
      (t.Admissible true → u.Admissible true → both.Admissible true) ∧
      ∀ e, Derivations.suffixed e both.meaning =
        Derivations.suffixed (Derivations.suffixed e t.meaning) u.meaning
  | _, _ => True

/-- More suffixes can stand behind every derivation of a postfix expression. -/
theorem extends_suffixes {s : Symbol} (t : ParseTree s) : Extends t := by
  induction t using ParseTree.induction with
  | @node s _ p f ih =>
  -- Only the suffixes of an expression extend; for every other symbol nothing is claimed.
  cases s with
  | suffixes =>
    intro u
    cases p with
    | absent => exact ⟨u, by cases f; rfl, fun _ hu => hu, fun e => rfl⟩
    | call =>
      obtain ⟨start, hstart, f, rfl⟩ := f.exists_leaf
      obtain ⟨arguments, f, rfl⟩ := f.exists_sub
      obtain ⟨stop, hstop, f, rfl⟩ := f.exists_leaf
      obtain ⟨others, f, rfl⟩ := f.exists_sub
      obtain ⟨-, hothers, -⟩ := ih
      obtain ⟨both, hyield, hadmissible, hmeaning⟩ := hothers u
      refine ⟨.node .call (.leaf start hstart (.sub arguments (.leaf stop hstop (.sub both .nil)))),
        ?_, ?_, fun e => hmeaning _⟩
      · cases f
        show start :: (arguments.yield ++ stop :: (both.yield ++ [])) =
          start :: (arguments.yield ++ stop :: (others.yield ++ [])) ++ u.yield
        simp [hyield]
      · rintro ⟨-, harguments, hothers, -⟩ hu
        exact ⟨trivial, harguments, hadmissible hothers hu, trivial⟩
    | lookup =>
      obtain ⟨start, hstart, f, rfl⟩ := f.exists_leaf
      obtain ⟨key, f, rfl⟩ := f.exists_sub
      obtain ⟨stop, hstop, f, rfl⟩ := f.exists_leaf
      obtain ⟨others, f, rfl⟩ := f.exists_sub
      obtain ⟨-, hothers, -⟩ := ih
      obtain ⟨both, hyield, hadmissible, hmeaning⟩ := hothers u
      refine ⟨.node .lookup (.leaf start hstart (.sub key (.leaf stop hstop (.sub both .nil)))),
        ?_, ?_, fun e => hmeaning _⟩
      · cases f
        show start :: (key.yield ++ stop :: (both.yield ++ [])) =
          start :: (key.yield ++ stop :: (others.yield ++ [])) ++ u.yield
        simp [hyield]
      · rintro ⟨-, hkey, hothers, -⟩ hu
        exact ⟨trivial, hkey, hadmissible hothers hu, trivial⟩
  | _ => trivial

namespace Denotes

variable {ps qs : List Piece} {a b : Expr}

/-- A suffix behind an expression. -/
theorem suffixed (h : Denotes .postfixed (Alike a) ps)
    (hsuffix : Denotes .suffixes
      (fun m => ∀ e, Alike a e → Alike b (Derivations.suffixed e m)) qs) :
    Denotes .postfixed (Alike b) (ps ++ qs) := by
  intro ts hts
  obtain ⟨ts, us, rfl, hps, hqs⟩ := hts.append
  obtain ⟨t, rfl, ht, ha⟩ := h ts hps
  obtain ⟨u, rfl, hu, hb⟩ := hsuffix us hqs
  obtain ⟨_, p, f, rfl⟩ := t.exists_node
  cases p with
  | only =>
    obtain ⟨first, f, rfl⟩ := f.exists_sub
    obtain ⟨suffixes, f, rfl⟩ := f.exists_sub
    obtain ⟨-, hfirst, hsuffixes, -⟩ := ht
    -- Suffixes nest to the right in a derivation while the listing adds them on the right, so the
    -- new one goes to the end of those that stand already.
    obtain ⟨both, hyield, hadmissible, hmeaning⟩ := extends_suffixes suffixes u
    refine ⟨.node .only (.sub first (.sub both .nil)), ?_,
      ⟨trivial, hfirst, hadmissible hsuffixes hu, trivial⟩, ?_⟩
    · cases f
      show first.yield ++ (both.yield ++ []) = first.yield ++ (suffixes.yield ++ []) ++ u.yield
      simp [hyield]
    · exact (congrArg Expr.bare (hmeaning first.meaning)).trans (hb _ ha)

/-- A lookup is denoted by its target and its key between brackets. -/
theorem lookup (htarget : Denotes .postfixed (Alike a) ps)
    (hkey : Denotes .expression (Alike b) qs) :
    Denotes .postfixed (Alike (.lookup .nowhere a b))
      (ps ++ mark .lbracket :: (qs ++ [mark .rbracket])) := by
  have hnone : Denotes .suffixes (· = []) [] := .node .absent (fun _ => trivial) (.nil rfl)
  refine suffixed htarget (.node .lookup (fun _ => trivial) (.mark fun _ => .sub hkey
    fun _ key hb => .mark fun _ => .last hnone ?_))
  rintro _ _ rfl e rfl
  subst hb
  rfl

/-- A call is denoted by its callee and its arguments between parentheses. -/
theorem call {bs : List Expr} (hcallee : Denotes .postfixed (Alike a) ps)
    (harguments : Denotes (.items .expression) (fun m => bareExprs m = bs) qs) :
    Denotes .postfixed (Alike (.call .nowhere a bs)) (ps ++ parenthesized qs) := by
  have hnone : Denotes .suffixes (· = []) [] := .node .absent (fun _ => trivial) (.nil rfl)
  refine suffixed hcallee (.node .call (fun _ => trivial) (.mark fun _ => .sub harguments
    fun _ arguments hbs => .mark fun _ => .last hnone ?_))
  rintro _ _ rfl e rfl
  subst hbs
  rfl

end Denotes

/-! ### Items -/

namespace Listing

/-- Every item but the first has a comma and a blank in front. -/
theorem commaSeparated_cons (item : List Piece) (items : List (List Piece)) :
    commaSeparated (item :: items) =
      item ++ items.flatMap fun next => mark .comma :: .blank :: next := by
  induction items generalizing item with
  | nil => simp [commaSeparated]
  | cons next items ih => simp [commaSeparated, ih next]

end Listing

namespace Denotes

variable {k : ItemKind} {β : Type} {value : ItemMeaning k → β} {pss : List (List Piece)}
  {bs : List β}

/-- Items, each behind a comma. -/
theorem itemsRest
    (h : List.Forall₂ (fun ps b => Denotes (.item k) (fun m => value m = b) ps) pss bs) :
    Denotes (.itemsRest k) (fun ms => List.map value ms = bs)
      (pss.flatMap fun next => mark .comma :: .blank :: next) := by
  induction h with
  | nil => exact .node .absent (fun _ => trivial) (.nil rfl)
  | cons hitem _ ih =>
    refine .node .present (fun _ => trivial) (.mark fun _ => .blank (.sub hitem fun _ _ hm =>
      .last ih fun _ _ hms => ?_))
    subst hm hms
    rfl

/-- Items between commas. -/
theorem items
    (h : List.Forall₂ (fun ps b => Denotes (.item k) (fun m => value m = b) ps) pss bs) :
    Denotes (.items k) (fun ms => List.map value ms = bs) (commaSeparated pss) := by
  cases h with
  | nil => exact .node .absent (fun _ => trivial) (.nil rfl)
  | cons hitem hitems =>
    rw [commaSeparated_cons]
    refine .node .present (fun _ => trivial) (.sub hitem fun _ _ hm =>
      .last (itemsRest hitems) fun _ _ hms => ?_)
    subst hm hms
    rfl

end Denotes

/-! ### Where an expression may stand -/

/-- What an expression is a derivation of, by its outermost operator. Operators between expressions
stand in parentheses. -/
def Placed : Expr → List Piece → Prop
  | .unary span .not operand => Denotes .negation (Alike (Expr.unary span .not operand).bare)
  | .unary span .negate operand => Denotes .signed (Alike (Expr.unary span .negate operand).bare)
  | e => Denotes .postfixed (Alike e.bare)

namespace Placed

variable {e : Expr} {ps : List Piece}

theorem negation (h : Placed e ps) : Denotes .negation (Alike e.bare) ps := by
  cases e with
  | unary span op operand =>
    cases op with
    | negate => exact Denotes.sum h |>.relation.negation
    | not => exact h
  | _ => exact Denotes.signed h |>.sum.relation.negation

/-- An expression can stand where any expression can, whatever its form. -/
theorem expression (h : Placed e ps) : Denotes .expression (Alike e.bare) ps :=
  h.negation.expression

/-- Parentheses stand around what has an operator in front. -/
theorem asTarget (h : Placed e ps) : Denotes .postfixed (Alike e.bare) (asTarget e ps) := by
  cases e with
  | unary span op operand => exact h.expression.group.postfixed
  | _ => exact h

/-- An operator that binds looser than a negation takes one as its operand. -/
theorem negation_asOperand (h : Placed e ps) (op : BinaryOp) :
    Denotes .negation (Alike e.bare) (asOperand op e ps) := by
  cases e with
  | unary span op' operand =>
    cases op' with
    | negate => exact h.negation
    | not =>
      show Denotes .negation _ (if takesNegation op then ps else parenthesized ps)
      split
      · exact h.negation
      · exact h.expression.group.postfixed.signed.sum.relation.negation
  | _ => exact h.negation

/-- A tighter operator has parentheses around a negation. -/
theorem signed_asOperand (h : Placed e ps) (op : BinaryOp) (hop : takesNegation op = false) :
    Denotes .signed (Alike e.bare) (asOperand op e ps) := by
  cases e with
  | unary span op' operand =>
    cases op' with
    | negate => exact h
    | not =>
      show Denotes .signed _ (if takesNegation op then ps else parenthesized ps)
      rw [hop]
      exact h.expression.group.postfixed.signed
  | _ => exact Denotes.signed h

end Placed

/-! ### Operations -/

namespace Denotes

variable {ps qs : List Piece} {a b : Expr}

/-- The arithmetic operators stand at three levels. -/
theorem arithmetic (op : ArithmeticOp) (hleft : Denotes .signed (Alike a) ps)
    (hright : Denotes .signed (Alike b) qs) :
    Denotes (.left .sum) (Alike (.binary .nowhere (.arithmetic op) a b))
      (ps ++ .blank :: mark op.mark :: .blank :: qs) := by
  cases op with
  | add | subtract =>
    exact leftOperation (l := .sum) (by decide) (left (l := .product) (left (l := .power) hleft))
      (left (l := .product) (left (l := .power) hright))
  | multiply | divide | remainder =>
    exact left (l := .sum) (leftOperation (l := .product) (by decide) (left (l := .power) hleft)
      (left (l := .power) hright))
  | power =>
    exact left (l := .sum) (left (l := .product)
      (leftOperation (l := .power) (by decide) hleft hright))

end Denotes

/-- An operation between two expressions. -/
theorem Placed.binary {left right : Expr} {ps qs : List Piece} (hleft : Placed left ps)
    (hright : Placed right qs) (op : BinaryOp) :
    Denotes .expression (Alike (.binary .nowhere op left.bare right.bare))
      (asOperand op left ps ++ .blank :: mark op.mark :: .blank :: asOperand op right qs) := by
  have hleft' := hleft.negation_asOperand op
  have hright' := hright.negation_asOperand op
  -- Each operator is derived at its own level, and the levels between it and an expression have no
  -- operator of their own.
  cases op with
  | concat => exact .rightOperation (l := .concat) hleft'.disjunction hright'.expression
  | or =>
    exact .right (l := .concat)
      (.rightOperation (l := .or) hleft'.conjunction hright'.disjunction)
  | and =>
    exact .right (l := .concat) (.right (l := .or)
      (.rightOperation (l := .and) hleft' hright'.conjunction))
  | relation r =>
    have hleft := hleft.signed_asOperand (.relation r) rfl
    have hright := hright.signed_asOperand (.relation r) rfl
    exact (Denotes.relationOperation r hleft.sum hright.sum).negation.expression
  | arithmetic op =>
    have hleft := hleft.signed_asOperand (.arithmetic op) rfl
    have hright := hright.signed_asOperand (.arithmetic op) rfl
    exact (Denotes.arithmetic op hleft hright).relation.negation.expression

/-- An operator in front of an expression. -/
theorem Placed.unary {operand : Expr} {ps : List Piece} (h : Placed operand ps) (span : Span)
    (op : UnaryOp) :
    Placed (.unary span op operand) (mark op.mark :: Listing.asTarget operand ps) := by
  cases op with
  | negate =>
    refine Denotes.node .negative (fun _ => trivial) (.mark fun _ => .last h.asTarget ?_)
    intro _ e he
    exact congrArg (Expr.unary .nowhere .negate) he
  | not =>
    refine Denotes.node .negated (fun _ => trivial) (.mark fun _ =>
      .last h.asTarget.signed.sum.relation ?_)
    intro _ e he
    exact congrArg (Expr.unary .nowhere .not) he

/-- An expression of a single token. -/
theorem Denotes.literal {content : TokenContent} {lexeme : String} {a : Expr}
    (hmem : content.kind ∈ literalKinds)
    (h : ∀ t : Token, t.content = content → t.lexeme = lexeme → (literalOf t).bare = a) :
    Denotes .postfixed (Alike a) [.token content lexeme] :=
  Denotes.postfixed (.node (.literal content.kind hmem) (fun _ => trivial)
    (.token fun t hcontent hlexeme => .nil (h t hcontent hlexeme)))

theorem Denotes.nameLiteral (n : String) :
    Denotes .postfixed (Alike (.name .nowhere n)) [Listing.name n] := by
  refine Denotes.literal (by simp [TokenContent.kind, literalKinds]) fun t hcontent _ => ?_
  unfold literalOf
  rw [hcontent]
  rfl

/-! ### Expressions between marks -/

/-- Line breaks are no tokens. -/
theorem Lays.newline {parts : List Part} {P : Values parts → Prop} {ps : List Piece} {level : Nat}
    (h : Lays parts P ps) : Lays parts P (.newline level :: ps) :=
  h

namespace Denotes

variable {ps qs rs : List Piece} {a : Expr} {es : List Expr}

theorem mono {s : Symbol} {P Q : Meaning s → Prop} (h : Denotes s P ps) (hPQ : ∀ m, P m → Q m) :
    Denotes s Q ps := by
  intro ts hts
  obtain ⟨t, hyield, ht, hP⟩ := h ts hts
  exact ⟨t, hyield, ht, hPQ _ hP⟩

theorem array (h : Denotes (.items .expression) (fun m => bareExprs m = es) ps) :
    Denotes .primary (Alike (.array .nowhere es)) (mark .lbracket :: (ps ++ [mark .rbracket])) := by
  refine .node .array (fun _ => trivial) (.mark fun _ => .sub h fun _ m hm =>
    .mark fun _ => .nil ?_)
  exact congrArg (Expr.array .nowhere) hm

theorem dictionary {entries : List Entry}
    (h : Denotes (.items .entry) (fun m => bareEntries m = entries) ps) :
    Denotes .primary (Alike (.dictionary .nowhere entries))
      (mark .lbrace :: (ps ++ [mark .rbrace])) := by
  refine .node .dictionary (fun _ => trivial) (.mark fun _ => .sub h fun _ m hm =>
    .mark fun _ => .nil ?_)
  exact congrArg (Expr.dictionary .nowhere) hm

/-- A function is denoted by its parameters between parentheses and its block. -/
theorem function {parameters : List Parameter} {body : Block}
    (h : Denotes (.items .parameter) (fun m => bareParameters m = parameters) ps)
    (hbody : Denotes .block (fun m => Block.bare m = body) qs) :
    Denotes .primary (Alike (.function .nowhere parameters body))
      (word .functionWord :: (parenthesized ps ++ .blank :: qs)) := by
  have hlays : Lays _ (fun vs => Alike (.function .nowhere parameters body)
      (combine .primary .function vs))
      (word .functionWord :: mark .lparen :: (ps ++ mark .rparen :: .blank :: qs)) := by
    refine .word fun _ => .mark fun _ => .sub h fun _ m hm => .mark fun _ => .blank
      (.last hbody fun _ b hb => ?_)
    subst hm hb
    rfl
  refine .node .function (fun _ => trivial) ?_
  simpa [parenthesized] using hlays

theorem block {ss : List Stmt} (h : Denotes .statements (fun m => bareStmts m = ss) ps)
    (level : Nat) :
    Denotes .block (fun m => Block.bare m = .mk .nowhere ss)
      (mark .lbrace :: (ps ++ [.newline level, mark .rbrace])) := by
  refine .node .only (fun _ => trivial) (.mark fun _ => .sub h fun _ m hm =>
    .newline (.mark fun _ => .nil ?_))
  exact congrArg (Block.mk .nowhere) hm

theorem statements_nil : Denotes .statements (fun m => bareStmts m = []) [] :=
  .node .absent (fun _ => trivial) (.nil rfl)

/-! ### Statements -/

/-- An expression that is this one, places apart, has its form. -/
theorem form_eq {t : ParseTree .postfixed} (h : Alike a t.meaning) : t.form true = formOf a := by
  have hform : formOf t.meaning = formOf (Expr.bare t.meaning) := by
    cases t.meaning <;> rfl
  exact t.agrees.trans (hform.trans (congrArg formOf h))

/-- An assignment to what may be assigned to. -/
theorem assignment {b : Expr} {stmt : Stmt} (htarget : Denotes .postfixed (Alike a) ps)
    (hform : formOf a = some .name ∨ formOf a = some .lookup)
    (hvalue : Denotes .expression (Alike b) qs)
    (hstmt : ∀ span e e', Alike a e → Alike b e' → (simpleStmt span e (some e')).bare = stmt) :
    Denotes .statement (fun m => Stmt.bare m = stmt)
      (ps ++ .blank :: mark .assign :: .blank :: (qs ++ [mark .semicolon])) := by
  intro ts hts
  obtain ⟨ts, _, rfl, hps, hts⟩ := hts.append
  obtain ⟨assign, us, rfl, hassign, hts⟩ := hts.blank.mark
  obtain ⟨us, _, rfl, hqs, hts⟩ := hts.blank.append
  obtain ⟨stop, _, rfl, hstop, hts⟩ := hts.mark
  obtain rfl := hts.nil
  obtain ⟨target, rfl, hadmissible, ha⟩ := htarget ts hps
  obtain ⟨value, rfl, hadmissible', hb⟩ := hvalue us hqs
  -- The restriction on what is assigned to is a matter of its form.
  have hallowed : target.form true = some .name ∨ target.form true = some .lookup := by
    rwa [form_eq ha]
  refine ⟨.node .simple (.sub target (.sub (.node .present (.leaf assign hassign (.sub value .nil)))
      (.leaf stop hstop .nil))), ?_,
    ⟨hallowed, hadmissible, ⟨trivial, hadmissible', trivial⟩, trivial⟩, hstmt _ _ _ ha hb⟩
  show target.yield ++ (assign :: (value.yield ++ []) ++ [stop]) = _
  simp

/-- An assignment to a variable is denoted by its name and its value. -/
theorem assignVariable (n : String) (h : Denotes .expression (Alike a) ps) :
    Denotes .statement (fun m => Stmt.bare m = .assignVariable .nowhere .nowhere n a)
      (Listing.name n :: .blank :: mark .assign :: .blank :: (ps ++ [mark .semicolon])) := by
  refine assignment (nameLiteral n) (.inl rfl) h fun span e e' he he' => ?_
  obtain ⟨_, rfl⟩ := he.eq_name
  exact congrArg (Stmt.assignVariable .nowhere .nowhere n) he'

/-- An assignment to an element is denoted by a lookup and its value. The suffix of the lookup is
the last one, so the target is what is in front of it. -/
theorem assignElement {b c : Expr} (htarget : Denotes .postfixed (Alike a) ps)
    (hkey : Denotes .expression (Alike b) qs) (hvalue : Denotes .expression (Alike c) rs) :
    Denotes .statement (fun m => Stmt.bare m = .assignElement .nowhere .nowhere a b c)
      ((ps ++ mark .lbracket :: (qs ++ [mark .rbracket])) ++ .blank :: mark .assign :: .blank ::
        (rs ++ [mark .semicolon])) := by
  refine assignment (htarget.lookup hkey) (.inr rfl) hvalue fun span e e' he he' => ?_
  obtain ⟨_, target, key, rfl, rfl, rfl⟩ := he.eq_lookup
  exact congrArg (Stmt.assignElement .nowhere .nowhere _ _) he'

/-- A call as a statement. -/
theorem callStatement (h : Denotes .postfixed (Alike (.call .nowhere a es)) ps) :
    Denotes .statement (fun m => Stmt.bare m = .call .nowhere .nowhere a es)
      (ps ++ [mark .semicolon]) := by
  intro ts hts
  obtain ⟨ts, _, rfl, hps, hts⟩ := hts.append
  obtain ⟨stop, _, rfl, hstop, hts⟩ := hts.mark
  obtain rfl := hts.nil
  obtain ⟨target, rfl, hadmissible, ha⟩ := h ts hps
  refine ⟨.node .simple (.sub target (.sub (.node .absent .nil) (.leaf stop hstop .nil))), rfl,
    ⟨form_eq ha, hadmissible, ⟨trivial, trivial⟩, trivial⟩, ?_⟩
  obtain ⟨span, callee, arguments, hcall, rfl, rfl⟩ := ha.eq_call
  exact congrArg (fun e => (simpleStmt _ e none).bare) hcall

theorem ret (h : Denotes .expression (Alike a) ps) :
    Denotes .statement (fun m => Stmt.bare m = .ret .nowhere a)
      (word .returnWord :: .blank :: (ps ++ [mark .semicolon])) := by
  refine .node .ret (fun _ => trivial) (.word fun _ => .blank (.sub h fun _ e he =>
    .mark fun _ => .nil ?_))
  exact congrArg (Stmt.ret .nowhere) he

theorem loop {body : Block} (h : Denotes .expression (Alike a) ps)
    (hbody : Denotes .block (fun m => Block.bare m = body) qs) :
    Denotes .statement (fun m => Stmt.bare m = .loop .nowhere a body)
      (word .whileWord :: .blank :: mark .lparen :: (ps ++ mark .rparen :: .blank :: qs)) := by
  refine .node .loop (fun _ => trivial) (.word fun _ => .blank (.mark fun _ => .sub h fun _ e he =>
    .mark fun _ => .blank (.last hbody fun _ b hb => ?_)))
  subst he hb
  rfl

/-- A loop over a container is bare if its parts are. -/
theorem bare_eachStmt (span : Span) (e : Expr) (first : String) (body : Block)
    (second : Option String) :
    (eachStmt span e first body second).bare =
      eachStmt .nowhere e.bare first body.bare second := by
  cases second <;> rfl

/-- A loop over a container, with one variable or two. -/
theorem each {body : Block} {second : Option String} (h : Denotes .expression (Alike a) ps)
    (first : String) (hsecond : Denotes .secondName (· = second) rs)
    (hbody : Denotes .block (fun m => Block.bare m = body) qs) :
    Denotes .statement (fun m => Stmt.bare m = eachStmt .nowhere a first body second)
      (word .foreachWord :: .blank :: mark .lparen :: (ps ++ .blank :: word .asWord :: .blank ::
        name first :: (rs ++ mark .rparen :: .blank :: qs))) := by
  refine .node .each (fun _ => trivial) (.word fun _ => .blank (.mark fun _ => .sub h fun _ e he =>
    .blank (.word fun _ => .blank (.name fun _ hfirst => .sub hsecond fun _ _ hm =>
      .mark fun _ => .blank (.last hbody fun _ b hb => ?_)))))
  subst he hfirst hm hb
  exact bare_eachStmt _ _ _ _ _

/-- A conditional with what follows its block. -/
theorem conditional {body : Block} {later : Otherwise} (h : Denotes .expression (Alike a) ps)
    (hbody : Denotes .block (fun m => Block.bare m = body) qs)
    (hlater : Denotes .otherwise (fun m => Otherwise.bare m.1 = later) rs) :
    Denotes .conditional (fun m => m.test.bare = a ∧ m.body.bare = body ∧ m.later.bare = later)
      (word .ifWord :: .blank :: mark .lparen :: (ps ++ mark .rparen :: .blank :: (qs ++ rs))) :=
  .node .only (fun _ => trivial) (.word fun _ => .blank (.mark fun _ => .sub h fun _ _ he =>
    .mark fun _ => .blank (.sub hbody fun _ _ hb => .last hlater fun _ _ hl => ⟨he, hb, hl⟩)))

theorem branch {body : Block} {later : Otherwise}
    (h : Denotes .conditional
      (fun m => m.test.bare = a ∧ m.body.bare = body ∧ m.later.bare = later) ps) :
    Denotes .statement (fun m => Stmt.bare m = .branch .nowhere a body later) ps := by
  refine .node .branch (fun _ => trivial) (.last h ?_)
  rintro _ c ⟨rfl, rfl, rfl⟩
  rfl

/-- A conditional as an alternative is denoted by the pieces of the conditional. -/
theorem branchAlternative {body : Block} {later : Otherwise}
    (h : Denotes .conditional
      (fun m => m.test.bare = a ∧ m.body.bare = body ∧ m.later.bare = later) ps) :
    Denotes .alternative (fun m => Otherwise.bare m.1 = .branch .nowhere a body later) ps := by
  refine .node .branch (fun _ => trivial) (.last h ?_)
  rintro _ c ⟨rfl, rfl, rfl⟩
  rfl

theorem blockAlternative {body : Block} (h : Denotes .block (fun m => Block.bare m = body) ps) :
    Denotes .alternative (fun m => Otherwise.bare m.1 = .block body) ps :=
  .node .block (fun _ => trivial) (.last h fun _ _ hm => congrArg Otherwise.block hm)

theorem otherwise {later : Otherwise}
    (h : Denotes .alternative (fun m => Otherwise.bare m.1 = later) ps) :
    Denotes .otherwise (fun m => Otherwise.bare m.1 = later)
      (.blank :: word .elseWord :: .blank :: ps) :=
  .node .present (fun _ => trivial) (.blank (.word fun _ => .blank (.last h fun _ _ hm => hm)))

/-- A declaration of at least one name. -/
theorem declareGlobal (n : String) (ns : List String) :
    Denotes .statement (fun m => Stmt.bare m = .declareGlobal .nowhere (n :: ns))
      (word .globalWord :: .blank :: (([name n] ++
        (ns.map fun n => [name n]).flatMap fun next => mark .comma :: .blank :: next) ++
        [mark .semicolon])) := by
  have hname : ∀ n : String, Denotes (.item .name) (fun m => Prod.fst m = n) [name n] := fun n =>
    .node .only (fun _ => trivial) (.name fun _ hn => .nil hn)
  have hnames : List.Forall₂ (fun ps n => Denotes (.item .name) (fun m => Prod.fst m = n) ps)
      (ns.map fun n => [name n]) ns := by
    induction ns with
    | nil => exact .nil
    | cons n ns ih => exact .cons (hname n) ih
  rw [List.append_assoc]
  refine .node .declareGlobal (fun _ => trivial) (.word fun _ => .blank (.sub (hname n)
    fun _ _ hm => .sub (itemsRest hnames) fun _ _ hms => .mark fun _ => .nil ?_))
  subst hm hms
  rfl

end Denotes

/-! ### Listings -/

namespace Listing

/-- What the pieces of items denote, one by one. -/
abbrev DenoteItems (k : ItemKind) {β : Type} (value : ItemMeaning k → β) :
    List (List Piece) → List β → Prop :=
  List.Forall₂ fun ps b => Denotes (.item k) (fun m => value m = b) ps

variable {pss : List (List Piece)}

/-- Expressions between commas are denoted one by one. -/
theorem denotes_expressions {es : List Expr} (h : DenoteItems .expression Expr.bare pss es) :
    Denotes (.items .expression) (fun m => bareExprs m = es) (commaSeparated pss) :=
  (Denotes.items h).mono fun m hm => (bareExprs_eq_map m).trans hm

theorem denotes_entries {es : List Entry} (h : DenoteItems .entry Entry.bare pss es) :
    Denotes (.items .entry) (fun m => bareEntries m = es) (commaSeparated pss) :=
  (Denotes.items h).mono fun m hm => (bareEntries_eq_map m).trans hm

theorem denotes_parameters {qs : List Parameter}
    (h : DenoteItems .parameter Parameter.bare pss qs) :
    Denotes (.items .parameter) (fun m => bareParameters m = qs) (commaSeparated pss) :=
  (Denotes.items h).mono fun m hm => (bareParameters_eq_map m).trans hm

mutual

/-- The pieces of an expression denote it wherever it is placed; parentheses stand where its place
asks for them. -/
theorem placed_ofExpr (level : Nat) : ∀ e : Expr, e.Spelled → Placed e (ofExpr level e)
  | .number _ value text, _ => by
    rw [ofExpr]
    refine Denotes.literal (by simp [TokenContent.kind, literalKinds]) fun t hcontent hlexeme => ?_
    unfold literalOf
    rw [hcontent, hlexeme]
    rfl
  | .string _ value, _ => by
    rw [ofExpr]
    refine Denotes.literal (by simp [TokenContent.kind, literalKinds]) fun t hcontent _ => ?_
    unfold literalOf
    rw [hcontent]
    rfl
  | .boolean _ value, _ => by
    rw [ofExpr]
    refine Denotes.literal (by cases value <;> decide) fun t hcontent _ => ?_
    unfold literalOf
    rw [hcontent]
    cases value <;> rfl
  | .name _ n, _ => by
    rw [ofExpr]
    exact Denotes.nameLiteral n
  | .lookup _ target key, h => by
    simp only [Expr.Spelled] at h
    have htarget := (placed_ofExpr level target h.1).asTarget
    have hkey := (placed_ofExpr level key h.2).expression
    rw [ofExpr, List.append_assoc]
    exact htarget.lookup hkey
  | .binary _ op left right, h => by
    simp only [Expr.Spelled] at h
    have hleft := placed_ofExpr level left h.1
    have hright := placed_ofExpr level right h.2
    rw [ofExpr]
    -- A binary operation is always listed in parentheses, so it can stand wherever a primary may.
    exact (hleft.binary hright op).group.postfixed
  | .unary span op operand, h => by
    simp only [Expr.Spelled] at h
    rw [ofExpr]
    exact (placed_ofExpr level operand h).unary span op
  | .array _ elements, h => by
    simp only [Expr.Spelled] at h
    have helements := denotes_expressions (denotes_ofExprs level elements h)
    rw [ofExpr]
    exact helements.array.postfixed
  | .dictionary _ entries, h => by
    simp only [Expr.Spelled] at h
    have hentries := denotes_entries (denotes_ofEntries level entries h)
    rw [ofExpr]
    exact hentries.dictionary.postfixed
  | .function _ parameters body, h => by
    simp only [Expr.Spelled] at h
    have hparameters := denotes_parameters (denotes_ofParameters level parameters h.1)
    have hbody := denotes_ofBlock level body h.2
    rw [ofExpr]
    exact (hparameters.function hbody).postfixed
  | .call _ callee arguments, h => by
    simp only [Expr.Spelled] at h
    have hcallee := (placed_ofExpr level callee h.1).asTarget
    have harguments := denotes_expressions (denotes_ofExprs level arguments h.2)
    rw [ofExpr]
    exact hcallee.call harguments

theorem denotes_ofExprs (level : Nat) : ∀ es : List Expr, SpelledExprs es →
    DenoteItems .expression Expr.bare (ofExprs level es) (bareExprs es)
  | [], _ => .nil
  | e :: es, h => by
    simp only [SpelledExprs] at h
    have he := (placed_ofExpr level e h.1).expression
    have hes := denotes_ofExprs level es h.2
    rw [ofExprs, bareExprs]
    exact .cons (.node .only (fun _ => trivial) (.last he fun _ _ hm => hm)) hes

theorem denotes_ofEntries (level : Nat) : ∀ es : List Entry, SpelledEntries es →
    DenoteItems .entry Entry.bare (ofEntries level es) (bareEntries es)
  | [], _ => .nil
  | .mk key value :: es, h => by
    simp only [SpelledEntries] at h
    have hkey := (placed_ofExpr level key h.1).expression
    have hvalue := (placed_ofExpr level value h.2.1).expression
    have hes := denotes_ofEntries level es h.2.2
    rw [ofEntries, bareEntries, ofEntry]
    refine .cons (.node .only (fun _ => trivial) (.sub hkey fun _ _ hm => .mark fun _ =>
      .blank (.last hvalue fun _ _ hm' => ?_))) hes
    show Entry.mk _ _ = Entry.mk key.bare value.bare
    rw [← hm, ← hm']

theorem denotes_ofParameters (level : Nat) : ∀ ps : List Parameter, SpelledParameters ps →
    DenoteItems .parameter Parameter.bare (ofParameters level ps) (bareParameters ps)
  | [], _ => .nil
  | .mk _ n none :: ps, h => by
    simp only [SpelledParameters] at h
    have hps := denotes_ofParameters level ps h.2
    have hdefault : Denotes .default (· = none) [] := .node .absent (fun _ => trivial) (.nil rfl)
    rw [ofParameters, bareParameters, ofParameter]
    refine .cons (.node .only (fun _ => trivial) (.name fun _ hname => .last hdefault ?_)) hps
    rintro _ _ rfl
    subst hname
    rfl
  | .mk _ n (some value) :: ps, h => by
    simp only [SpelledParameters] at h
    have hvalue := (placed_ofExpr level value h.2.1).expression
    have hps := denotes_ofParameters level ps h.2.2
    have hdefault : Denotes .default (fun m => ∃ e : Expr, m = some e ∧ Alike value.bare e)
        (.blank :: mark .assign :: .blank :: ofExpr level value) :=
      .node .present (fun _ => trivial) (.blank (.mark fun _ => .blank (.last hvalue
        fun _ e he => ⟨e, rfl, he⟩)))
    rw [ofParameters, bareParameters, ofParameter]
    refine .cons (.node .only (fun _ => trivial) (.name fun _ hname => .last hdefault ?_)) hps
    rintro _ _ ⟨e, rfl, he⟩
    subst hname
    exact congrArg (fun v => Parameter.mk .nowhere _ (some v)) he

/-- The pieces of a block denote it, at whatever level it is indented. -/
theorem denotes_ofBlock (level : Nat) :
    ∀ b : Block, b.Spelled → Denotes .block (fun m => Block.bare m = b.bare) (ofBlock level b)
  | .mk _ [], _ => by
    rw [ofBlock]
    exact Denotes.statements_nil.block level
  | .mk _ (s :: ss), h => by
    simp only [Block.Spelled] at h
    rw [ofBlock]
    exact (denotes_ofLines (level + 1) (s :: ss) h).block level

/-- The pieces of a statement denote it, at whatever level it is indented. -/
theorem denotes_ofStmt (level : Nat) :
    ∀ s : Stmt, s.Spelled → Denotes .statement (fun m => Stmt.bare m = s.bare) (ofStmt level s)
  | .assignVariable _ _ n value, h => by
    simp only [Stmt.Spelled] at h
    rw [ofStmt, List.append_assoc]
    exact (placed_ofExpr level value h.2).expression.assignVariable n
  | .assignElement _ _ target key value, h => by
    simp only [Stmt.Spelled] at h
    have htarget := (placed_ofExpr level target h.1).asTarget
    have hkey := (placed_ofExpr level key h.2.1).expression
    have hvalue := (placed_ofExpr level value h.2.2).expression
    have hassign := htarget.assignElement hkey hvalue
    simp only [List.append_assoc, List.cons_append, List.nil_append] at hassign
    simp only [ofStmt, List.append_assoc, List.cons_append, List.nil_append]
    exact hassign
  | .call _ _ callee arguments, h => by
    simp only [Stmt.Spelled] at h
    have hcallee := (placed_ofExpr level callee h.1).asTarget
    have harguments := denotes_expressions (denotes_ofExprs level arguments h.2)
    rw [ofStmt]
    exact (hcallee.call harguments).callStatement
  | .ret _ value, h => by
    simp only [Stmt.Spelled] at h
    rw [ofStmt]
    exact (placed_ofExpr level value h).expression.ret
  | .declareGlobal _ [], h => by
    simp only [Stmt.Spelled] at h
    exact absurd rfl h.1
  | .declareGlobal _ (n :: ns), _ => by
    rw [ofStmt, List.map_cons, commaSeparated_cons]
    exact Denotes.declareGlobal n ns
  | .branch _ condition body otherwise, h => by
    simp only [Stmt.Spelled] at h
    have hcondition := (placed_ofExpr level condition h.1).expression
    have hbody := denotes_ofBlock level body h.2.1
    have hotherwise := denotes_ofOtherwise level otherwise h.2.2
    have hbranch := (hcondition.conditional hbody hotherwise).branch
    simp only [ofStmt, parenthesized, List.append_assoc, List.cons_append]
    exact hbranch
  | .loop _ condition body, h => by
    simp only [Stmt.Spelled] at h
    have hcondition := (placed_ofExpr level condition h.1).expression
    have hbody := denotes_ofBlock level body h.2
    rw [ofStmt, parenthesized, List.append_assoc, List.append_assoc]
    exact hcondition.loop hbody
  | .each _ source none value body, h => by
    simp only [Stmt.Spelled] at h
    have hsource := (placed_ofExpr level source h.1).expression
    have hbody := denotes_ofBlock level body h.2.2.2
    have hsecond : Denotes .secondName (· = none) [] :=
      .node .absent (fun _ => trivial) (.nil rfl)
    simp only [ofStmt, parenthesized, List.append_assoc, List.cons_append]
    exact hsource.each value hsecond hbody
  | .each _ source (some key) value body, h => by
    simp only [Stmt.Spelled] at h
    have hsource := (placed_ofExpr level source h.1).expression
    have hbody := denotes_ofBlock level body h.2.2.2
    have hsecond : Denotes .secondName (· = some value)
        [.blank, mark .colon, .blank, name value] :=
      .node .present (fun _ => trivial) (.blank (.mark fun _ => .blank (.name fun _ hname =>
        .nil (congrArg some hname))))
    simp only [ofStmt, parenthesized, List.append_assoc, List.cons_append]
    exact hsource.each key hsecond hbody

theorem denotes_ofLines (level : Nat) : ∀ ss : List Stmt, SpelledStmts ss →
    Denotes .statements (fun m => bareStmts m = bareStmts ss) (ofLines level ss)
  | [], _ => Denotes.statements_nil
  | s :: ss, h => by
    simp only [SpelledStmts] at h
    have hs := denotes_ofStmt level s h.1
    have hss := denotes_ofLines level ss h.2
    rw [ofLines, bareStmts]
    refine .node .present (fun _ => trivial) (.newline (.sub hs fun _ _ hm =>
      .last hss fun _ _ hms => ?_))
    show _ :: _ = _
    rw [← hm, ← hms]

theorem denotes_ofOtherwise (level : Nat) : ∀ o : Otherwise, o.Spelled →
    Denotes .otherwise (fun m => Otherwise.bare m.1 = o.bare) (ofOtherwise level o)
  | .nothing, _ => by
    rw [ofOtherwise]
    exact .node .absent (fun _ => trivial) (.nil rfl)
  | .block block, h => by
    simp only [Otherwise.Spelled] at h
    have hblock := denotes_ofBlock level block h
    rw [ofOtherwise]
    exact hblock.blockAlternative.otherwise
  | .branch _ condition body otherwise, h => by
    simp only [Otherwise.Spelled] at h
    have hcondition := (placed_ofExpr level condition h.1).expression
    have hbody := denotes_ofBlock level body h.2.1
    have hotherwise := denotes_ofOtherwise level otherwise h.2.2
    have hbranch := (hcondition.conditional hbody hotherwise).branchAlternative.otherwise
    simp only [ofOtherwise, parenthesized, List.append_assoc, List.cons_append]
    exact hbranch

end

/-- The listing of a program denotes its statements, places apart. -/
theorem denotes_pieces (program : Program) (h : SpelledStmts program.statements) :
    Denotes .statements (fun m => bareStmts m = bareStmts program.statements) program.pieces := by
  unfold Program.pieces
  have hlines := denotes_ofLines 0 program.statements h
  cases hstatements : program.statements with
  | nil => exact Denotes.statements_nil
  | cons s ss =>
    -- The new line that is dropped spells nothing.
    rw [hstatements, ofLines] at hlines
    rw [ofLines]
    exact hlines

end Listing

end DecimalScript
