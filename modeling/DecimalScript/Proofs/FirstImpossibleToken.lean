import DecimalScript.Proofs.ParsedPlaces
import DecimalScript.Proofs.RefusedExpressions

/-!
# Refusals name the first impossible token

`refusals_name_the_first_impossible_token`: where the parser refuses tokens, those before the
offending one begin a text that it accepts, and no such text begins with the offending one behind
them.

- `at_of_branch`, `at_of_each` and so on: statements with a reserved word are stuck where they are
  refused.
- `at_of_assignmentOrCall`: so are assignments and calls, where the form of the expression in front
  settles what may come next.
- `statementFails_or_at`: statements in a row are stuck in one of them, or all of them are complete
  and what comes next starts none.
- `decides_nested`: by induction on the bound on nesting, all parsers decide their symbols.
-/

namespace DecimalScript

open Cursor DecimalScript.Parser Derivations

namespace Grammar

variable {parts : List Part} {bound : Nat} {expr : Parser Expr} {block : Parser Block} {c : Cursor}
  {r : Refusal}

/-! ### Statements with a reserved word -/

theorem at_of_condition (hexpr : Decides .expression id bound expr) (hsmall : c.rest.length ≤ bound)
    (herror : condition expr c = .error r) :
    r.At (.mark .lparen :: .expression :: .mark .rparen :: parts) c := by
  rcases bind_eq_error.mp herror with hopen | ⟨_, c₁, hopen, herror⟩
  · exact at_of_mark hopen
  obtain ⟨start, ⟨hstartKind, -⟩, hstart⟩ := mark_eq_ok.mp hopen
  have hlength := hstart.length_lt
  exact .leaf hstartKind hstart (at_of_closed hexpr (by omega) herror)

/-- What is refused behind a condition. -/
theorem at_behind_condition (hexpr : Decides .expression id bound expr) {c₁ : Cursor} {e : Expr}
    (hok : condition expr c = .ok (e, c₁)) (hr : r.At parts c₁) :
    r.At (.mark .lparen :: .expression :: .mark .rparen :: parts) c := by
  obtain ⟨start, stop, t, _, _, hstartKind, hstopKind, hstart, ht, hstop, -⟩ :=
    condition_sound hexpr.toParses hok
  exact .leaf hstartKind hstart (.sub ht (.leaf hstopKind hstop hr))

theorem length_lt_of_condition (hexpr : Decides .expression id bound expr) {c₁ : Cursor} {e : Expr}
    (hok : condition expr c = .ok (e, c₁)) : c₁.rest.length < c.rest.length := by
  obtain ⟨_, _, t, _, _, -, -, hstart, ht, hstop, -⟩ := condition_sound hexpr.toParses hok
  have := hstart.length_lt
  have := ht.length_le
  have := hstop.length_lt
  omega

/-- A conditional behind its reserved word, where what follows its block is stuck where it is
refused. -/
theorem at_of_conditional {α : Type} (hexpr : Decides .expression id bound expr)
    (hblock : Decides .block id bound block) (hsmall : c.rest.length ≤ bound)
    {later : Parser (Otherwise × Option Span)}
    (hlater : ∀ {c₁ : Cursor}, c₁.rest.length < c.rest.length → later c₁ = .error r →
      r.At [.symbol .otherwise] c₁)
    {make : Expr → Block → Otherwise × Option Span → α}
    (herror : (do
      let test ← condition expr
      let body ← block
      let others ← later
      return make test body others : Parser α) c = .error r) :
    r.At [.mark .lparen, .expression, .mark .rparen, .symbol .block, .symbol .otherwise] c := by
  rcases bind_eq_error.mp herror with htest | ⟨_, c₁, htest, herror⟩
  · exact at_of_condition hexpr hsmall htest
  -- The condition has taken its parentheses, so the budget of the two blocks is below the bound.
  have hlength := length_lt_of_condition hexpr htest
  refine at_behind_condition hexpr htest ?_
  rcases bind_eq_error.mp herror with hbody | ⟨_, c₂, hbody, herror⟩
  · exact (hblock.refuses (by omega) hbody).first
  obtain ⟨body, hcovers, -⟩ := hblock.sound hbody
  have hlength' := hcovers.length_le
  have hothers := eq_error_of_return herror
  exact .sub hcovers (hlater (by omega) hothers)

/-- What follows a conditional is refused in the reserved word's alternative; its absence is no
refusal. -/
theorem at_of_otherwise (hexpr : Decides .expression id bound expr)
    (hblock : Decides .block id bound block) (n : Nat) :
    ∀ {c : Cursor}, c.rest.length ≤ bound → otherwise expr block n c = .error r →
      r.At [.symbol .otherwise] c := by
  induction n with
  | zero => exact fun _ herror => nomatch herror
  | succ n ih =>
    intro c hsmall herror
    obtain ⟨next, c₁, haccept, herror⟩ := accept_of_eq_error herror
    cases next with
    | none => cases herror
    | some _ =>
      obtain ⟨elseToken, helse, htoken⟩ := accept_eq_some.mp haccept
      obtain ⟨hkind, -⟩ := isWord_eq_some.mp helse
      have hlength := htoken.length_lt
      refine .started .present (fun _ => trivial) hkind htoken ?_
      -- The token behind the word says whether a conditional or a block follows.
      obtain ⟨next, c₂, haccept, herror⟩ := accept_of_eq_error herror
      cases next with
      | none =>
        obtain ⟨hnone, rfl⟩ := accept_eq_none.mp haccept
        have hbody := eq_error_of_return herror
        refine .begun AlternativeForm.block (fun _ => trivial) rfl (fun token hhead hstarts => ?_)
          (hblock.refuses (by omega) hbody)
        exact Bool.or_eq_false_iff.mpr
          ⟨beq_eq_false_iff_ne.mpr (isWord_eq_none.mp (hnone token hhead)), hstarts⟩
      | some _ =>
        obtain ⟨ifToken, hif, hstart⟩ := accept_eq_some.mp haccept
        obtain ⟨hifKind, -⟩ := isWord_eq_some.mp hif
        have hlength' := hstart.length_lt
        suffices hconditional : r.At [.symbol .conditional] c₁ from
          .node AlternativeForm.branch (fun _ => trivial)
            ⟨ifToken, hstart.head?, by rw [hifKind]; rfl⟩ hconditional
        exact .started .only (fun _ => trivial) hifKind hstart
          (at_of_conditional hexpr hblock (by omega) (fun hshorter => ih (by omega)) herror)

section Words

variable {token : Token} {c₁ : Cursor}

theorem at_of_ret (hexpr : Decides .expression id bound expr) (hsmall : c.rest.length ≤ bound)
    (herror : ret expr token.span c = .error r) : r.At [.expression, .mark .semicolon] c :=
  at_of_closed hexpr hsmall herror

theorem at_of_branch (hexpr : Decides .expression id bound expr)
    (hblock : Decides .block id bound block) (hsmall : c.rest.length ≤ bound)
    (herror : branch expr block token.span c = .error r) :
    r.At [.mark .lparen, .expression, .mark .rparen, .symbol .block, .symbol .otherwise] c :=
  at_of_conditional hexpr hblock hsmall
    (fun hshorter => at_of_otherwise hexpr hblock _ (by omega)) herror

theorem at_of_loop (hexpr : Decides .expression id bound expr)
    (hblock : Decides .block id bound block) (hsmall : c.rest.length ≤ bound)
    (herror : loop expr block token.span c = .error r) :
    r.At [.mark .lparen, .expression, .mark .rparen, .symbol .block] c := by
  rcases bind_eq_error.mp herror with htest | ⟨_, c₁, htest, herror⟩
  · exact at_of_condition hexpr hsmall htest
  have hlength := length_lt_of_condition hexpr htest
  refine at_behind_condition hexpr htest ?_
  have hbody := eq_error_of_return herror
  exact hblock.refuses (by omega) hbody

/-- The end of a loop over a container, behind its variables. -/
theorem at_of_eachBody (hblock : Decides .block id bound block) (hsmall : c.rest.length ≤ bound)
    {make : Block → Stmt}
    (herror : (do let _ ← mark .rparen; let body ← block; return make body : Parser Stmt) c =
      .error r) : r.At [.mark .rparen, .symbol .block] c := by
  rcases bind_eq_error.mp herror with hclose | ⟨_, c₁, hclose, herror⟩
  · exact at_of_mark hclose
  obtain ⟨stop, ⟨hstopKind, -⟩, hstop⟩ := mark_eq_ok.mp hclose
  have hlength := hstop.length_lt
  have hbody := eq_error_of_return herror
  exact .leaf hstopKind hstop (hblock.refuses (by omega) hbody)

/-- A loop over a container is refused at the first of its parts that is not there. -/
theorem at_of_each (hexpr : Decides .expression id bound expr)
    (hblock : Decides .block id bound block) (hsmall : c.rest.length ≤ bound)
    (herror : each expr block token.span c = .error r) :
    r.At [.mark .lparen, .expression, .word .asWord, .token .name, .symbol .secondName,
      .mark .rparen, .symbol .block] c := by
  -- The parser may fail at any of its steps. Each bullet is the failure of one of them, and the
  -- lines between say what the steps before it have taken.
  rcases bind_eq_error.mp herror with hopen | ⟨_, c₁, hopen, herror⟩
  · exact at_of_mark hopen
  obtain ⟨start, ⟨hstartKind, -⟩, hstart⟩ := mark_eq_ok.mp hopen
  have hlength := hstart.length_lt
  refine .leaf hstartKind hstart ?_
  rcases bind_eq_error.mp herror with hsource | ⟨_, c₂, hsource, herror⟩
  · exact (hexpr.refuses (by omega) hsource).first
  obtain ⟨source, hcovers, -⟩ := hexpr.sound hsource
  have hlength' := hcovers.length_le
  refine .sub hcovers ?_
  rcases bind_eq_error.mp herror with has | ⟨_, c₃, has, herror⟩
  · obtain ⟨hnone, hhere⟩ := expect_eq_error has
    exact .token (fun token hhead => isWord_eq_none.mp (hnone token hhead)) hhere
  obtain ⟨asToken, hword, has⟩ := expect_eq_ok.mp has
  have hlength'' := has.length_lt
  refine .leaf (isWord_eq_some.mp hword).1 has ?_
  rcases bind_eq_error.mp herror with hname | ⟨⟨_, _⟩, c₄, hname, herror⟩
  · exact at_of_name hname
  obtain ⟨first, ⟨hfirstKind, -⟩, hfirst⟩ := name_eq_ok.mp hname
  have hlength₁ := hfirst.length_lt
  refine .leaf hfirstKind hfirst ?_
  obtain ⟨next, c₅, haccept, herror⟩ := accept_of_eq_error herror
  cases next with
  | none =>
    obtain ⟨hnone, rfl⟩ := accept_eq_none.mp haccept
    have hsecond : (.node .absent .nil : ParseTree .secondName).Covers c₄ c₄ :=
      .absent trivial fun token hhead => isMark_eq_none_iff.mp (hnone token hhead)
    exact .sub hsecond (at_of_eachBody hblock (by omega) herror)
  | some _ =>
    obtain ⟨colon, hmark, hcolon⟩ := accept_eq_some.mp haccept
    obtain ⟨hcolonKind, -⟩ := isMark_eq_some.mp hmark
    have hlength₂ := hcolon.length_lt
    rcases bind_eq_error.mp herror with hname' | ⟨⟨_, _⟩, c₆, hname', herror⟩
    -- A colon commits the second name: the failure lies inside it, not behind it.
    · have hsecond : r.At [.symbol .secondName] c₄ :=
        .started .present (fun _ => trivial) hcolonKind hcolon (at_of_name hname')
      exact hsecond.first
    obtain ⟨second, ⟨hsecondKind, -⟩, hsecond⟩ := name_eq_ok.mp hname'
    have hlength₃ := hsecond.length_lt
    have hcovers' : (.node .present (.leaf colon hcolonKind (.leaf second hsecondKind .nil)) :
        ParseTree .secondName).Covers c₄ c₆ :=
      .node trivial rfl (.leaf hcolonKind hcolon (.leaf hsecondKind hsecond .nil))
    exact .sub hcovers' (at_of_eachBody hblock (by omega) herror)

theorem decides_name (role : String) : Decides (.item .name) id bound (name role) where
  toParses := parses_name role
  refuses := by
    intro c r _ herror
    obtain ⟨hnone, hhere⟩ := expect_eq_error herror
    exact .symbol rfl (fun token hhead =>
      beq_eq_false_iff_ne.mpr (kind_ne_of_isName (hnone token hhead))) hhere

theorem at_of_declareGlobal (hsmall : c.rest.length ≤ bound)
    (herror : declareGlobal token.span c = .error r) :
    r.At [.symbol (.item .name), .symbol (.itemsRest .name), .mark .semicolon] c := by
  have hname : Decides (.item .name) id bound (name "variable name") := decides_name _
  rcases bind_eq_error.mp herror with hchain | ⟨chained, c₁, hchain, herror⟩
  · exact at_of_itemChain hname hsmall hchain
  obtain ⟨first, others, c₂, hfirst, hothers, -⟩ := itemChain_sound hname.toParses hchain
  have hstop := eq_error_of_return herror
  exact .sub hfirst (.sub hothers (at_of_mark hstop))

end Words

/-! ### Assignments and calls -/

/-- An expression starts with its first token. -/
theorem exists_span_start {t : ParseTree .postfixed} {c₁ : Cursor} (ht : t.Covers c c₁) {e : Expr}
    (he : t.meaning = e) : ∃ token ∈ c.rest, e.span.start = token.span.start := by
  obtain ⟨token, hmem, hstart⟩ := t.forall_places_meaning
    (Q := fun span => ∃ token ∈ t.yield, span.start = token.span.start) (fun _ h => h)
    (fun token hmem => ⟨token, hmem, rfl⟩) e.span (by rw [he]; exact e.span_mem_places)
  exact ⟨token, ht.takes.rest ▸ List.mem_append_left _ hmem, hstart⟩

/-- What is neither assigned to nor a call is refused at the token behind it. -/
theorem at_of_target {t : ParseTree .postfixed} {c₁ : Cursor} (ht : t.Covers c c₁)
    (hassign : ∀ token ∈ c₁.rest.head?, token.kind = .mark .assign →
      ¬ (t.form true = some .name ∨ t.form true = some .lookup))
    (hcall : ∀ token ∈ c₁.rest.head?, token.kind = .mark .semicolon → t.form true ≠ some .call)
    (hrest : r.rest = c₁.rest) (hnames : r.Names)
    (hstarts : ∀ span ∈ r.span, ∃ token ∈ c.rest, span.start = token.span.start) :
    r.At [.symbol .statement] c := by
  refine ⟨⟨t.yield, ?_, ?_⟩, hnames, hstarts⟩
  · rw [ht.takes.rest, hrest]
  · rw [← hrest] at hassign hcall
    exact .statement t ht.admissible (hrest ▸ ht.greedy) hassign hcall

/-- What is refused behind the sign of an assignment. -/
theorem at_of_assignment {t : ParseTree .postfixed} {assign : Token} {c₁ c₂ : Cursor}
    (ht : t.Covers c c₁) (hform : t.form true = some .name ∨ t.form true = some .lookup)
    (hkind : assign.kind = .mark .assign) (hassign : Takes [assign] c₁ c₂)
    (hr : r.At [.expression, .mark .semicolon] c₂) : r.At [.symbol .statement] c := by
  obtain ⟨⟨taken, hrest, hstuck⟩, hnames, hstarts⟩ := hr
  have hbehind : c₁.rest = assign :: (taken ++ r.rest) := by
    rw [hassign.rest, hrest]
    rfl
  refine ⟨⟨t.yield ++ assign :: taken, ?_, ?_⟩, hnames, fun span hspan => ?_⟩
  · rw [ht.takes.rest, hbehind, List.append_assoc]
    rfl
  · exact .assignment t ht.admissible (hbehind ▸ ht.greedy) hform hkind hstuck
  · obtain ⟨token, hmem, hstart⟩ := hstarts span hspan
    refine ⟨token, ?_, hstart⟩
    rw [ht.takes.rest, hassign.rest]
    exact List.mem_append_right _ (List.mem_append_right _ hmem)

theorem at_of_assigned (hexpr : Decides .expression id bound expr) (hsmall : c.rest.length ≤ bound)
    (herror : assigned expr c = .error r) : r.At [.expression, .mark .semicolon] c :=
  at_of_closed hexpr hsmall herror

/-- A statement is refused in the expression that it starts with, or before it. -/
theorem at_of_postfixed (hword : ∀ token ∈ c.rest.head?, statementWord token = none)
    (hr : r.At [.symbol .postfixed] c) : r.At [.symbol .statement] c := by
  rcases starts_or_not startsPrimary c.rest with hstarts | hnone
  · obtain ⟨⟨taken, hrest, hstuck⟩, hnames, hspan⟩ := hr
    exact ⟨⟨taken, hrest, .target (hrest ▸ hstarts) hstuck⟩, hnames, hspan⟩
  · refine .symbol rfl (fun token hhead => Bool.or_eq_false_iff.mpr ⟨?_, hnone token hhead⟩)
      (hr.here hnone)
    refine Bool.eq_false_iff.mpr fun hmem => ?_
    obtain ⟨w, hw, hkind⟩ := List.mem_map.mp (List.contains_iff_mem.mp hmem)
    cases (statementWord_eq_some.mpr ⟨hw, hkind.symm, rfl⟩).symm.trans (hword token hhead)

section Target

variable {t : ParseTree .postfixed} {e : Expr} {c₁ : Cursor}

/-- The form of an expression and of its derivation are the same. -/
theorem form_of_meaning (hmeaning : t.meaning = e) : t.form true = formOf e :=
  t.agrees.trans (congrArg formOf hmeaning)

/-- An expression that nothing can be assigned to is refused at the sign of the assignment: any
other token might have gone on. -/
theorem at_of_notAssignable (ht : t.Covers c c₁) (hmeaning : t.meaning = e) {assign : Token}
    (hkind : assign.kind = .mark .assign) {c₂ : Cursor} (hassign : Takes [assign] c₁ c₂)
    (hname : formOf e ≠ some .name) (hlookup : formOf e ≠ some .lookup) :
    Refusal.At [.symbol .statement] c
      ⟨.notAssignable, some e.span, c₁.rest.head?.toList ++ c₂.rest⟩ := by
  have hrest : c₁.rest.head?.toList ++ c₂.rest = c₁.rest := by
    rw [hassign.head?, hassign.rest]
    rfl
  refine at_of_target ht (fun _ _ _ h => ?_) (fun token hhead hsemicolon => ?_) hrest ?_ ?_
  · rw [form_of_meaning hmeaning] at h
    exact h.elim hname hlookup
  · rw [hassign.head?] at hhead
    cases hhead
    cases hkind.symm.trans hsemicolon
  · exact ⟨assign, by rw [hrest]; exact hassign.head?, hkind⟩
  · exact fun span hspan => Option.some.inj hspan ▸ exists_span_start ht hmeaning

/-- What is refused at the token behind an expression starts there, or has no place. -/
theorem starts_of_here (ht : t.Covers c c₁) (hhere : r.Here c₁) :
    ∀ span ∈ r.span, ∃ token ∈ c.rest, span.start = token.span.start := by
  intro span hspan
  obtain ⟨token, hmem, hstart⟩ := hhere.starts span hspan
  exact ⟨token, ht.takes.rest ▸ List.mem_append_right _ hmem, hstart⟩

/-- An expression that is no statement is refused at the token behind it. -/
theorem at_of_refuseStatement (ht : t.Covers c c₁) (hmeaning : t.meaning = e)
    (hassign : ∀ token ∈ c₁.rest.head?, token.kind = .mark .assign →
      ¬ (t.form true = some .name ∨ t.form true = some .lookup))
    (hcall : formOf e ≠ some .call) (herror : refuseStatement e c₁.rest.head? c₁ = .error r) :
    r.At [.symbol .statement] c := by
  have hform : t.form true ≠ some .call := form_of_meaning hmeaning ▸ hcall
  unfold refuseStatement at herror
  cases hnext : c₁.rest.head?.bind (isMark .semicolon) with
  | some _ =>
    rw [hnext] at herror
    cases herror
    obtain ⟨token, hhead, hmark⟩ := Option.bind_eq_some_iff.mp hnext
    -- At a semicolon the refusal is that of a statement that is no call.
    exact at_of_target ht hassign (fun _ _ _ => hform) rfl
      ⟨token, hhead, (isMark_eq_some.mp hmark).1⟩
      fun span hspan => Option.some.inj hspan ▸ exists_span_start ht hmeaning
  | none =>
    rw [hnext] at herror
    have hhere := here_of_refuse herror
    exact at_of_target ht hassign (fun _ _ _ => hform) hhere.rest hhere.names
      (starts_of_here ht hhere)

end Target

/-- A statement without a reserved word is refused in its expression, behind it or in the assigned
value. -/
theorem at_of_assignmentOrCall (hexpr : Decides .expression id bound expr)
    (hblock : Decides .block id bound block) (hsmall : c.rest.length ≤ bound + 1) {start : Span}
    (hword : ∀ token ∈ c.rest.head?, statementWord token = none)
    (herror : assignmentOrCall expr block start c = .error r) : r.At [.symbol .statement] c := by
  have hpostfixed := decides_postfixed hexpr hblock
  rcases bind_eq_error.mp herror with htarget | ⟨e, c₁, htarget, herror⟩
  · exact at_of_postfixed hword (hpostfixed.refuses hsmall htarget)
  obtain ⟨t, ht, hmeaning⟩ := hpostfixed.sound htarget
  have hlength := ht.length_lt rfl
  rcases bind_eq_error.mp herror with hpeek | ⟨next, c₂, hpeek, herror⟩
  · cases hpeek
  cases hpeek
  obtain ⟨accepted, c₂, haccept, herror⟩ := accept_of_eq_error herror
  -- What may come next depends on the form of the expression.
  cases accepted with
  | some _ =>
    obtain ⟨assign, hmark, hassign⟩ := accept_eq_some.mp haccept
    obtain ⟨hkind, -⟩ := isMark_eq_some.mp hmark
    have hlength' := hassign.length_lt
    have hvalue : (∃ make : Expr × Span → Stmt,
        (do let value ← assigned expr; return make value : Parser Stmt) c₂ = .error r) →
        (formOf e = some .name ∨ formOf e = some .lookup) → r.At [.symbol .statement] c := by
      rintro ⟨make, herror⟩ hforms
      have hassigned := eq_error_of_return herror
      exact at_of_assignment ht (form_of_meaning hmeaning ▸ hforms) hkind hassign
        (at_of_assigned hexpr (by omega) hassigned)
    cases e with
    | name span name => exact hvalue ⟨_, herror⟩ (.inl rfl)
    | lookup span container key => exact hvalue ⟨_, herror⟩ (.inr rfl)
    | _ =>
      cases herror
      exact at_of_notAssignable ht hmeaning hkind hassign nofun nofun
  | none =>
    obtain ⟨hnone, rfl⟩ := accept_eq_none.mp haccept
    have hassign : ∀ token ∈ c₁.rest.head?, token.kind = .mark .assign →
        ¬ (t.form true = some .name ∨ t.form true = some .lookup) :=
      fun token hhead hkind => absurd hkind (isMark_eq_none.mp (hnone token hhead))
    cases e with
    | call span callee arguments =>
      have hmark := eq_error_of_return herror
      obtain ⟨hsemicolon, hhere⟩ := expect_eq_error hmark
      exact at_of_target ht hassign
        (fun token hhead hkind => absurd hkind (isMark_eq_none.mp (hsemicolon token hhead)))
        hhere.rest hhere.names (starts_of_here ht hhere)
    | _ => exact at_of_refuseStatement ht hmeaning hassign nofun herror

/-! ### Statements and blocks -/

/-- A statement is read or refused at the first token that cannot go on. -/
theorem decides_statement (hexpr : Decides .expression id bound expr)
    (hblock : Decides .block id bound block) :
    Decides .statement id (bound + 1) (statement expr block) where
  toParses := parses_statement hexpr.toParses hblock.toParses
  refuses := by
    intro c r hsmall herror
    obtain ⟨word, c₁, haccept, herror⟩ := accept_of_eq_error herror
    cases word with
    -- Without such a word the statement is an assignment or a call, and starts with an expression.
    | none =>
      obtain ⟨hword, rfl⟩ := accept_eq_none.mp haccept
      rcases bind_eq_error.mp herror with hpeek | ⟨next, c₂, hpeek, herror⟩
      · cases hpeek
      cases next with
      | none =>
        have hhead : c.rest.head? = none := congrArg Prod.fst (Except.ok.inj hpeek)
        have hsame : c = c₂ := congrArg Prod.snd (Except.ok.inj hpeek)
        subst hsame
        exact .symbol rfl (by rw [hhead]; exact nofun) (here_of_refuse herror)
      | some token =>
        have hsame : c = c₂ := congrArg Prod.snd (Except.ok.inj hpeek)
        subst hsame
        exact at_of_assignmentOrCall hexpr hblock hsmall hword herror
    | some found =>
      obtain ⟨token, hword, htoken⟩ := accept_eq_some.mp haccept
      obtain ⟨w, span⟩ := found
      obtain ⟨hmem, hkind, rfl⟩ := statementWord_eq_some.mp hword
      have hlength := htoken.length_lt
      have hsmall' : c₁.rest.length ≤ bound := by omega
      -- One case for each word that starts a statement; a refusal behind it is one of its form.
      cases w with
      | returnWord =>
        exact .started StatementForm.ret (fun _ => trivial) hkind htoken
          (at_of_ret hexpr hsmall' herror)
      | ifWord =>
        have hconditional : r.At [.symbol .conditional] c :=
          .started .only (fun _ => trivial) hkind htoken (at_of_branch hexpr hblock hsmall' herror)
        exact .node StatementForm.branch (fun _ => trivial)
          ⟨token, htoken.head?, by rw [hkind]; rfl⟩ hconditional
      | whileWord =>
        exact .started StatementForm.loop (fun _ => trivial) hkind htoken
          (at_of_loop hexpr hblock hsmall' herror)
      | foreachWord =>
        exact .started StatementForm.each (fun _ => trivial) hkind htoken
          (at_of_each hexpr hblock hsmall' herror)
      | globalWord =>
        exact .started StatementForm.declareGlobal (fun _ => trivial) hkind htoken
          (at_of_declareGlobal hsmall' herror)
      | _ => exact absurd hmem (by decide)

/-- Statements in a row fail inside one of them, or they are complete and a token comes next that
starts none though an item starts with it. -/
theorem statementFails_or_at {starts : Token → Option Unit} {p : Parser Stmt}
    (h : Decides .statement id bound p) (hfails : Fails starts (fun _ => p) c r) :
    c.rest.length ≤ bound → r.At [.symbol .statements] c ∨
      ∃ (t : ParseTree .statements) (c₁ : Cursor), t.Covers c c₁ ∧ r.Here c₁ ∧
        c₁.rest.head?.bind starts ≠ none := by
  induction hfails with
  | @here c r s hs hr =>
    intro hsmall
    have hstatement := h.refuses hsmall hr
    rcases starts_or_not startsStatement c.rest with ⟨token, hhead, hstart⟩ | hnone
    · exact .inl (.node .present (fun _ => trivial)
        ⟨token, hhead, Bool.or_eq_true_iff.mpr (.inl hstart)⟩ hstatement.first)
    · -- No statement starts here, so that those in front are all of them.
      exact .inr ⟨.node .absent .nil, c, .absent trivial hnone, hstatement.here hnone,
        by rw [hs]; exact nofun⟩
  | later hs ha _ ih =>
    intro hsmall
    obtain ⟨t, ht, -⟩ := h.sound ha
    have hlength := ht.length_le
    rcases ih (by omega) with hr | ⟨u, c₂, hu, hhere, hnext⟩
    · exact .inl (.behind .present (fun _ => trivial) rfl ht hr)
    · exact .inr ⟨.node .present (.sub t (.sub u .nil)), c₂,
        .node trivial rfl (.sub ht (.sub hu .nil)), hhere, hnext⟩

theorem decides_braced {p : Parser Stmt} (h : Decides .statement id bound p) :
    Decides .block id bound (braced p) where
  toParses := parses_braced h.toParses
  refuses := by
    intro c r hsmall herror
    rcases bind_eq_error.mp herror with hopen | ⟨_, c₁, hopen, herror⟩
    · obtain ⟨hnone, hhere⟩ := expect_eq_error hopen
      exact .symbol rfl (fun token hhead => isMark_eq_none_iff.mp (hnone token hhead)) hhere
    obtain ⟨start, ⟨hstartKind, -⟩, hstart⟩ := mark_eq_ok.mp hopen
    have hlength := hstart.length_lt
    refine .started .only (fun _ => trivial) hstartKind hstart ?_
    rcases bind_eq_error.mp herror with hmany | ⟨ss, c₂, hmany, herror⟩
    -- The statements stop at a failure of their own, or at a token that starts no statement where
    -- the closing brace is missing.
    · rcases statementFails_or_at h (fails_of_many hmany) (by omega) with
        hr | ⟨t, c₂, ht, hhere, hnext⟩
      · exact hr.first
      · refine .sub ht (.token (fun token hhead hkind => hnext ?_) hhere)
        rw [hhead]
        exact if_pos (content_of_kind hkind)
    · obtain ⟨t, ht, -⟩ := covers_of_statementRuns h.toParses rbrace_starts_no_statement
        ((many_eq_ok (consumes_statement h.toParses)).mp hmany)
      have hclose := eq_error_of_return herror
      exact .sub ht (at_of_mark hclose)

/-- Expressions and blocks, by induction on the bound on nesting. Within it, there are no tokens
where it is used up. -/
theorem decides_nested : ∀ depth : Nat,
    Decides .expression id depth (expression depth) ∧ Decides .block id depth (Grammar.block depth)
  | 0 => by
    have hnothing : ∀ {s : Symbol} {c : Cursor} {r : Refusal}, s.isOptional = false →
        c.rest.length ≤ 0 → r.Here c → r.At [.symbol s] c := by
      intro s c r hs hsmall hhere
      have hrest : c.rest = [] := List.eq_nil_of_length_eq_zero (Nat.le_zero.mp hsmall)
      exact .symbol hs (by rw [hrest]; exact nofun) hhere
    obtain ⟨hexpr, hblock⟩ := parses_nested 0
    exact ⟨⟨hexpr, fun hsmall h => hnothing rfl hsmall (here_of_refuse h)⟩,
      hblock, fun hsmall h => hnothing rfl hsmall (here_of_refuse h)⟩
  | depth + 1 => by
    obtain ⟨hexpr, hblock⟩ := decides_nested depth
    have hoperators := decides_operators (decides_postfixed hexpr hblock)
    have hbraced := decides_braced (decides_statement hexpr hblock)
    exact ⟨⟨(parses_nested (depth + 1)).1, hoperators.refuses⟩,
      (parses_nested (depth + 1)).2, hbraced.refuses⟩

end Grammar

/-! ### The first impossible token -/

namespace Program

/-- The parser accepts these tokens: it makes a program of them. -/
def Accepts (tokens : List Token) : Prop :=
  ∃ stop program, ofTokens tokens stop = .ok program

/-- Tokens with which a text begins that the parser accepts. -/
def Begins (tokens : List Token) : Prop :=
  ∃ more, Accepts (tokens ++ more)

theorem accepts_iff {tokens : List Token} :
    Accepts tokens ↔ ∃ t : ParseTree .statements, t.yield = tokens ∧ t.Admissible true := by
  constructor
  · rintro ⟨stop, program, h⟩
    obtain ⟨t, hyield, hadmissible, -⟩ := ofTokens_eq_ok.mp h
    exact ⟨t, hyield, hadmissible⟩
  · rintro ⟨t, hyield, hadmissible⟩
    exact ⟨⟨none, .start, .start⟩, _, ofTokens_eq_ok.mpr ⟨t, hyield, hadmissible, rfl⟩⟩

theorem refusal_of_ofTokens {tokens : List Token} {stop : Span} {refusal : Refusal}
    (h : ofTokens tokens stop = .error refusal) :
    Grammar.statements ⟨stop.start, tokens⟩ = .error refusal := by
  unfold ofTokens at h
  split at h
  · cases h
  · cases h
    assumption

/-- Where tokens are refused, those before the offending one begin a text that is accepted, and with
the offending one they do not. -/
theorem begins_and_not_begins {tokens : List Token} {stop : Span} {refusal : Refusal}
    (h : ofTokens tokens stop = .error refusal) :
    ∃ before, tokens = before ++ refusal.rest ∧ Begins before ∧ refusal.Names ∧
      ∀ later, later.head? = refusal.rest.head? → ¬ Accepts (before ++ later) := by
  obtain ⟨hexpr, hblock⟩ := Grammar.decides_nested tokens.length
  have hfails := fails_of_many (refusal_of_ofTokens h)
  rcases Grammar.statementFails_or_at (Grammar.decides_statement hexpr hblock) hfails
    (Nat.le_succ _) with ⟨⟨taken, hrest, hstuck⟩, hnames, -⟩ | ⟨t, c₁, ht, hhere, hnext⟩
  · -- Stuck inside a statement.
    refine ⟨taken, hrest, ?_, hnames, fun later hlater haccepts => ?_⟩
    · obtain ⟨f, hf, more, hmore⟩ := hstuck.exists_completion (derivable_symbol _)
      cases f with
      | sub t f =>
        cases f
        refine ⟨more, accepts_iff.mpr ⟨t, ?_, hf.1⟩⟩
        rw [hmore, Forest.yield, Forest.yield, List.append_nil]
    · obtain ⟨t, hyield, hadmissible⟩ := accepts_iff.mp haccepts
      have hgreedy : (Forest.sub t .nil).Greedy [] := ⟨t.greedy_of_ends (ends_nil _), trivial⟩
      refine hstuck.append_ne (.sub t .nil) ⟨hadmissible, trivial⟩ hgreedy hlater ?_
      rw [← hyield, Forest.yield, Forest.yield, List.append_nil, List.append_nil]
  · -- All statements in front are complete, and what comes next starts none.
    refine ⟨t.yield, ?_, ?_, hhere.names, fun later hlater haccepts => ?_⟩
    · rw [hhere.rest]
      exact ht.takes.rest
    · exact ⟨[], accepts_iff.mpr ⟨t, (List.append_nil _).symm, ht.admissible⟩⟩
    · obtain ⟨u, hyield, hadmissible⟩ := accepts_iff.mp haccepts
      rw [hhere.rest] at hlater
      have hsame := (u.eq_of_greedy t (by rw [hyield, List.append_nil])
        (u.greedy_of_ends (ends_nil _)) (t.greedy_congr hlater ht.greedy)).2
      rw [← hlater, ← hsame] at hnext
      exact hnext rfl

end Program

/-- A refusal names a token, unless it is for the end of the text. -/
theorem Refusal.Names.head_or_end {refusal : Refusal} (h : refusal.Names) :
    (∃ token, refusal.rest.head? = some token) ∨
      ∃ expected, refusal.fault = .unexpectedEnd expected := by
  unfold Names at h
  cases hfault : refusal.fault with
  | unexpectedEnd expected => exact .inr ⟨expected, rfl⟩
  | _ =>
    rw [hfault] at h
    obtain ⟨token, hhead, -⟩ := h
    exact .inl ⟨token, hhead⟩

open Program in
/-- **Refusals name the first impossible token.** Where the parser refuses tokens, it names one of
them, or the end. The tokens before that one begin a text that it accepts, and together with that
one they begin none. A token is named with its place and its spelling: the semicolon behind an
expression that is not a call, the sign behind one that is not assigned to, and otherwise any token.
The end is named exactly where all tokens begin a longer text that is accepted. -/
theorem refusals_name_the_first_impossible_token (tokens : List Token) (stop : Span)
    (refusal : Refusal) (h : Program.ofTokens tokens stop = .error refusal) :
    ∃ before, tokens = before ++ refusal.rest ∧ Begins before ∧
      (∀ token ∈ refusal.rest.head?, ¬ Begins (before ++ [token])) ∧ ¬ Accepts tokens ∧
      refusal.Names ∧
      ((∃ expected, refusal.fault = .unexpectedEnd expected) ↔
        ∃ more, more ≠ [] ∧ Accepts (tokens ++ more)) := by
  obtain ⟨before, htokens, hbegins, hnames, hnone⟩ := begins_and_not_begins h
  have hrefused : ¬ Accepts tokens := by
    rw [htokens]
    exact hnone refusal.rest rfl
  refine ⟨before, htokens, hbegins, ?_, hrefused, hnames, ?_, ?_⟩
  · rintro token hhead ⟨more, haccepts⟩
    rw [List.append_assoc] at haccepts
    exact hnone ([token] ++ more) hhead.symm haccepts
  · rintro ⟨expected, hfault⟩
    unfold Refusal.Names at hnames
    rw [hfault] at hnames
    rw [hnames.1, List.append_nil] at htokens
    obtain ⟨more, haccepts⟩ := hbegins
    refine ⟨more, ?_, htokens ▸ haccepts⟩
    rintro rfl
    rw [List.append_nil, ← htokens] at haccepts
    exact hrefused haccepts
  · rintro ⟨more, -, haccepts⟩
    -- An accepted continuation would go through the token the refusal names.
    refine hnames.head_or_end.resolve_left ?_
    rintro ⟨token, hhead⟩
    rw [htokens, List.append_assoc] at haccepts
    exact hnone (refusal.rest ++ more) (by rw [List.head?_append, hhead]; rfl) haccepts

/-- In `a=;` the semicolon is impossible. -/
theorem refusals_name_the_first_impossible_token_semicolon :
    let before := [tokenAt 0 (.name "a") "a", tokenAt 1 (.mark .assign) "="]
    let semicolon := tokenAt 2 (.mark .semicolon) ";"
    Program.Begins before ∧ ¬ Program.Begins (before ++ [semicolon]) ∧
      ∃ refusal,
        Program.ofTokens (before ++ [semicolon]) ⟨none, ⟨1, 4, 3⟩, ⟨1, 4, 3⟩⟩ = .error refusal ∧
        refusal.fault = .unexpectedToken "expression" ";" ∧ refusal.span = some semicolon.span := by
  intro before semicolon
  have hrefused : Program.ofTokens (before ++ [semicolon]) ⟨none, ⟨1, 4, 3⟩, ⟨1, 4, 3⟩⟩ =
      .error ⟨.unexpectedToken "expression" ";", some semicolon.span, [semicolon]⟩ := rfl
  obtain ⟨taken, htokens, hbegins, hnone, -⟩ :=
    refusals_name_the_first_impossible_token _ _ _ hrefused
  obtain rfl : before = taken := List.append_cancel_right htokens
  exact ⟨hbegins, hnone semicolon rfl, _, hrefused, rfl, rfl⟩

end DecimalScript
