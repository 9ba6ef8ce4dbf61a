import DecimalScript.Program.Listing
import DecimalScript.Proofs.Respelling

/-!
# The layout of a listing

A listing reads back as the tokens it was laid out from: wherever two tokens stand side by side, the
second does not go on with the first, and everywhere else there is a blank or a new line.

- `Legible`: a sequence of pieces in which every token is read as itself.
- `scan_listing`: reading a legible sequence gives its tokens.
- `Standing`: pieces that are legible behind an opening and in front of what stands apart;
  `Trailing`: pieces that stand apart themselves. What trails may follow what stands
  (`Standing.append`), and a listing is put together from such pieces alone, so that of a program
  whose names and numbers read back (`Program.Spelled`) is legible as a whole.
-/

namespace DecimalScript

open Lexer (Reads ends isGapBlank)

namespace Listing

/-! ### Legible sequences -/

/-- The tokens of pieces, each with its spelling. -/
def spellings : List Piece → List (TokenContent × String)
  | [] => []
  | .token content lexeme :: ps => (content, lexeme) :: spellings ps
  | .blank :: ps | .newline _ :: ps => spellings ps

/-- The characters of pieces. -/
def chars (pieces : List Piece) : List Char :=
  pieces.flatMap fun piece => piece.text.toList

/-- Every token is read as itself; `prev` is the token that the pieces stand directly behind, if
there is one. -/
def Legible : Option TokenContent → List Piece → Prop
  | _, [] => True
  | prev, .token content lexeme :: ps =>
    (∀ a ∈ prev, ∀ next ∈ lexeme.toList.head?, ends a next = true) ∧
      Reads content lexeme.toList ∧ Legible (some content) ps
  | _, .blank :: ps | _, .newline _ :: ps => Legible none ps

theorem toList_text (pieces : List Piece) : (text pieces).toList = chars pieces := by
  unfold text chars
  rw [String.toList_join, List.flatMap_map]

/-- What is legible behind a token does not go on with it. -/
theorem Legible.ends_head {a : TokenContent} {pieces : List Piece} (h : Legible (some a) pieces) :
    ∀ next ∈ (chars pieces).head?, ends a next = true := by
  intro next hnext
  cases pieces with
  | nil => cases hnext
  | cons piece ps =>
    -- The next character is that of the next token, or a blank, at which every token ends.
    cases piece with
    | token content lexeme =>
      obtain ⟨hends, ⟨c, cs, hlexeme, -⟩, -⟩ := h
      refine hends a rfl next ?_
      simp only [chars, List.flatMap_cons, Piece.text, hlexeme] at hnext ⊢
      exact hnext
    | blank =>
      cases hnext
      exact Lexer.ends_of_isGapBlank a (by decide)
    | newline level =>
      simp only [chars, List.flatMap_cons, Piece.text, String.toList_ofList] at hnext
      cases hnext
      exact Lexer.ends_of_isGapBlank a (by decide)

/-- Reading a legible sequence gives its tokens. -/
theorem scanFrom_legible (file : Option String) :
    ∀ (pieces : List Piece) {prev : Option TokenContent} (gap : List Char) (p : Position),
      Legible prev pieces → (∀ c ∈ gap, isGapBlank c = true) →
      ∃ tokens stop, Lexer.scanFrom file p (gap ++ chars pieces) = ⟨tokens, .ok stop⟩ ∧
        tokens.map (fun t => (t.content, t.lexeme)) = spellings pieces
  | [], prev, gap, p, _, hgap => by
    obtain ⟨stop, hscan⟩ := Lexer.scanFrom_blanks hgap file p
    refine ⟨[], stop, ?_, rfl⟩
    simpa [chars] using hscan
  | .token content lexeme :: ps, prev, gap, p, h, hgap => by
    obtain ⟨-, hreads, hlater⟩ := h
    obtain ⟨span, stop, hscan⟩ := Lexer.scanFrom_token
      (Lexer.gapLength_blanks hgap) hreads hlater.ends_head file p
    obtain ⟨tokens, stop', htokens, hspellings⟩ :=
      scanFrom_legible file ps [] stop hlater nofun
    rw [List.nil_append] at htokens
    refine ⟨⟨content, lexeme, span⟩ :: tokens, stop', ?_, ?_⟩
    · show Lexer.scanFrom file p (gap ++ (lexeme.toList ++ chars ps)) = _
      rw [hscan, htokens, String.ofList_toList]
      rfl
    · simp [spellings, hspellings]
  | .blank :: ps, prev, gap, p, h, hgap => by
    have hblanks : ∀ c ∈ gap ++ [' '], isGapBlank c = true := by
      intro c hc
      rcases List.mem_append.mp hc with hc | hc
      · exact hgap c hc
      · rw [List.mem_singleton.mp hc]
        rfl
    obtain ⟨tokens, stop, htokens, hspellings⟩ := scanFrom_legible file ps _ p h hblanks
    refine ⟨tokens, stop, ?_, hspellings⟩
    rw [List.append_assoc] at htokens
    exact htokens
  | .newline level :: ps, prev, gap, p, h, hgap => by
    have hblanks : ∀ c ∈ gap ++ '\n' :: List.replicate (4 * level) ' ', isGapBlank c = true := by
      intro c hc
      rcases List.mem_append.mp hc with hc | hc
      · exact hgap c hc
      · rcases List.mem_cons.mp hc with rfl | hc
        · rfl
        · rw [List.eq_of_mem_replicate hc]
          rfl
    obtain ⟨tokens, stop, htokens, hspellings⟩ := scanFrom_legible file ps _ p h hblanks
    refine ⟨tokens, stop, ?_, hspellings⟩
    rw [List.append_assoc] at htokens
    simpa [chars, Piece.text] using htokens

/-- A legible listing is read as its tokens. -/
theorem scan_listing {pieces : List Piece} (h : Legible none pieces) (file : Option String) :
    ∃ tokens stop, Lexer.scan (text pieces) file = ⟨tokens, .ok stop⟩ ∧
      tokens.map (fun t => (t.content, t.lexeme)) = spellings pieces := by
  obtain ⟨tokens, stop, htokens, hspellings⟩ :=
    scanFrom_legible file pieces [] .start h nofun
  refine ⟨tokens, stop, ?_, hspellings⟩
  unfold Lexer.scan
  rw [toList_text, ← List.nil_append (chars pieces), htokens]
  rfl

/-! ### What may stand next to what -/

/-- Behind such a token, everything may stand that does not start with `=`. -/
def Opens (prev : Option TokenContent) : Prop :=
  ∀ a ∈ prev, ∀ next, next ≠ '=' → ends a next = true

theorem opens_none : Opens none :=
  nofun

/-- The marks that stand directly in front of an expression. -/
theorem opens_mark {m : Mark} (hm : m ∈ [.lparen, .lbracket, .lbrace, .minus, .not]) :
    Opens (some (.mark m)) := by
  rintro _ ⟨⟩ next hnext
  simp only [List.mem_cons, List.not_mem_nil, or_false] at hm
  rcases hm with rfl | rfl | rfl | rfl | rfl
  all_goals simp [ends, Lexer.markEnds, hnext]

/-- Pieces that are legible behind any token. -/
def Apart (rest : List Piece) : Prop :=
  ∀ prev, Legible prev rest

theorem apart_nil : Apart [] :=
  fun _ => trivial

/-- Behind a blank, anything legible is apart. -/
theorem apart_blank {rest : List Piece} (h : Legible none rest) : Apart (.blank :: rest) := by
  intro prev
  cases prev <;> exact h

theorem apart_newline {rest : List Piece} (level : Nat) (h : Legible none rest) :
    Apart (.newline level :: rest) := by
  intro prev
  cases prev <;> exact h

/-- The marks that nothing in front of them goes on with. -/
def tightMarks : List Mark :=
  [.lparen, .rparen, .lbracket, .rbracket, .lbrace, .rbrace, .colon, .semicolon, .comma]

/-- A tight mark ends every token in front of it. -/
theorem ends_tight (a : TokenContent) {m : Mark} (hm : m ∈ tightMarks) :
    ∀ next ∈ m.text.toList.head?, ends a next = true := by
  simp only [tightMarks, List.mem_cons, List.not_mem_nil, or_false] at hm
  rcases hm with rfl | rfl | rfl | rfl | rfl | rfl | rfl | rfl | rfl <;> rintro _ ⟨⟩
  all_goals
    cases a with
    | mark m => cases m <;> rfl
    | _ => rfl

/-- A tight mark is apart from what is in front of it. -/
theorem apart_mark {m : Mark} (hm : m ∈ tightMarks) {rest : List Piece}
    (h : Legible (some (.mark m)) rest) : Apart (mark m :: rest) :=
  fun _ => ⟨fun a _ => ends_tight a hm, Lexer.reads_mark m, h⟩

/-- Pieces that are legible behind an opening and in front of what stands apart. -/
def Standing (pieces : List Piece) : Prop :=
  ∀ ⦃prev : Option TokenContent⦄ ⦃rest : List Piece⦄, Opens prev → Apart rest →
    Legible prev (pieces ++ rest)

/-- Pieces that stand apart, in front of what does. -/
def Trailing (pieces : List Piece) : Prop :=
  ∀ ⦃rest : List Piece⦄, Apart rest → Apart (pieces ++ rest)

theorem trailing_nil : Trailing [] :=
  fun _ hrest => hrest

/-- What may trail anything may be trailed itself. -/
theorem Trailing.append {pieces later : List Piece} (h : Trailing pieces)
    (hlater : Trailing later) : Trailing (pieces ++ later) := by
  intro rest hrest
  rw [List.append_assoc]
  exact h (hlater hrest)

theorem Trailing.standing {pieces : List Piece} (h : Trailing pieces) : Standing pieces :=
  fun _ _ _ hrest => h hrest _

theorem standing_nil : Standing [] :=
  trailing_nil.standing

/-- What can stand alone can stand with what may trail it. -/
theorem Standing.append {pieces later : List Piece} (h : Standing pieces)
    (hlater : Trailing later) : Standing (pieces ++ later) := by
  intro prev rest hprev hrest
  rw [List.append_assoc]
  exact h hprev (hlater hrest)

/-- With a blank in front, what can stand alone may trail. -/
theorem trailing_blank {pieces : List Piece} (h : Standing pieces) : Trailing (.blank :: pieces) :=
  fun _ hrest => apart_blank (h opens_none hrest)

theorem trailing_newline {pieces : List Piece} (level : Nat) (h : Standing pieces) :
    Trailing (.newline level :: pieces) :=
  fun _ hrest => apart_newline level (h opens_none hrest)

theorem trailing_mark {m : Mark} (hm : m ∈ tightMarks) {pieces : List Piece}
    (h : Trailing pieces) : Trailing (mark m :: pieces) :=
  fun _ hrest => apart_mark hm (h hrest _)

/-- Pieces between two marks stand apart. -/
theorem Standing.between {pieces : List Piece} (h : Standing pieces) {start stop : Mark}
    (hstart : start ∈ [.lparen, .lbracket, .lbrace]) (hstop : stop ∈ tightMarks) :
    Trailing (mark start :: pieces ++ [mark stop]) := by
  intro rest hrest
  have hopens : Opens (some (.mark start)) :=
    opens_mark (List.Sublist.subset (by decide) hstart)
  have htight : start ∈ tightMarks := List.Sublist.subset (by decide) hstart
  rw [List.cons_append, List.cons_append, List.append_assoc]
  exact apart_mark htight (h hopens (apart_mark hstop (hrest _)))

/-- An operator stands between blanks. -/
theorem trailing_spaced (m : Mark) {pieces : List Piece} (h : Standing pieces) :
    Trailing (.blank :: mark m :: .blank :: pieces) :=
  fun _ hrest => apart_blank ⟨nofun, Lexer.reads_mark m, h opens_none hrest⟩

/-- Nothing but a mark is read from a text that starts with `=`. -/
theorem head_ne_assign {content : TokenContent} {lexeme : List Char} (h : Reads content lexeme)
    (hcontent : ∀ m, content ≠ .mark m) : ∀ next ∈ lexeme.head?, next ≠ '=' := by
  obtain ⟨c, cs, rfl, hscan⟩ := h
  rintro _ ⟨⟩ rfl
  obtain ⟨-, htoken⟩ := hscan [] nofun
  rw [Lexer.scanToken_mark (by decide)] at htoken
  obtain ⟨m, hm⟩ := Lexer.scanMark_content htoken
  exact hcontent m hm

/-- A token can stand alone if it is read back and what is behind it is legible. -/
theorem standing_token {content : TokenContent} {lexeme : String} {pieces : List Piece}
    (hreads : Reads content lexeme.toList) (hfirst : ∀ next ∈ lexeme.toList.head?, next ≠ '=')
    (h : ∀ ⦃rest : List Piece⦄, Apart rest → Legible (some content) (pieces ++ rest)) :
    Standing (.token content lexeme :: pieces) :=
  fun _ _ hprev hrest =>
    ⟨fun a ha next hnext => hprev a ha next (hfirst next hnext), hreads, h hrest⟩

/-- A reserved word can stand alone: nothing that may trail goes on with its letters. -/
theorem standing_word (w : Word) {pieces : List Piece} (h : Trailing pieces) :
    Standing (word w :: pieces) :=
  standing_token (Lexer.reads_word w) (head_ne_assign (Lexer.reads_word w) nofun)
    fun _ hrest => h hrest _

theorem standing_name {n : String} (hn : Reads (.name n) n.toList) : Standing [name n] :=
  standing_token hn (head_ne_assign hn nofun) fun _ hrest => hrest _

/-- The sign of an operation stands directly in front of its operand. -/
theorem standing_sign (op : UnaryOp) {pieces : List Piece} (h : Standing pieces) :
    Standing (mark op.mark :: pieces) := by
  have hfirst : ∀ next ∈ op.mark.text.toList.head?, next ≠ '=' := by
    cases op <;> simp [UnaryOp.mark, Mark.text]
  have hopens : Opens (some (.mark op.mark)) := opens_mark (by cases op <;> decide)
  exact standing_token (Lexer.reads_mark op.mark) hfirst fun _ hrest => h hopens hrest

/-- Between parentheses anything that can stand alone may trail. -/
theorem Standing.parenthesized {pieces : List Piece} (h : Standing pieces) :
    Trailing (parenthesized pieces) :=
  h.between (by decide) (by decide)

/-- A target can stand alone, with its parentheses or without. -/
theorem Standing.asTarget {pieces : List Piece} (h : Standing pieces) (e : Expr) :
    Standing (asTarget e pieces) := by
  cases e with
  | unary span op operand => exact h.parenthesized.standing
  | _ => exact h

theorem Standing.asOperand {pieces : List Piece} (h : Standing pieces) (op : BinaryOp) (e : Expr) :
    Standing (asOperand op e pieces) := by
  cases e with
  | unary span op' operand =>
    cases op' with
    | negate => exact h
    | not =>
      show Standing (if takesNegation op then pieces else Listing.parenthesized pieces)
      split
      · exact h
      · exact h.parenthesized.standing
  | _ => exact h

/-- Items between commas can stand alone if each of them can. -/
theorem standing_commaSeparated : ∀ {items : List (List Piece)}, (∀ item ∈ items, Standing item) →
    Standing (commaSeparated items)
  | [], _ => standing_nil
  | [item], h => h item List.mem_cons_self
  | item :: next :: items, h =>
    have hlater := standing_commaSeparated fun i hi => h i (List.mem_cons_of_mem item hi)
    (h item List.mem_cons_self).append (trailing_mark (by decide) (trailing_blank hlater))

end Listing

/-! ### Programs whose names and numbers read back -/

/-- A name that reads back. -/
def SpelledName (n : String) : Prop :=
  Reads (.name n) n.toList

mutual

/-- The names and numbers of an expression read back. -/
def Expr.Spelled : Expr → Prop
  | .number _ value text => Reads (.number value) text.toList
  | .string _ _ | .boolean _ _ => True
  | .name _ n => SpelledName n
  | .lookup _ target key => target.Spelled ∧ key.Spelled
  | .binary _ _ left right => left.Spelled ∧ right.Spelled
  | .unary _ _ operand => operand.Spelled
  | .array _ elements => SpelledExprs elements
  | .dictionary _ entries => SpelledEntries entries
  | .function _ parameters body => SpelledParameters parameters ∧ body.Spelled
  | .call _ callee arguments => callee.Spelled ∧ SpelledExprs arguments

/-- The names and numbers of expressions read back. -/
def SpelledExprs : List Expr → Prop
  | [] => True
  | e :: es => e.Spelled ∧ SpelledExprs es

/-- The names and numbers of entries read back. -/
def SpelledEntries : List Entry → Prop
  | [] => True
  | .mk key value :: es => key.Spelled ∧ value.Spelled ∧ SpelledEntries es

/-- The names and numbers of parameters read back. -/
def SpelledParameters : List Parameter → Prop
  | [] => True
  | .mk _ n none :: ps => SpelledName n ∧ SpelledParameters ps
  | .mk _ n (some value) :: ps => SpelledName n ∧ value.Spelled ∧ SpelledParameters ps

/-- The names and numbers of a block read back. -/
def Block.Spelled : Block → Prop
  | .mk _ statements => SpelledStmts statements

/-- The names and numbers of a statement read back; a declaration has a name. -/
def Stmt.Spelled : Stmt → Prop
  | .assignVariable _ _ n value => SpelledName n ∧ value.Spelled
  | .assignElement _ _ target key value => target.Spelled ∧ key.Spelled ∧ value.Spelled
  | .call _ _ callee arguments => callee.Spelled ∧ SpelledExprs arguments
  | .ret _ value => value.Spelled
  | .declareGlobal _ names => names ≠ [] ∧ ∀ n ∈ names, SpelledName n
  | .branch _ condition body otherwise => condition.Spelled ∧ body.Spelled ∧ otherwise.Spelled
  | .loop _ condition body => condition.Spelled ∧ body.Spelled
  | .each _ source key value body =>
    source.Spelled ∧ (∀ n ∈ key, SpelledName n) ∧ SpelledName value ∧ body.Spelled

/-- The names and numbers of statements read back. -/
def SpelledStmts : List Stmt → Prop
  | [] => True
  | s :: ss => s.Spelled ∧ SpelledStmts ss

/-- The names and numbers of what follows the block of a conditional read back. -/
def Otherwise.Spelled : Otherwise → Prop
  | .nothing => True
  | .block block => block.Spelled
  | .branch _ condition body otherwise => condition.Spelled ∧ body.Spelled ∧ otherwise.Spelled

end

/-! ### Listings of such programs -/

namespace Listing

/-- A semicolon ends a statement. -/
theorem trailing_semicolon : Trailing [mark .semicolon] :=
  trailing_mark (by decide) trailing_nil

mutual

/-- The pieces of an expression can stand alone. -/
theorem standing_ofExpr (level : Nat) : ∀ e : Expr, e.Spelled → Standing (ofExpr level e)
  | .number _ value text, h => by
    simp only [Expr.Spelled] at h
    simp only [ofExpr]
    exact standing_token h (head_ne_assign h nofun) fun _ hrest => hrest _
  | .string _ value, _ => by
    have h := Lexer.reads_string value
    simp only [ofExpr]
    exact standing_token h (head_ne_assign h nofun) fun _ hrest => hrest _
  | .boolean _ value, _ => by
    simp only [ofExpr]
    exact standing_word _ trailing_nil
  | .name _ n, h => by
    simp only [Expr.Spelled] at h
    simp only [ofExpr]
    exact standing_name h
  | .lookup _ target key, h => by
    simp only [Expr.Spelled] at h
    have htarget := (standing_ofExpr level target h.1).asTarget target
    have hkey : Trailing (mark .lbracket :: ofExpr level key ++ [mark .rbracket]) :=
      (standing_ofExpr level key h.2).between (by decide) (by decide)
    simpa only [ofExpr, List.append_assoc] using htarget.append hkey
  | .binary _ op left right, h => by
    simp only [Expr.Spelled] at h
    have hleft := (standing_ofExpr level left h.1).asOperand op left
    have hright := (standing_ofExpr level right h.2).asOperand op right
    simp only [ofExpr]
    exact (hleft.append (trailing_spaced op.mark hright)).parenthesized.standing
  | .unary _ op operand, h => by
    simp only [Expr.Spelled] at h
    have hoperand := (standing_ofExpr level operand h).asTarget operand
    simp only [ofExpr]
    exact standing_sign op hoperand
  | .array _ elements, h => by
    simp only [Expr.Spelled] at h
    have helements := standing_commaSeparated (standing_ofExprs level elements h)
    simp only [ofExpr]
    exact (helements.between (by decide) (by decide)).standing
  | .dictionary _ entries, h => by
    simp only [Expr.Spelled] at h
    have hentries := standing_commaSeparated (standing_ofEntries level entries h)
    simp only [ofExpr]
    exact (hentries.between (by decide) (by decide)).standing
  | .function _ parameters body, h => by
    simp only [Expr.Spelled] at h
    have hparameters := standing_commaSeparated (standing_ofParameters level parameters h.1)
    have hbody := standing_ofBlock level body h.2
    simp only [ofExpr]
    exact (standing_word .functionWord hparameters.parenthesized).append (trailing_blank hbody)
  | .call _ callee arguments, h => by
    simp only [Expr.Spelled] at h
    have hcallee := (standing_ofExpr level callee h.1).asTarget callee
    have harguments := standing_commaSeparated (standing_ofExprs level arguments h.2)
    simp only [ofExpr]
    exact hcallee.append harguments.parenthesized

theorem standing_ofExprs (level : Nat) :
    ∀ es : List Expr, SpelledExprs es → ∀ item ∈ ofExprs level es, Standing item
  | [], _ => nofun
  | e :: es, h => by
    simp only [SpelledExprs] at h
    have hlater := standing_ofExprs level es h.2
    simp only [ofExprs, List.forall_mem_cons]
    exact ⟨standing_ofExpr level e h.1, hlater⟩

theorem standing_ofEntries (level : Nat) :
    ∀ es : List Entry, SpelledEntries es → ∀ item ∈ ofEntries level es, Standing item
  | [], _ => nofun
  | .mk key value :: es, h => by
    simp only [SpelledEntries] at h
    have hkey := standing_ofExpr level key h.1
    have hvalue := standing_ofExpr level value h.2.1
    have hlater := standing_ofEntries level es h.2.2
    simp only [ofEntries, ofEntry, List.forall_mem_cons]
    exact ⟨hkey.append (trailing_mark (by decide) (trailing_blank hvalue)), hlater⟩

theorem standing_ofParameters (level : Nat) :
    ∀ ps : List Parameter, SpelledParameters ps → ∀ item ∈ ofParameters level ps, Standing item
  | [], _ => nofun
  | .mk _ n none :: ps, h => by
    simp only [SpelledParameters] at h
    have hlater := standing_ofParameters level ps h.2
    simp only [ofParameters, ofParameter, List.forall_mem_cons]
    exact ⟨standing_name h.1, hlater⟩
  | .mk _ n (some value) :: ps, h => by
    simp only [SpelledParameters] at h
    have hvalue := standing_ofExpr level value h.2.1
    have hlater := standing_ofParameters level ps h.2.2
    simp only [ofParameters, ofParameter, List.forall_mem_cons]
    exact ⟨(standing_name h.1).append (trailing_spaced .assign hvalue), hlater⟩

theorem standing_ofBlock (level : Nat) : ∀ b : Block, b.Spelled → Standing (ofBlock level b)
  | .mk _ [], _ => by
    have hbraces : Trailing [mark .lbrace, mark .rbrace] :=
      standing_nil.between (by decide) (by decide)
    simp only [ofBlock]
    exact hbraces.standing
  | .mk _ (s :: ss), h => by
    simp only [Block.Spelled] at h
    have hlines := trailing_ofLines (level + 1) (s :: ss) h
    have hclosing : Trailing [.newline level, mark .rbrace] :=
      trailing_newline level (trailing_mark (by decide) trailing_nil).standing
    simp only [ofBlock]
    exact (trailing_mark (by decide) (hlines.append hclosing)).standing

/-- The pieces of a statement can stand alone. -/
theorem standing_ofStmt (level : Nat) : ∀ s : Stmt, s.Spelled → Standing (ofStmt level s)
  | .assignVariable _ _ n value, h => by
    simp only [Stmt.Spelled] at h
    have hvalue := standing_ofExpr level value h.2
    simp only [ofStmt]
    exact ((standing_name h.1).append (trailing_spaced .assign hvalue)).append trailing_semicolon
  | .assignElement _ _ target key value, h => by
    simp only [Stmt.Spelled] at h
    have htarget := (standing_ofExpr level target h.1).asTarget target
    have hkey : Trailing (mark .lbracket :: ofExpr level key ++ [mark .rbracket]) :=
      (standing_ofExpr level key h.2.1).between (by decide) (by decide)
    have hvalue := standing_ofExpr level value h.2.2
    have hassigned := (htarget.append hkey).append
      ((trailing_spaced .assign hvalue).append trailing_semicolon)
    simpa [ofStmt] using hassigned
  | .call _ _ callee arguments, h => by
    simp only [Stmt.Spelled] at h
    have hcallee := (standing_ofExpr level callee h.1).asTarget callee
    have harguments := standing_commaSeparated (standing_ofExprs level arguments h.2)
    simp only [ofStmt]
    exact (hcallee.append harguments.parenthesized).append trailing_semicolon
  | .ret _ value, h => by
    simp only [Stmt.Spelled] at h
    have hvalue := standing_ofExpr level value h
    simp only [ofStmt]
    exact (standing_word .returnWord (trailing_blank hvalue)).append trailing_semicolon
  | .declareGlobal _ names, h => by
    simp only [Stmt.Spelled] at h
    have hnames : Standing (commaSeparated (names.map fun n => [name n])) := by
      refine standing_commaSeparated fun item hitem => ?_
      obtain ⟨n, hn, rfl⟩ := List.mem_map.mp hitem
      exact standing_name (h.2 n hn)
    simp only [ofStmt]
    exact (standing_word .globalWord (trailing_blank hnames)).append trailing_semicolon
  | .branch _ condition body otherwise, h => by
    simp only [Stmt.Spelled] at h
    have hcondition := (standing_ofExpr level condition h.1).parenthesized.standing
    have hbody := standing_ofBlock level body h.2.1
    have hotherwise := trailing_ofOtherwise level otherwise h.2.2
    simp only [ofStmt]
    exact ((standing_word .ifWord (trailing_blank hcondition)).append
      (trailing_blank hbody)).append hotherwise
  | .loop _ condition body, h => by
    simp only [Stmt.Spelled] at h
    have hcondition := (standing_ofExpr level condition h.1).parenthesized.standing
    have hbody := standing_ofBlock level body h.2
    simp only [ofStmt]
    exact (standing_word .whileWord (trailing_blank hcondition)).append (trailing_blank hbody)
  | .each _ source key value body, h => by
    simp only [Stmt.Spelled] at h
    have hsource := standing_ofExpr level source h.1
    have hvalue := standing_name h.2.2.1
    have hbody := standing_ofBlock level body h.2.2.2
    have heach : ∀ {binding : List Piece}, Standing binding →
        Standing ([word .foreachWord, .blank] ++
          parenthesized (ofExpr level source ++ [.blank, word .asWord, .blank] ++ binding) ++
          .blank :: ofBlock level body) := by
      intro binding hbinding
      have hinner := hsource.append
        (trailing_blank (standing_word .asWord (trailing_blank hbinding)))
      rw [List.append_assoc (ofExpr level source)]
      exact (standing_word .foreachWord (trailing_blank hinner.parenthesized.standing)).append
        (trailing_blank hbody)
    cases key with
    | none =>
      simp only [ofStmt]
      exact heach hvalue
    | some key =>
      have hkey := standing_name (h.2.1 key rfl)
      simp only [ofStmt]
      exact heach (hkey.append (trailing_spaced .colon hvalue))

/-- Lines of statements may trail: each starts with a line break. -/
theorem trailing_ofLines (level : Nat) :
    ∀ ss : List Stmt, SpelledStmts ss → Trailing (ofLines level ss)
  | [], _ => trailing_nil
  | s :: ss, h => by
    simp only [SpelledStmts] at h
    have hstmt := standing_ofStmt level s h.1
    have hlater := trailing_ofLines level ss h.2
    simp only [ofLines]
    exact (trailing_newline level hstmt).append hlater

theorem trailing_ofOtherwise (level : Nat) :
    ∀ o : Otherwise, o.Spelled → Trailing (ofOtherwise level o)
  | .nothing, _ => trailing_nil
  | .block block, h => by
    simp only [Otherwise.Spelled] at h
    have hblock := standing_ofBlock level block h
    simp only [ofOtherwise]
    exact trailing_blank (standing_word .elseWord (trailing_blank hblock))
  | .branch _ condition body otherwise, h => by
    simp only [Otherwise.Spelled] at h
    have hcondition := (standing_ofExpr level condition h.1).parenthesized.standing
    have hbody := standing_ofBlock level body h.2.1
    have hotherwise := trailing_ofOtherwise level otherwise h.2.2
    have hinner := standing_word .ifWord (trailing_blank hcondition)
    simp only [ofOtherwise]
    exact ((trailing_blank (standing_word .elseWord (trailing_blank hinner))).append
      (trailing_blank hbody)).append hotherwise

end

/-- The listing of a program whose names and numbers read back is legible. -/
theorem legible_pieces (program : Program) (h : SpelledStmts program.statements) :
    Legible none program.pieces := by
  unfold Program.pieces
  cases hstatements : program.statements with
  | nil => trivial
  | cons s ss =>
    rw [hstatements, SpelledStmts] at h
    have hlegible := standing_ofStmt 0 s h.1 opens_none (trailing_ofLines 0 ss h.2 apart_nil)
    simpa [ofLines] using hlegible

end Listing

end DecimalScript
