import DecimalScript.Program.Basic
import DecimalScript.Token.Escape

/-!
# Programs as canonical source text

The listing of a program is source text that reads back as the same program: every operation on two
expressions stands between parentheses, and other parentheses stand only where an operator in front
would otherwise take in too much or too little. A listing is a sequence of tokens with gaps between
them, laid out one statement to a line and indented by four blanks for each block.
-/

namespace DecimalScript

namespace Listing

/-- A piece of a listing: a token with its spelling, a blank, or a new line at a level of
indentation. -/
inductive Piece where
  | token (content : TokenContent) (lexeme : String)
  | blank
  | newline (level : Nat)

/-- The text of a piece. -/
def Piece.text : Piece → String
  | token _ lexeme => lexeme
  | blank => " "
  | newline level => String.ofList ('\n' :: List.replicate (4 * level) ' ')

/-- A mark. -/
def mark (m : Mark) : Piece := .token (.mark m) m.text

/-- A reserved word. -/
def word (w : Word) : Piece := .token (.word w) w.text

/-- A name. -/
def name (n : String) : Piece := .token (.name n) n

/-- Pieces between parentheses. -/
def parenthesized (pieces : List Piece) : List Piece :=
  mark .lparen :: pieces ++ [mark .rparen]

/-- Items with commas between them. -/
def commaSeparated : List (List Piece) → List Piece
  | [] => []
  | [item] => item
  | item :: items => item ++ mark .comma :: .blank :: commaSeparated items

/-- Pieces between parentheses if an operator stands in front of the expression: behind it, a call
or a key would take in the operand alone. -/
def asTarget : Expr → List Piece → List Piece
  | .unary _ _ _, pieces => parenthesized pieces
  | _, pieces => pieces

/-- Whether an operator binds looser than a negation in front of its operand. -/
def takesNegation : BinaryOp → Bool
  | .concat | .or | .and => true
  | _ => false

/-- Pieces between parentheses if the expression is a negation, which would take in the whole of a
tighter operation. -/
def asOperand (op : BinaryOp) : Expr → List Piece → List Piece
  | .unary _ .not _, pieces => if takesNegation op then pieces else parenthesized pieces
  | _, pieces => pieces

mutual

/-- The pieces of an expression. -/
def ofExpr (level : Nat) : Expr → List Piece
  | .number _ value text => [.token (.number value) text]
  | .string _ value => [.token (.string value) (Escape.quote value)]
  | .boolean _ value => [word (if value then .trueWord else .falseWord)]
  | .name _ n => [name n]
  | .lookup _ target key =>
    asTarget target (ofExpr level target) ++ mark .lbracket :: ofExpr level key ++ [mark .rbracket]
  | .binary _ op left right =>
    parenthesized (asOperand op left (ofExpr level left) ++
      .blank :: mark op.mark :: .blank :: asOperand op right (ofExpr level right))
  | .unary _ op operand => mark op.mark :: asTarget operand (ofExpr level operand)
  | .array _ elements =>
    mark .lbracket :: commaSeparated (ofExprs level elements) ++ [mark .rbracket]
  | .dictionary _ entries =>
    mark .lbrace :: commaSeparated (ofEntries level entries) ++ [mark .rbrace]
  | .function _ parameters body =>
    word .functionWord :: parenthesized (commaSeparated (ofParameters level parameters)) ++
      .blank :: ofBlock level body
  | .call _ callee arguments =>
    asTarget callee (ofExpr level callee) ++
      parenthesized (commaSeparated (ofExprs level arguments))

/-- The pieces of expressions, one by one. -/
def ofExprs (level : Nat) : List Expr → List (List Piece)
  | [] => []
  | e :: es => ofExpr level e :: ofExprs level es

/-- The pieces of an entry. -/
def ofEntry (level : Nat) : Entry → List Piece
  | .mk key value => ofExpr level key ++ mark .colon :: .blank :: ofExpr level value

/-- The pieces of entries, one by one. -/
def ofEntries (level : Nat) : List Entry → List (List Piece)
  | [] => []
  | e :: es => ofEntry level e :: ofEntries level es

/-- The pieces of a parameter. -/
def ofParameter (level : Nat) : Parameter → List Piece
  | .mk _ n none => [name n]
  | .mk _ n (some value) =>
    [name n, .blank, mark .assign, .blank] ++ ofExpr level value

/-- The pieces of parameters, one by one. -/
def ofParameters (level : Nat) : List Parameter → List (List Piece)
  | [] => []
  | p :: ps => ofParameter level p :: ofParameters level ps

/-- The pieces of a block at a level of indentation; its statements stand one level deeper. -/
def ofBlock (level : Nat) : Block → List Piece
  | .mk _ [] => [mark .lbrace, mark .rbrace]
  | .mk _ (s :: ss) =>
    mark .lbrace :: ofLines (level + 1) (s :: ss) ++ [.newline level, mark .rbrace]

/-- The pieces of a statement. -/
def ofStmt (level : Nat) : Stmt → List Piece
  | .assignVariable _ _ n value =>
    [name n, .blank, mark .assign, .blank] ++ ofExpr level value ++ [mark .semicolon]
  | .assignElement _ _ target key value =>
    asTarget target (ofExpr level target) ++ mark .lbracket :: ofExpr level key ++
      [mark .rbracket, .blank, mark .assign, .blank] ++ ofExpr level value ++ [mark .semicolon]
  | .call _ _ callee arguments =>
    asTarget callee (ofExpr level callee) ++
      parenthesized (commaSeparated (ofExprs level arguments)) ++ [mark .semicolon]
  | .ret _ value => [word .returnWord, .blank] ++ ofExpr level value ++ [mark .semicolon]
  | .declareGlobal _ names =>
    [word .globalWord, .blank] ++ commaSeparated (names.map fun n => [name n]) ++ [mark .semicolon]
  | .branch _ condition body otherwise =>
    [word .ifWord, .blank] ++ parenthesized (ofExpr level condition) ++
      .blank :: ofBlock level body ++ ofOtherwise level otherwise
  | .loop _ condition body =>
    [word .whileWord, .blank] ++ parenthesized (ofExpr level condition) ++
      .blank :: ofBlock level body
  | .each _ source key value body =>
    let binding := match key with
      | none => [name value]
      | some key => [name key, .blank, mark .colon, .blank, name value]
    [word .foreachWord, .blank] ++
      parenthesized (ofExpr level source ++ [.blank, word .asWord, .blank] ++ binding) ++
      .blank :: ofBlock level body

/-- The pieces of statements, each behind a new line. -/
def ofLines (level : Nat) : List Stmt → List Piece
  | [] => []
  | s :: ss => .newline level :: ofStmt level s ++ ofLines level ss

/-- The pieces of what follows the block of a conditional. -/
def ofOtherwise (level : Nat) : Otherwise → List Piece
  | .nothing => []
  | .block block => [.blank, word .elseWord, .blank] ++ ofBlock level block
  | .branch _ condition body otherwise =>
    [.blank, word .elseWord, .blank, word .ifWord, .blank] ++
      parenthesized (ofExpr level condition) ++ .blank :: ofBlock level body ++
      ofOtherwise level otherwise

end

/-- The text of pieces. -/
def text (pieces : List Piece) : String :=
  String.join (pieces.map Piece.text)

end Listing

/-- The pieces of a program's listing: its statements, each on lines of its own. -/
def Program.pieces (program : Program) : List Listing.Piece :=
  (Listing.ofLines 0 program.statements).drop 1

/-- The listing of a program. -/
def Program.listing (program : Program) : String :=
  Listing.text program.pieces

end DecimalScript
