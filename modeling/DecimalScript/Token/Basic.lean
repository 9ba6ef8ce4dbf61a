import DecimalScript.Decimal.Notation
import DecimalScript.Source.Position
import DecimalScript.Text.Shown

/-!
# Tokens

A token is a number, a string, a name, a reserved word or a mark, with the text it was read from and
its place. What a token is apart from its value is its kind; the end of a source text is a kind that
no token has.
-/

namespace DecimalScript

/-- The reserved words. -/
inductive Word where
  | trueWord
  | falseWord
  | ifWord
  | elseWord
  | whileWord
  | foreachWord
  | asWord
  | functionWord
  | returnWord
  | globalWord
deriving DecidableEq

namespace Word

/-- The spelling of a reserved word. -/
def text : Word → String
  | trueWord => "true"
  | falseWord => "false"
  | ifWord => "if"
  | elseWord => "else"
  | whileWord => "while"
  | foreachWord => "foreach"
  | asWord => "as"
  | functionWord => "function"
  | returnWord => "return"
  | globalWord => "global"

/-- The reserved words, all of them. -/
def all : List Word :=
  [trueWord, falseWord, ifWord, elseWord, whileWord, foreachWord, asWord, functionWord, returnWord,
    globalWord]

/-- The reserved word with a spelling. -/
def ofText? (text : String) : Option Word :=
  all.find? fun word => word.text == text

end Word

/-- Operators and delimiters. -/
inductive Mark where
  | plus
  | minus
  | star
  | slash
  | percent
  | caret
  | tilde
  | lt
  | gt
  | le
  | ge
  | eq
  | ne
  | and
  | or
  | not
  | assign
  | lbrace
  | rbrace
  | lparen
  | rparen
  | lbracket
  | rbracket
  | colon
  | semicolon
  | comma
deriving DecidableEq

namespace Mark

/-- The spelling of a mark. -/
def text : Mark → String
  | plus => "+"
  | minus => "-"
  | star => "*"
  | slash => "/"
  | percent => "%"
  | caret => "^"
  | tilde => "~"
  | lt => "<"
  | gt => ">"
  | le => "<="
  | ge => ">="
  | eq => "=="
  | ne => "!="
  | and => "&&"
  | or => "||"
  | not => "!"
  | assign => "="
  | lbrace => "\x7b"
  | rbrace => "\x7d"
  | lparen => "("
  | rparen => ")"
  | lbracket => "["
  | rbracket => "]"
  | colon => ":"
  | semicolon => ";"
  | comma => ","

/-- The name of a mark. -/
def label : Mark → String
  | plus => "PLUS"
  | minus => "MINUS"
  | star => "STAR"
  | slash => "SLASH"
  | percent => "PERCENT"
  | caret => "CARET"
  | tilde => "TILDE"
  | lt => "LT"
  | gt => "GT"
  | le => "LE"
  | ge => "GE"
  | eq => "EQ"
  | ne => "NE"
  | and => "AND"
  | or => "OR"
  | not => "NOT"
  | assign => "ASSIGN"
  | lbrace => "LBRACE"
  | rbrace => "RBRACE"
  | lparen => "LPAREN"
  | rparen => "RPAREN"
  | lbracket => "LBRACKET"
  | rbracket => "RBRACKET"
  | colon => "COLON"
  | semicolon => "SEMICOLON"
  | comma => "COMMA"

/-- The marks, all of them. -/
def all : List Mark :=
  [plus, minus, star, slash, percent, caret, tilde, lt, gt, le, ge, eq, ne, and, or, not, assign,
    lbrace, rbrace, lparen, rparen, lbracket, rbracket, colon, semicolon, comma]

end Mark

/-- What a token is, apart from its value; or the end of the source text. -/
inductive TokenKind where
  | number
  | string
  | name
  | word (word : Word)
  | mark (mark : Mark)
  | endOfFile
deriving DecidableEq

namespace TokenKind

/-- The name of a kind of token. -/
def label : TokenKind → String
  | number => "NUMBER"
  | string => "STRING_LITERAL"
  | name => "IDENTIFIER"
  | word w => w.text.map Char.toUpper
  | mark m => m.label
  | endOfFile => "EOF"

/-- A kind of token as messages describe it. -/
def description : TokenKind → String
  | number => "number"
  | string => "string"
  | name => "identifier"
  | word w => "'" ++ w.text ++ "'"
  | mark m => "'" ++ m.text ++ "'"
  | endOfFile => "end of file"

/-- The kinds of tokens, all of them. -/
def all : List TokenKind :=
  [number, string, name, endOfFile] ++ Word.all.map word ++ Mark.all.map mark

/-- The kind of token with a name. -/
def ofLabel? (text : String) : Option TokenKind :=
  all.find? fun kind => kind.label == text

end TokenKind

/-- A token's kind together with its value. -/
inductive TokenContent where
  | number (value : Decimal)
  | string (value : String)
  | name (value : String)
  | word (word : Word)
  | mark (mark : Mark)
deriving DecidableEq

/-- The kind of a content. -/
def TokenContent.kind : TokenContent → TokenKind
  | .number _ => .number
  | .string _ => .string
  | .name _ => .name
  | .word w => .word w
  | .mark m => .mark m

/-- A piece of source text with what it stands for and its place. -/
structure Token where
  content : TokenContent
  lexeme : String
  span : Span
deriving DecidableEq

namespace Token

/-- The kind of a token. -/
def kind (token : Token) : TokenKind :=
  token.content.kind

/-- A token as listings show it: its kind, with the value where the kind has one. -/
def text (token : Token) : String :=
  match token.content with
  | .number value => token.kind.label ++ "(Decimal('" ++ value.scientific ++ "'))"
  | .string value | .name value => token.kind.label ++ "(" ++ Text.shown value ++ ")"
  | .word _ | .mark _ => token.kind.label

end Token

end DecimalScript
