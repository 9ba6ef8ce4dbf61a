import DecimalScript.Decimal.Reader
import DecimalScript.Source.Failure
import DecimalScript.Token.Basic
import DecimalScript.Token.Escape

/-!
# From characters to tokens

Between tokens stand gaps of blanks and comments. Each token is the longest piece of its class at
its place, so the next one is decided by the first characters alone. The functions here say how many
characters a gap or a token takes; lexemes and positions are then cut from the source text itself,
so they cannot disagree with it.
-/

namespace DecimalScript.Lexer

/-! ### Gaps -/

/-- The blanks between tokens. -/
def isGapBlank (c : Char) : Bool :=
  c = ' ' || c = '\t' || c = '\r' || c = '\n'

/-- The length of a comment's text up to and including the first `*/`, if there is one. -/
def commentLength? : List Char → Option Nat
  | [] => none
  | '*' :: '/' :: _ => some 2
  | _ :: rest => (commentLength? rest).map (· + 1)

/-- The length of a line's text, up to the line feed or the end. -/
def lineLength (text : List Char) : Nat :=
  (text.takeWhile (· != '\n')).length

/-- Counts characters that come before a gap. -/
def shiftGap (n : Nat) : Except Nat Nat → Except Nat Nat
  | .ok k => .ok (n + k)
  | .error k => .error (n + k)

/-- The length of the blanks and comments at the start of a text; or, if a comment there is not
closed, how far in it starts. -/
def gapLength (text : List Char) : Except Nat Nat :=
  match text with
  | [] => .ok 0
  | c :: rest =>
    if isGapBlank c then shiftGap 1 (gapLength rest)
    else match c, rest with
      | '/', '/' :: line => shiftGap (2 + lineLength line) (gapLength (line.drop (lineLength line)))
      | '/', '*' :: comment =>
        match commentLength? comment with
        | some n => shiftGap (2 + n) (gapLength (comment.drop n))
        | none => .error 0
      | _, _ => .ok 0
termination_by text.length
decreasing_by all_goals simp_all <;> omega

/-! ### Strings -/

/-- How reading a string literal ends. -/
inductive StringScan where
  /-- The text of the string and the length of the literal, closing quote included. -/
  | closed (value : List Char) (length : Nat)
  | unclosed
  /-- How far in the letter of the unknown escape stands, and the letter if there is one. -/
  | badEscape (offset : Nat) (letter : Option Char)

/-- Puts a character of the string, written with `n` characters, in front. -/
def StringScan.after (c : Char) (n : Nat) : StringScan → StringScan
  | closed value length => closed (c :: value) (n + length)
  | unclosed => unclosed
  | badEscape offset letter => badEscape (n + offset) letter

/-- Reads the rest of a string literal, behind its opening quote. -/
def scanString (quote : Char) : List Char → StringScan
  | [] => .unclosed
  | '\\' :: [] => .badEscape 1 none
  | '\\' :: letter :: rest =>
    match Escape.unescape? letter with
    | some c => (scanString quote rest).after c 2
    | none => .badEscape 1 (some letter)
  | c :: rest => if c = quote then .closed [] 1 else (scanString quote rest).after c 1

/-! ### Tokens -/

/-- The characters at fault, by offset and length from the start of the token. -/
structure Slip where
  fault : LexicalFault
  offset : Nat
  length : Nat

/-- The numeral systems with a mark of their own. -/
inductive Radix where
  | hexadecimal
  | octal
  | binary
deriving DecidableEq

namespace Radix

/-- The numeral system with a letter behind the leading zero. -/
def ofLetter? : Char → Option Radix
  | 'x' | 'X' => some hexadecimal
  | 'o' | 'O' => some octal
  | 'b' | 'B' => some binary
  | _ => none

/-- The number of digits of a numeral system. -/
def base : Radix → Nat
  | hexadecimal => 16
  | octal => 8
  | binary => 2

/-- The name of a numeral system. -/
def name : Radix → String
  | hexadecimal => "hexadecimal"
  | octal => "octal"
  | binary => "binary"

/-- The value of an ASCII digit or letter in a numeral system that has it. -/
def digitValue? (radix : Radix) (c : Char) : Option Nat :=
  let value :=
    if c.isDigit then some (c.toNat - 48)
    else if 'a' ≤ c ∧ c ≤ 'f' then some (c.toNat - 87)
    else if 'A' ≤ c ∧ c ≤ 'F' then some (c.toNat - 55)
    else none
  value.filter (· < radix.base)

end Radix

/-- Reads a number with a radix mark: the letter and every letter or digit behind it belong to it.
-/
def scanRadixNumber (radix : Radix) (letter : Char) (rest : List Char) :
    Except Slip (TokenContent × Nat) :=
  let run := rest.takeWhile Text.isAlphanumeric
  let text := String.ofList ('0' :: letter :: run)
  let invalid : Except Slip (TokenContent × Nat) :=
    .error ⟨.invalidRadixNumber radix.name text, 0, run.length + 2⟩
  match run.mapM radix.digitValue? with
  | none => invalid
  | some [] => invalid
  | some digits => .ok (.number (.ofNat (Numeral.value radix.base digits)), run.length + 2)

/-- Whether a character can continue a number without a radix mark. -/
def isNumberChar (c : Char) : Bool :=
  Text.isDigit c || c = '.'

/-- Reads a number without a radix mark: every digit and point belongs to it. -/
def scanPlainNumber (text : List Char) : Except Slip (TokenContent × Nat) :=
  let run := text.takeWhile isNumberChar
  let lexeme := String.ofList run
  if 2 ≤ run.count '.' || run.getLast? = some '.' then
    .error ⟨.invalidNumber lexeme, 0, run.length⟩
  else match Decimal.readUnsigned? run with
    | some value => .ok (.number value, run.length)
    | none => .error ⟨.unreadableNumber lexeme, 0, run.length⟩

/-- Reads a number. -/
def scanNumber (text : List Char) : Except Slip (TokenContent × Nat) :=
  match text with
  | '0' :: letter :: rest =>
    match Radix.ofLetter? letter with
    | some radix => scanRadixNumber radix letter rest
    | none => scanPlainNumber text
  | _ => scanPlainNumber text

/-- Whether a character can start a name. -/
def isNameStart (c : Char) : Bool :=
  Text.isLetter c || c = '_'

/-- Whether a character can continue a name. -/
def isNameChar (c : Char) : Bool :=
  Text.isAlphanumeric c || c = '_'

/-- Reads a name or a reserved word. -/
def scanName (text : List Char) : TokenContent × Nat :=
  let run := text.takeWhile isNameChar
  let spelling := String.ofList run
  match Word.ofText? spelling with
  | some word => (.word word, run.length)
  | none => (.name spelling, run.length)

/-- The mark that is one character and not the start of a longer one. -/
def singleMark? : Char → Option Mark
  | '+' => some .plus
  | '-' => some .minus
  | '*' => some .star
  | '/' => some .slash
  | '%' => some .percent
  | '^' => some .caret
  | '~' => some .tilde
  | '<' => some .lt
  | '>' => some .gt
  | '=' => some .assign
  | '!' => some .not
  | '(' => some .lparen
  | ')' => some .rparen
  | '\x7b' => some .lbrace
  | '\x7d' => some .rbrace
  | '[' => some .lbracket
  | ']' => some .rbracket
  | ':' => some .colon
  | ';' => some .semicolon
  | ',' => some .comma
  | _ => none

/-- The mark that two characters form. -/
def doubleMark? : Char → Char → Option Mark
  | '=', '=' => some .eq
  | '!', '=' => some .ne
  | '<', '=' => some .le
  | '>', '=' => some .ge
  | '&', '&' => some .and
  | '|', '|' => some .or
  | _, _ => none

/-- Reads a mark; two characters that form one go before one. -/
def scanMark (c : Char) (next : Option Char) : Except Slip (TokenContent × Nat) :=
  match next.bind (doubleMark? c) with
  | some mark => .ok (.mark mark, 2)
  | none =>
    match singleMark? c with
    | some mark => .ok (.mark mark, 1)
    | none =>
      if c = '&' || c = '|' then .error ⟨.halfOperator c, 0, 1⟩
      else .error ⟨.unexpectedCharacter c, 0, 1⟩

/-- Reads a string literal behind its opening quote; `text` starts with the quote. -/
def scanQuoted (quote : Char) (rest : List Char) : Except Slip (TokenContent × Nat) :=
  match scanString quote rest with
  | .closed value length => .ok (.string (String.ofList value), length + 1)
  | .unclosed => .error ⟨.unclosedString, 0, rest.length + 1⟩
  | .badEscape offset letter => .error ⟨.invalidEscape letter, offset + 1, letter.toList.length⟩

/-- Reads the token at the start of a text that does not start with a gap: what it stands for, and
how many characters it takes. -/
def scanToken (c : Char) (rest : List Char) : Except Slip (TokenContent × Nat) :=
  if c = '\x22' || c = '\x27' then scanQuoted c rest
  else if Text.isDigit c then scanNumber (c :: rest)
  else if isNameStart c then .ok (scanName (c :: rest))
  else scanMark c rest.head?

/-! ### Source texts -/

/-- What reading a source text gives: the tokens before the first fault, and either the fault or the
position at which the text ends. -/
structure Scan where
  tokens : List Token
  ending : Except Failure Position

/-- Puts a token in front. -/
def Scan.cons (token : Token) (scan : Scan) : Scan :=
  { scan with tokens := token :: scan.tokens }

/-- The failure for characters at fault, given the text from the position on. -/
def failureAt (file : Option String) (p : Position) (text : List Char) (slip : Slip) : Failure :=
  let start := p.advance (text.take slip.offset)
  let stop := start.advance ((text.drop slip.offset).take slip.length)
  { fault := .lexical slip.fault, span := ⟨file, start, stop⟩ }

/-- Reads the tokens of a text from a position on. -/
def scanFrom (file : Option String) (p : Position) (text : List Char) : Scan :=
  match gapLength text with
  | .error offset => ⟨[], .error (failureAt file p text ⟨.unclosedComment, offset, text.length⟩)⟩
  | .ok gap =>
    let start := p.advance (text.take gap)
    match _h : text.drop gap with
    | [] => ⟨[], .ok start⟩
    | c :: rest =>
      match scanToken c rest with
      | .error slip => ⟨[], .error (failureAt file start (c :: rest) slip)⟩
      | .ok (content, length) =>
        let lexeme := c :: rest.take (length - 1)
        let stop := start.advance lexeme
        let token : Token := ⟨content, String.ofList lexeme, ⟨file, start, stop⟩⟩
        (scanFrom file stop (rest.drop (length - 1))).cons token
termination_by text.length
decreasing_by
  have := congrArg List.length _h
  simp at this ⊢
  omega

/-- Reads the tokens of a source text. A failure quotes the line on which its span starts. -/
def scan (source : String) (file : Option String) : Scan :=
  let raw := scanFrom file .start source.toList
  { raw with ending := raw.ending.mapError (·.quoting (Text.lines source)) }

end DecimalScript.Lexer
