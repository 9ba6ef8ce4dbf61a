/-!
# String literals

Inside quotes a backslash and a letter stand for a character that could not stand there itself.
Quoting a text writes it between single quotes, with an escape for every character that has one; a
double quote has an escape too and needs none between single quotes.
-/

namespace DecimalScript.Escape

/-- The character that an escape letter stands for. -/
def unescape? : Char → Option Char
  | 'n' => some '\n'
  | 't' => some '\t'
  | 'r' => some '\r'
  | '\\' => some '\\'
  | '\x22' => some '\x22'
  | '\x27' => some '\x27'
  | '0' => some '\x00'
  | _ => none

/-- The escape letter of a character that may not stand between single quotes. -/
def escape? : Char → Option Char
  | '\n' => some 'n'
  | '\t' => some 't'
  | '\r' => some 'r'
  | '\\' => some '\\'
  | '\x27' => some '\x27'
  | '\x00' => some '0'
  | _ => none

/-- A character as written between single quotes. -/
def quotedChar (c : Char) : List Char :=
  match escape? c with
  | some letter => ['\\', letter]
  | none => [c]

/-- A text between single quotes. -/
def quotedChars (text : List Char) : List Char :=
  '\x27' :: (text.flatMap quotedChar ++ ['\x27'])

/-- A text as a string literal. -/
def quote (text : String) : String :=
  String.ofList (quotedChars text.toList)

end DecimalScript.Escape
