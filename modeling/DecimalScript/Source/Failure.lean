import DecimalScript.Decimal.Arithmetic
import DecimalScript.Decimal.Bounds
import DecimalScript.Source.Diagnostic
import DecimalScript.Text.Lines
import DecimalScript.Text.Shown
import DecimalScript.Value.Kind

/-!
# Failures

Why a script is refused or stops: the characters form no token (`LexicalFault`), the tokens form no
program (`GrammarFault`), or an operation has no result (`RuntimeFault`). Each cause carries what
its message needs, and its code, wording and hints are given here and nowhere else. A `Failure` is a
cause with the span it is about and, once known, the source line.
-/

namespace DecimalScript

/-! ### Characters that form no token -/

/-- Why the characters of a source text form no token. -/
inductive LexicalFault where
  | unexpectedCharacter (c : Char)
  | unclosedString
  | unclosedComment
  | invalidEscape (escape : Option Char)
  | invalidNumber (text : String)
  | invalidRadixNumber (radix text : String)
  | halfOperator (c : Char)
  /-- A digit of the number has no place in a positional numeral, such as a superscript. -/
  | unreadableNumber (text : String)
deriving DecidableEq

namespace LexicalFault

/-- The code of a fault. -/
def code : LexicalFault → String
  | unexpectedCharacter _ => "E001"
  | unclosedString => "E002"
  | unclosedComment => "E004"
  | invalidEscape _ => "E005"
  | invalidNumber _ => "E006"
  | invalidRadixNumber _ _ => "E007"
  | halfOperator _ => "E008"
  | unreadableNumber _ => "E009"

/-- The wording of a fault. -/
def message : LexicalFault → String
  | unexpectedCharacter c | halfOperator c => "unexpected character '" ++ c.toString ++ "'"
  | unclosedString => "unterminated string literal"
  | unclosedComment => "unterminated multi-line comment (expected closing */)"
  | invalidEscape escape =>
    "invalid escape sequence '\\" ++ (escape.map Char.toString).getD "" ++ "'"
  | invalidNumber text => "invalid number literal '" ++ text ++ "'"
  | invalidRadixNumber radix text => "invalid " ++ radix ++ " literal '" ++ text ++ "'"
  | unreadableNumber text => "number literal '" ++ text ++ "' has a digit without a decimal value"

/-- What to try instead. -/
def hints : LexicalFault → List String
  | unclosedString => ["string literals must be closed with matching quotes"]
  | invalidEscape _ => ["valid escape sequences: \\n, \\t, \\r, \\', \\\", \\\\, \\0"]
  | invalidRadixNumber _ _ => ["prefixed literals need at least one digit: 0xFF, 0o52, 0b101"]
  | halfOperator c => ["did you mean '" ++ c.toString ++ c.toString ++ "'?"]
  | _ => []

end LexicalFault

/-! ### Tokens that form no program -/

/-- Why the tokens of a source text form no program. -/
inductive GrammarFault where
  | unexpectedToken (expected lexeme : String)
  | unexpectedEnd (expected : String)
  | notAStatement
  | notAssignable
deriving DecidableEq

namespace GrammarFault

/-- The code of a fault. -/
def code : GrammarFault → String
  | unexpectedToken _ _ => "E101"
  | unexpectedEnd _ => "E102"
  | notAStatement => "E103"
  | notAssignable => "E104"

/-- The wording of a fault. -/
def message : GrammarFault → String
  | unexpectedToken expected lexeme => "expected " ++ expected ++ ", found " ++ Text.shown lexeme
  | unexpectedEnd expected => "unexpected end of file, expected " ++ expected
  | notAStatement => "expected assignment or call"
  | notAssignable => "invalid assignment target"

/-- What to try instead. -/
def hints : GrammarFault → List String
  | notAStatement => ["only assignments and function calls may stand alone as statements"]
  | notAssignable => ["assign to a variable or to an element such as a[0]"]
  | _ => []

end GrammarFault

/-! ### Operations that have no result -/

/-- Why a running script stops. -/
inductive RuntimeFault where
  | unsetVariable (name : String)
  | expectedKind (expected : List Kind) (found : Kind)
  | unorderedKind (kind : Kind)
  | notIndexable (kind : Kind)
  | notElementAssignable (kind : Kind)
  | pairsOfArray
  | elementsOfDictionary
  | notIterable (kind : Kind)
  | notANumber (text : String)
  | noValue
  | kindMismatch (left right : Kind)
  | undeclaredFunction (name : String)
  | notCallable (kind : Kind)
  | argumentCount (label : String) (expected given : Nat)
  | arithmetic (fault : ArithmeticFault)
  | fractionalIndex (index : Decimal)
  | indexOutOfRange (index : Decimal) (length : Nat)
  | missingKey (display : String)
  | callDepth (limit : Nat)
  /-- A number or its text is out of reach. -/
  | excess (excess : Excess)
deriving DecidableEq

namespace RuntimeFault

/-- Whether a fault reports that too many calls are in progress. -/
def isCallDepth : RuntimeFault → Bool
  | callDepth _ => true
  | _ => false

/-- The code of a fault. -/
def code : RuntimeFault → String
  | unsetVariable _ => "E401"
  | expectedKind _ _ | unorderedKind _ | notIndexable _ | notElementAssignable _ | pairsOfArray
  | elementsOfDictionary | notIterable _ | notANumber _ | noValue => "E402"
  | kindMismatch _ _ => "E403"
  | undeclaredFunction _ | notCallable _ | argumentCount _ _ _ => "E404"
  | arithmetic _ => "E405"
  | fractionalIndex _ | indexOutOfRange _ _ | missingKey _ => "E406"
  | callDepth _ => "E407"
  | excess _ => "E408"

/-- The wording of a fault. -/
def message : RuntimeFault → String
  | unsetVariable name => "variable '" ++ name ++ "' is not set"
  | expectedKind expected found =>
    "expected " ++ " or ".intercalate (expected.map Kind.name) ++ ", got " ++ found.name
  | unorderedKind kind => "cannot order values of type " ++ kind.name
  | notIndexable kind => "cannot index into a " ++ kind.name
  | notElementAssignable kind => "cannot assign into a " ++ kind.name
  | pairsOfArray => "foreach with 'key : value' requires a dictionary"
  | elementsOfDictionary => "foreach over a dictionary requires 'key : value'"
  | notIterable kind => "foreach expects an array or dictionary, got " ++ kind.name
  | notANumber text => "cannot convert " ++ Text.shown text ++ " to a number"
  | noValue => "function call produced no value"
  | kindMismatch left right =>
    "type mismatch: expected type '" ++ left.name ++ "' but got type '" ++ right.name ++ "'"
  | undeclaredFunction name => "call to undeclared function '" ++ name ++ "'"
  | notCallable kind => "call to invalid function: " ++ kind.name ++ " is not callable"
  | argumentCount label expected given =>
    label ++ "() takes " ++ toString expected ++ " argument(s) but " ++ toString given ++
      " were given"
  | arithmetic fault => fault.message
  | fractionalIndex index => "array index must be an integer, got " ++ index.plain
  | indexOutOfRange index length =>
    "array index " ++ index.plain ++ " out of range for length " ++ toString length
  | missingKey display => "key " ++ Text.shown display ++ " not found in dictionary"
  | callDepth limit => "maximum call depth of " ++ toString limit ++ " exceeded"
  | excess e => e.message

/-- What to try instead. -/
def hints : RuntimeFault → List String
  | noValue => ["end the function with a 'return' statement"]
  | callDepth _ => ["raise max_call_depth in the interpreter configuration"]
  | _ => []

/-- The numbers that the wording of a fault shows. -/
def numbers : RuntimeFault → List Decimal
  | arithmetic (.nonterminating a b) => [a, b]
  | arithmetic (.fractionalExponent x) | arithmetic (.negativeExponent x)
  | arithmetic (.exponentOutOfRange x _) | fractionalIndex x | indexOutOfRange x _ => [x]
  | _ => []

/-- The integers that the wording of a fault shows, behind its numbers. -/
def integers : RuntimeFault → List Int
  | arithmetic (.exponentOutOfRange _ limit) => [limit]
  | argumentCount _ expected given => [expected, given]
  | indexOutOfRange _ length => [length]
  | callDepth limit => [limit]
  | _ => []

/-- Why a fault is not reported: it is an excess, or the host cannot put it into words. -/
def excess? (maxDigits : Nat) : RuntimeFault → Option Excess
  | excess e => some e
  | fault =>
    if !fault.numbers.all (·.isWritable maxDigits) then some .tooLong
    else if !fault.integers.all Numeral.isShowable then some .unshowable
    else none

end RuntimeFault

/-! ### Failures -/

/-- Why a script is refused or stops. -/
inductive Fault where
  | lexical (fault : LexicalFault)
  | grammatical (fault : GrammarFault)
  | runtime (fault : RuntimeFault)
deriving DecidableEq

namespace Fault

/-- The code of a fault. -/
def code : Fault → String
  | lexical fault => fault.code
  | grammatical fault => fault.code
  | runtime fault => fault.code

/-- The wording of a fault. -/
def message : Fault → String
  | lexical fault => fault.message
  | grammatical fault => fault.message
  | runtime fault => fault.message

/-- What to try instead. -/
def hints : Fault → List String
  | lexical fault => fault.hints
  | grammatical fault => fault.hints
  | runtime fault => fault.hints

end Fault

/-- A fault with the span it is about and, once known, the source line on which the span starts. -/
structure Failure where
  fault : Fault
  span : Span
  sourceLine : Option String := none
deriving DecidableEq

namespace Failure

/-- The failure with its source line taken from the lines of the source, unless it has one. -/
def quoting (failure : Failure) (lines : List String) : Failure :=
  match failure.sourceLine with
  | some _ => failure
  | none => { failure with sourceLine := Text.lineAt? lines failure.span.start.line }

/-- A failure of a running script. -/
def ofRuntime (fault : RuntimeFault) (span : Span) : Failure where
  fault := .runtime fault
  span := span

/-- Whether a failure is reported. Numbers that cannot be read, held or put into words end the whole
program without a report. -/
def isReported (maxDigits : Nat) (failure : Failure) : Bool :=
  match failure.fault with
  | .lexical (.unreadableNumber _) => false
  | .runtime fault => (fault.excess? maxDigits).isNone
  | _ => true

/-- The report on a failure. -/
def diagnostic (failure : Failure) : Diagnostic where
  code := failure.fault.code
  message := failure.fault.message
  severity := .error
  span := failure.span
  sourceLine := failure.sourceLine
  hints := failure.fault.hints
  related := []

end Failure

end DecimalScript
