import DecimalScript.Source.Position

/-!
# Diagnostics

A diagnostic reports something about a source text: a code, a message, how severe it is and the span
it is about. Written out, it starts with a header; the source line follows with carets under the
columns of the span, then hints and the diagnostics related to it.
-/

namespace DecimalScript

/-- How severe a diagnostic is. -/
inductive Severity where
  | error
  | warning
  | info
  | hint
deriving DecidableEq

/-- The word for a severity. -/
def Severity.name : Severity → String
  | .error => "error"
  | .warning => "warning"
  | .info => "info"
  | .hint => "hint"

/-- A report about a span of a source text. -/
structure Diagnostic where
  code : String
  message : String
  severity : Severity
  span : Span
  sourceLine : Option String
  hints : List String
  related : List Diagnostic

namespace Diagnostic

/-- The diagnostic with a source line, unless it has one. -/
def withSourceLine (d : Diagnostic) (line : Option String) : Diagnostic :=
  { d with sourceLine := d.sourceLine.or line }

/-- A text padded with blanks in front, to a width of three. -/
def padToThree (text : List Char) : List Char :=
  List.replicate (3 - text.length) ' ' ++ text

/-- The header: where, how severe, and what. -/
def header (d : Diagnostic) : String :=
  d.span.startText ++ ": " ++ d.severity.name ++ "[" ++ d.code ++ "]: " ++ d.message

/-- The number of carets under a source line: the columns of a span on one line, or those up to the
end of the line, and at least one. -/
def caretCount (span : Span) (line : List Char) : Nat :=
  let stop := if span.start.line = span.stop.line then span.stop.column else line.length + 1
  max 1 (stop - span.start.column)

/-- The source line behind its number. -/
def sourceRow (number : Nat) (line : List Char) : List Char :=
  padToThree (toString number).toList ++ [' ', '|', ' '] ++ line

/-- The row of carets below the source line. -/
def caretRow (span : Span) (line : List Char) : List Char :=
  [' ', ' ', ' ', ' ', '|', ' '] ++ List.replicate (span.start.column - 1) ' ' ++
    List.replicate (caretCount span line) '^'

/-- The three rows that show a source line. -/
def sourceRows (span : Span) (line : String) : List String :=
  ["  |", String.ofList (sourceRow span.start.line line.toList),
    String.ofList (caretRow span line.toList)]

/-- The rows of a diagnostic; the source line can be left out. -/
def formatRows (d : Diagnostic) (showSource : Bool) : List String :=
  let source := match d.sourceLine with
    | some line => if showSource then sourceRows d.span line else []
    | none => []
  d.header :: source ++ d.hints.map ("    = hint: " ++ ·) ++
    d.related.map fun r => "    --> " ++ r.span.startText ++ ": " ++ r.message

/-- A diagnostic written out. -/
def format (d : Diagnostic) (showSource : Bool := true) : String :=
  "\n".intercalate (d.formatRows showSource)

/-- How many diagnostics have a severity. -/
def countOf (severity : Severity) (ds : List Diagnostic) : Nat :=
  ds.countP fun d => d.severity == severity

/-- The closing count of errors and warnings, if there are any. -/
def summary (ds : List Diagnostic) : Option String :=
  let errors := countOf .error ds
  let warnings := countOf .warning ds
  if 0 < errors then
    some (toString errors ++ " error(s), " ++ toString warnings ++ " warning(s)")
  else if 0 < warnings then some (toString warnings ++ " warning(s)")
  else none

/-- Diagnostics written out in order, with an empty line between two and the count at the end, set
apart by two empty lines. -/
def formatAll (ds : List Diagnostic) (showSource : Bool := true) : String :=
  "\n\n".intercalate
    (ds.map (·.format showSource) ++ (summary ds).toList.map ("\n" ++ ·))

end Diagnostic

end DecimalScript
