/-!
# Places in a source text

A position is a line and a column, both counted from one, together with the number of characters
before it. Lines end at line feeds only. A span is the text between two positions of one file.
-/

namespace DecimalScript

/-- A place between two characters of a source text. -/
structure Position where
  line : Nat
  column : Nat
  offset : Nat
deriving DecidableEq

namespace Position

/-- The position before the first character. -/
def start : Position := ⟨1, 1, 0⟩

/-- The position after one more character. -/
def next (p : Position) (c : Char) : Position :=
  if c = '\n' then ⟨p.line + 1, 1, p.offset + 1⟩ else ⟨p.line, p.column + 1, p.offset + 1⟩

/-- The position after the given characters. -/
def advance (p : Position) (text : List Char) : Position :=
  text.foldl next p

/-- Line and column, as messages give them. -/
def text (p : Position) : String :=
  toString p.line ++ ":" ++ toString p.column

end Position

/-- The text between two positions of a file; a text from no file has no file name. -/
structure Span where
  file : Option String
  start : Position
  stop : Position
deriving DecidableEq

namespace Span

/-- The span from the start of one to the end of another. -/
def upTo (a b : Span) : Span :=
  ⟨a.file, a.start, b.stop⟩

/-- The file name before a position, if there is one and it is not empty. -/
def fileText (s : Span) : String :=
  match s.file with
  | none => ""
  | some file => if file.isEmpty then "" else file ++ ":"

/-- Where a span starts, as messages give it. -/
def startText (s : Span) : String :=
  s.fileText ++ s.start.text

/-- Both ends of a span. -/
def text (s : Span) : String :=
  s.fileText ++ s.start.text ++ "-" ++ s.stop.text

end Span

end DecimalScript
