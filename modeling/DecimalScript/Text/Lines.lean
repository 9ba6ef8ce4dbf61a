/-!
# Lines of a text

Two ways to cut a text into lines. `rows` cuts at line feeds only, as line numbers count them, and
keeps what follows the last one. `lines` cuts at every line boundary of the Unicode standard, takes
a carriage return with its line feed as one, and has no empty line after a final boundary.
-/

namespace DecimalScript.Text

/-- The rows of a text: the pieces between line feeds. -/
def rowsOf : List Char → List (List Char)
  | [] => [[]]
  | c :: rest =>
    match rowsOf rest with
    | row :: rows => if c = '\n' then [] :: row :: rows else (c :: row) :: rows
    | [] => [[c]]

/-- The rows of a text, numbered from one; an empty text has none. -/
def rows (text : String) : List String :=
  if text.isEmpty then [] else (rowsOf text.toList).map String.ofList

/-- Whether a character ends a line. -/
def isLineBoundary (c : Char) : Bool :=
  decide (10 ≤ c.toNat ∧ c.toNat ≤ 13) || decide (28 ≤ c.toNat ∧ c.toNat ≤ 30) ||
    c.toNat == 0x85 || c.toNat == 0x2028 || c.toNat == 0x2029

/-- Puts a character in front of the first line. -/
def consLine (c : Char) : List (List Char) → List (List Char)
  | [] => [[c]]
  | line :: lines => (c :: line) :: lines

/-- The lines of a text: the pieces between line boundaries. -/
def linesOf : List Char → List (List Char)
  | [] => []
  | '\r' :: '\n' :: rest => [] :: linesOf rest
  | c :: rest => if isLineBoundary c then [] :: linesOf rest else consLine c (linesOf rest)

/-- The lines of a text, numbered from one. -/
def lines (text : String) : List String :=
  (linesOf text.toList).map String.ofList

/-- The line with the given number, counted from one. -/
def lineAt? (lines : List String) (number : Nat) : Option String :=
  if number = 0 then none else lines[number - 1]?

/-- Every carriage return, alone or before a line feed, read as a line feed. -/
def unifyNewlines : List Char → List Char
  | [] => []
  | '\r' :: '\n' :: rest => '\n' :: unifyNewlines rest
  | '\r' :: rest => '\n' :: unifyNewlines rest
  | c :: rest => c :: unifyNewlines rest

end DecimalScript.Text
