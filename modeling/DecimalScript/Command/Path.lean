/-!
# Paths

A path is a sequence of names with slashes between them. Empty names and single dots leave no trace.
A path that starts with a slash starts at the top, and two slashes at the start, no more and no
fewer, stay two.
-/

namespace DecimalScript.Path

/-- The pieces between slashes. -/
def pieces : List Char → List (List Char)
  | [] => [[]]
  | c :: rest =>
    match pieces rest with
    | piece :: others => if c = '/' then [] :: piece :: others else (c :: piece) :: others
    | [] => [[c]]

/-- The names of a path. -/
def names (path : String) : List String :=
  ((pieces path.toList).filter fun piece => !piece.isEmpty && piece != ['.']).map String.ofList

/-- Whether a path starts at the top. -/
def isAbsolute (path : String) : Bool :=
  path.toList.head? == some '/'

/-- What stands before the names of a path that starts with as many slashes. -/
def opening : (slashes : Nat) → String
  | 0 => ""
  | 2 => "//"
  | _ => "/"

/-- A path without empty names and single dots. -/
def normalize (path : String) : String :=
  let slashes := (path.toList.takeWhile (· == '/')).length
  let text := opening slashes ++ "/".intercalate (names path)
  if text.isEmpty then "." else text

/-- The last name of a path. -/
def lastName (path : String) : String :=
  (names path).getLast?.getD ""

end DecimalScript.Path
