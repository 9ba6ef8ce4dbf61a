/-!
# Sets of names

A finite set of names is a list in strictly ascending order of code points, so that equal sets are
equal lists and listings need no sorting.
-/

namespace DecimalScript

/-- A set of names. -/
abbrev Names := List String

namespace Names

/-- The set with one more name. -/
def add (names : Names) (name : String) : Names :=
  match names with
  | [] => [name]
  | first :: others =>
    if name = first then first :: others
    else if name < first then name :: first :: others
    else first :: add others name

/-- The set of the names of a list. -/
def ofList (names : List String) : Names :=
  names.foldl add []

/-- The names of either set. -/
def union (a b : Names) : Names :=
  b.foldl add a

end Names

end DecimalScript
