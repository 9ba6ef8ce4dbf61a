/-!
# Kinds of values

Every value of a script has one of six kinds. Operations apply to kinds, and messages name them.
-/

namespace DecimalScript

/-- The kind of a value. -/
inductive Kind where
  | number
  | string
  | boolean
  | array
  | dictionary
  | function
deriving DecidableEq

/-- The name of a kind, as scripts and messages give it. -/
def Kind.name : Kind → String
  | .number => "number"
  | .string => "string"
  | .boolean => "boolean"
  | .array => "array"
  | .dictionary => "dictionary"
  | .function => "function"

end DecimalScript
