import DecimalScript.Config.Basic

/-!
# Command-line arguments

A command line names an action and a script. Options may stand before or behind the script. A long
option may be cut short as long as it stays unique and may take its value behind an equals sign;
short options may be run together, and a value may follow its letter directly. Behind two dashes
everything is an operand.
-/

namespace DecimalScript

/-- What a command line asks for. -/
inductive Request where
  | run (file : String) (config : Option String) (logLevel : Option LogLevel) (printResult : Bool)
  | check (file : String)
  | sexpr (file : String)
  | format (file : String)

/-- Why a command line asks for nothing that can be done. -/
inductive UsageExit where
  /-- It asks for help. -/
  | help
  | invalid
deriving DecidableEq

/-- The exit code of a command line that asks for nothing that can be done. -/
def UsageExit.exitCode : UsageExit → Nat
  | help => 0
  | invalid => 2

namespace Arguments

/-- The options that actions know. -/
inductive Flag where
  | help
  | config
  | logLevel
  | printResult
deriving DecidableEq

namespace Flag

/-- The letter of an option, if it has one. -/
def letter? : Flag → Option Char
  | help => some 'h'
  | config => some 'c'
  | logLevel => none
  | printResult => some 'r'

/-- The long name of an option. -/
def longName : Flag → String
  | help => "--help"
  | config => "--config"
  | logLevel => "--log-level"
  | printResult => "--print-result"

/-- Whether an option takes a value. -/
def takesValue : Flag → Bool
  | config | logLevel => true
  | help | printResult => false

end Flag

/-- What an argument is taken for. -/
inductive Reading where
  | operand
  /-- Two dashes, which make operands of all arguments behind them. -/
  | separator
  /-- An option by its long name, with the value behind an equals sign; or an option by its letter,
  with a value that is set off by an equals sign. -/
  | long (flag : Flag) (value : Option (List Char))
  /-- An option by its letter, with what directly follows the letter. -/
  | short (flag : Flag) (rest : List Char)
  | unknown
  | ambiguous
deriving DecidableEq

/-- An argument and what it is taken for. -/
structure Item where
  text : String
  reading : Reading

/-- The option of a letter. -/
def byLetter? (flags : List Flag) (c : Char) : Option Flag :=
  flags.find? fun flag => flag.letter? == some c

/-- Whether a text is a negative number, which is an operand. Digits of every script count, and a
line feed at the end does not. -/
def isNegativeNumber : List Char → Bool
  | '-' :: rest =>
    let places := if rest.getLast? = some '\n' then rest.dropLast else rest
    let isDigit := fun c => (Text.decimalValue? c).isSome
    places.all (fun c => isDigit c || c == '.') && places.count '.' ≤ 1 &&
      (places.getLast?.map isDigit).getD false
  | _ => false

/-- An argument that matches no option: a number and a text with blanks are operands. -/
def readUnmatched (text : List Char) : Reading :=
  if isNegativeNumber text || text.contains ' ' then .operand else .unknown

/-- A long option: its name may be cut short, and an equals sign ends it. -/
def readLong (flags : List Flag) (text : List Char) : Reading :=
  let name := text.takeWhile (· != '=')
  let value := match text.dropWhile (· != '=') with
    | [] => none
    | _ :: value => some value
  match flags.filter fun flag => flag.longName.toList == name with
  | flag :: _ => .long flag value
  | [] =>
    match flags.filter fun flag => name.isPrefixOf flag.longName.toList with
    | [flag] => .long flag value
    | [] => readUnmatched text
    | _ => .ambiguous

/-- A short option. An equals sign directly behind the letter is not part of what follows it. -/
def readShort (flags : List Flag) (letter : Char) (rest : List Char) : Reading :=
  match byLetter? flags letter with
  | none => readUnmatched ('-' :: letter :: rest)
  | some flag =>
    match rest with
    | '=' :: value =>
      if flag.takesValue || value.isEmpty then .long flag (some value) else .short flag value
    | _ => .short flag rest

/-- What an argument is taken for. -/
def read (flags : List Flag) (arg : String) : Reading :=
  match arg.toList with
  | ['-', '-'] => .separator
  | '-' :: '-' :: rest => readLong flags ('-' :: '-' :: rest)
  | '-' :: letter :: rest => readShort flags letter rest
  | _ => .operand

/-- What the arguments of a command line are taken for. -/
def readAll (flags : List Flag) : List String → List Item
  | [] => []
  | arg :: rest =>
    match read flags arg with
    | .separator => ⟨arg, .separator⟩ :: rest.map fun operand => ⟨operand, .operand⟩
    | reading => ⟨arg, reading⟩ :: readAll flags rest

/-! ### Options and their values -/

/-- The options that one argument gives, each with its value if it takes one, and whether the last
value is the argument behind it. -/
structure Options where
  settings : List (Flag × Option String)
  usesNext : Bool := false

/-- An option alone; if it takes a value, the argument behind it has to be an operand. -/
def alone (flag : Flag) (next : Option Item) : Option Options :=
  if flag.takesValue then
    match next with
    | some ⟨text, .operand⟩ => some ⟨[(flag, some text)], true⟩
    | _ => none
  else some ⟨[(flag, none)], false⟩

/-- Options run together behind one dash: those without a value, and then perhaps one that takes
what follows it, or else the argument behind it. -/
def cluster (flags : List Flag) (next : Option Item) (flag : Flag) : List Char → Option Options
  | [] => alone flag next
  | c :: rest =>
    if flag.takesValue then some ⟨[(flag, some (String.ofList (c :: rest)))], false⟩
    else do
      let others ← cluster flags next (← byLetter? flags c) rest
      return { others with settings := (flag, none) :: others.settings }

/-- The options of an argument; none if one of them is unknown or its value is missing or surplus.
-/
def optionsOf (flags : List Flag) (next : Option Item) : Reading → Option Options
  | .long flag (some value) =>
    if flag.takesValue then some ⟨[(flag, some (String.ofList value))], false⟩ else none
  | .long flag none => alone flag next
  | .short flag rest => cluster flags next flag rest
  | .operand | .separator | .unknown | .ambiguous => none

/-! ### Actions -/

/-- What has been read of the arguments of an action. -/
structure Progress where
  file : Option String := none
  config : Option String := none
  logLevel : Option LogLevel := none
  printResult : Bool := false
  /-- Something could not be used. -/
  surplus : Bool := false

/-- Takes an option. The name of a log level may be in any case, and a value of two dashes takes
back what was set before. -/
def Progress.take (p : Progress) : Flag × Option String → Except UsageExit Progress
  | (.help, _) => .error .help
  | (.printResult, _) => .ok { p with printResult := true }
  | (.config, value) => .ok { p with config := value.filter (· ≠ "--") }
  | (.logLevel, value) =>
    match value.filter (· ≠ "--") with
    | none => .ok { p with logLevel := none }
    | some name =>
      match LogLevel.ofName? (Text.uppercase name) with
      | some level => .ok { p with logLevel := some level }
      | none => .error .invalid

/-- Reads the arguments of an action. The first operand is the script; two dashes may stand next to
it, on either side. All options of an argument are known and complete before the first of them is
taken. The first argument is passed over if the one before it has `used` it. -/
def progress (flags : List Flag) (p : Progress) (used : Bool) :
    List Item → Except UsageExit Progress
  | [] => .ok p
  | item :: later =>
    if used then progress flags p false later
    else
      match item.reading, p.file with
      | .operand, none =>
        let closed := later.head?.any fun next => next.reading = .separator
        progress flags { p with file := some item.text } closed later
      | .separator, none => progress flags p false later
      | .operand, some _ | .separator, some _ | .unknown, _ =>
        progress flags { p with surplus := true } false later
      | .ambiguous, _ => .error .invalid
      | reading, _ => do
        let some options := optionsOf flags later.head? reading | .error .invalid
        let p ← options.settings.foldlM Progress.take p
        progress flags p options.usesNext later

/-- Reads the arguments of an action with the given options. An option that is cut too short is
refused before anything else. -/
def action (flags : List Flag) (args : List String) : Except UsageExit (String × Progress) :=
  let items := readAll flags args
  if items.any fun item => item.reading = .ambiguous then .error .invalid
  else do
    let p ← progress flags {} false items
    match p.file, p.surplus with
    | some file, false => return (file, p)
    | _, _ => .error .invalid

/-- Reads the arguments behind the name of an action. -/
def ofAction (name : String) (args : List String) : Except UsageExit Request :=
  match name with
  | "run" => do
    let (file, p) ← action [.help, .config, .logLevel, .printResult] args
    return .run file p.config p.logLevel p.printResult
  | "check" => do return .check (← action [.help] args).1
  | "sexpr" => do return .sexpr (← action [.help] args).1
  | "fmt" => do return .format (← action [.help] args).1
  | _ => .error .invalid

/-- Reads a command line. The first operand is the action. An option before it can only ask for
help; any other makes the command line invalid, unless help is asked for behind it. -/
def requestOf (surplus : Bool) : List Item → Except UsageExit Request
  | [] => .error .invalid
  | ⟨name, .operand⟩ :: later => do
    let request ← ofAction name (later.map (·.text))
    if surplus then .error .invalid else return request
  | ⟨_, .unknown⟩ :: later => requestOf true later
  | ⟨_, reading⟩ :: _ =>
    match optionsOf [.help] none reading with
    | some _ => .error .help
    | none => .error .invalid

/-- What a command line asks for. -/
def request (args : List String) : Except UsageExit Request :=
  requestOf false (readAll [.help] args)

end Arguments

end DecimalScript
