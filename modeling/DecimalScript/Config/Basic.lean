import DecimalScript.Config.Document
import DecimalScript.Machine.Basic
import DecimalScript.Text.Uppercase

/-!
# Configurations

The limits and start-up options of a run. A configuration is made from a mapping of settings, which
may leave settings out but may not have others; it is refused as a whole if one setting is wrong.
-/

namespace DecimalScript

/-- How much is logged. -/
inductive LogLevel where
  | debug
  | info
  | warning
  | error
  | critical
deriving DecidableEq

namespace LogLevel

/-- The name of a level. -/
def name : LogLevel → String
  | debug => "DEBUG"
  | info => "INFO"
  | warning => "WARNING"
  | error => "ERROR"
  | critical => "CRITICAL"

/-- The rank of a level. -/
def rank : LogLevel → Nat
  | debug => 10
  | info => 20
  | warning => 30
  | error => 40
  | critical => 50

/-- The level of a name in upper case. -/
def ofName? (name : String) : Option LogLevel :=
  [debug, info, warning, error, critical].find? fun level => level.name == name

end LogLevel

/-- The limits and start-up options of a run. -/
structure Config where
  maxExponent : Nat := 99999
  maxCallDepth : Nat := 200
  logLevel : LogLevel := .warning
  loadBuiltins : Bool := true
deriving DecidableEq

/-- Why there is no configuration. -/
inductive ConfigFault where
  | unknownKeys (keys : List String)
  | notPositive (key : String) (value : Setting)
  | unknownLogLevel (name : String)
  | notBoolean (value : Setting)
  | notAMapping (document : Setting)
  /-- The setting of a key is wrong, and there is an integer in it that is too long to be shown. -/
  | unshowable
  /-- A key is a number, a truth value or anything else but a text. -/
  | keyNotText
  | document (fault : DocumentFault)
  | fileNotFound (path : String)
  | fileIsFolder (path : String)
  | pathTooLong (path : String)

/-- The wording of a fault. -/
def ConfigFault.message : ConfigFault → String
  | unknownKeys keys => "unknown configuration keys: " ++ ", ".intercalate keys
  | notPositive key value => key ++ " must be a positive integer, got " ++ value.shown
  | unknownLogLevel name => "unknown log level " ++ Text.shown name
  | notBoolean value => "load_builtins must be true or false, got " ++ value.shown
  | notAMapping found =>
    "configuration must be a mapping, got <class '" ++ found.className ++ "'>"
  | unshowable => Numeral.tooManyDigits ""
  | keyNotText => "configuration keys must be texts"
  | document fault => fault.message
  | fileNotFound path => "configuration file not found: " ++ path
  | fileIsFolder path => "[Errno 21] Is a directory: " ++ Text.shown path
  | pathTooLong path => "[Errno 36] File name too long: " ++ Text.shown path

/-- Whether a fault is reported to the user. Keys and texts that are malformed are not: they end the
whole program. -/
def ConfigFault.isReported : ConfigFault → Bool
  | keyNotText => false
  | document (.value _) => true
  | document _ => false
  | _ => true

namespace Config

/-- The keys that a configuration may have. -/
def knownKeys : List String :=
  ["max_exponent", "max_call_depth", "log_level", "load_builtins"]

/-- The last setting of a key. -/
def setting? (entries : List (String × Setting)) (key : String) : Option Setting :=
  entries.reverse.lookup key

/-- A fault about a setting, which its wording shows. -/
def faultAbout (value : Setting) (fault : ConfigFault) : ConfigFault :=
  if value.isShowable then fault else .unshowable

/-- A limit: a positive integer, or its default if it is left out. -/
def limit (entries : List (String × Setting)) (key : String) (default : Nat) :
    Except ConfigFault Nat :=
  match setting? entries key with
  | none => .ok default
  | some (.integer n) =>
    if 0 < n then .ok n.toNat
    else .error (faultAbout (.integer n) (.notPositive key (.integer n)))
  | some value => .error (faultAbout value (.notPositive key value))

/-- A log level: the text of the setting, in upper case, is its name. -/
def level (entries : List (String × Setting)) (default : LogLevel) : Except ConfigFault LogLevel :=
  match setting? entries "log_level" with
  | none => .ok default
  | some value =>
    let name := Text.uppercase value.plainText
    match LogLevel.ofName? name with
    | some level => .ok level
    | none => .error (faultAbout value (.unknownLogLevel name))

/-- Whether built-in functions are bound at the start. -/
def builtins (entries : List (String × Setting)) (default : Bool) : Except ConfigFault Bool :=
  match setting? entries "load_builtins" with
  | none => .ok default
  | some (.boolean b) => .ok b
  | some value => .error (faultAbout value (.notBoolean value))

/-- The configuration of a mapping. -/
def ofMapping (entries : List (String × Setting)) : Except ConfigFault Config := do
  let unknown := Names.ofList ((entries.map (·.1)).filter fun key => !knownKeys.contains key)
  if !unknown.isEmpty then .error (.unknownKeys unknown)
  else
    let defaults : Config := {}
    return {
      maxExponent := ← limit entries "max_exponent" defaults.maxExponent
      maxCallDepth := ← limit entries "max_call_depth" defaults.maxCallDepth
      logLevel := ← level entries defaults.logLevel
      loadBuiltins := ← builtins entries defaults.loadBuiltins }

/-- The mapping of a configuration. -/
def toMapping (config : Config) : List (String × Setting) :=
  [("max_exponent", .integer config.maxExponent), ("max_call_depth", .integer config.maxCallDepth),
    ("log_level", .text config.logLevel.name), ("load_builtins", .boolean config.loadBuiltins)]

/-- An entry under its key, which has to be a text. -/
def textEntry? : Setting × Setting → Option (String × Setting)
  | (.text key, value) => some (key, value)
  | _ => none

/-- The configuration of a document: a document that says nothing gives the defaults, and any other
has to be a mapping from texts. -/
def ofDocument (document : Setting) : Except ConfigFault Config :=
  if document.isVoid then .ok {}
  else match document with
    | .mapping entries =>
      match entries.mapM textEntry? with
      | some entries => ofMapping entries
      | none => .error .keyNotText
    | other => .error (.notAMapping other)

/-- The configuration of the text of a file. -/
def ofText (text : String) : Except ConfigFault Config :=
  match Document.read text with
  | .ok document => ofDocument document
  | .error fault => .error (.document fault)

/-- The limits of a run on a host. -/
def limits (config : Config) (host : Host := {}) : Limits where
  maxExponent := config.maxExponent
  maxCallDepth := config.maxCallDepth
  maxDigits := host.maxDigits

end Config

end DecimalScript
