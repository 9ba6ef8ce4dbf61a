import DecimalScript.Command.Arguments
import DecimalScript.Command.Files
import DecimalScript.Config.Basic
import DecimalScript.Machine.Log
import DecimalScript.Machine.Session
import DecimalScript.Program.Listing
import DecimalScript.Program.SExpr

/-!
# The command line

What each action does with a script: run it, check it, show it as S-expressions or in canonical
form. An action is a function of its request, the files and the environment, and its result is what
it prints and its exit code. A few faults have no report: they break the whole program off.
-/

namespace DecimalScript

namespace Command

/-- What an action prints, and its exit code. -/
structure Report where
  exitCode : Nat
  stdout : String := ""
  stderr : String := ""

/-- Why the whole program breaks off. -/
inductive Breakdown where
  /-- A number of the script cannot be read or held. -/
  | script (failure : Failure)
  /-- The configuration is malformed. -/
  | config (fault : ConfigFault)
  /-- The host does not take the configuration. -/
  | host (fault : HostFault)
  /-- The script is a folder. -/
  | folder (path : String)
  | pathTooLong (path : String)

/-- The host that actions run on. -/
def host : Host := {}

/-- More steps than any script can take. -/
def stepBudget : Nat := Nat.pow 2 60

/-- A line of text. -/
def asLine (text : String) : String :=
  text ++ "\n"

/-- The configuration in a file. -/
def loadConfig (files : Files) (path : String) : Except ConfigFault Config :=
  match files path with
  | .text text => Config.ofText text
  | .folder => .error (.fileIsFolder (Path.normalize path))
  | .nothing => .error (.fileNotFound (Path.normalize path))
  | .tooLong => .error (.pathTooLong (Path.normalize path))

/-- The configuration in the file that the environment names; an empty name is none. -/
def environmentConfig (files : Files) (environment : Option String) :
    Except ConfigFault (Option Config) :=
  match environment with
  | none => .ok none
  | some path => if path.isEmpty then .ok none else some <$> loadConfig files path

/-- The configuration of a run: from the file that the command line names, or else the environment,
or else the defaults. An empty name is none. -/
def chooseConfig (files : Files) (path environment : Option String) : Except ConfigFault Config :=
  match path.filter fun p => !p.isEmpty with
  | some path => loadConfig files path
  | none => do return (← environmentConfig files environment).getD {}

/-- The report on a script that is not there. -/
def notFound (path : String) : Report :=
  { exitCode := 1, stderr := asLine ("Error: File not found: " ++ Path.normalize path) }

/-- Does something with the text of a script, whose lines may end in any way. -/
def withScript (files : Files) (path : String) (onText : String → Except Breakdown Report) :
    Except Breakdown Report :=
  match files path with
  | .text text => onText (String.ofList (Text.unifyNewlines text.toList))
  | .folder => .error (.folder path)
  | .nothing => .ok (notFound path)
  | .tooLong => .error (.pathTooLong path)

/-- The given report on a failure, if it is reported. -/
def refused (failure : Failure) (report : Report) : Except Breakdown Report :=
  if failure.isReported host.maxDigits then .ok report else .error (.script failure)

/-- Does something with the program of a script, if there is one and it has no fault. -/
def withProgram (files : Files) (path : String) (onFailure : Failure → String)
    (onProgram : Program → String) : Except Breakdown Report :=
  withScript files path fun source =>
    match Program.parse source (some path) with
    | .ok program => .ok { exitCode := 0, stdout := onProgram program }
    | .error failure => refused failure { exitCode := 1, stderr := asLine (onFailure failure) }

/-- The text of a failure. -/
def failureText (failure : Failure) : String :=
  failure.diagnostic.format

/-- Checks a script for faults. -/
def check (files : Files) (path : String) : Except Breakdown Report :=
  withProgram files path (fun failure => Diagnostic.formatAll [failure.diagnostic]) fun program =>
    asLine ("OK: " ++ Path.lastName path ++ " - " ++ toString program.statements.length ++
      " statement(s), no errors")

/-- Shows a script as S-expressions, one to a line. -/
def sexpr (files : Files) (path : String) : Except Breakdown Report :=
  withProgram files path failureText fun program => String.join (program.sexprs.map asLine)

/-- Shows a script in canonical form. -/
def format (files : Files) (path : String) : Except Breakdown Report :=
  withProgram files path failureText fun program => asLine program.listing

/-- The log of a run at a level. -/
def logText (level : LogLevel) (m : Machine) : String :=
  match level with
  | .debug => String.join (m.log.toList.map fun event => asLine event.line)
  | _ => ""

/-- The line that shows the value of a run, if it is to be shown. -/
def resultText (printResult : Bool) (heap : Heap) : Option Value → Except RuntimeFault String
  | some value => if printResult then asLine <$> heap.write host.maxDigits value else .ok ""
  | none => .ok ""

/-- The report on a run that has ended. -/
def report (level : LogLevel) (printResult : Bool) :
    Outcome (Option Value) → Except Breakdown Report
  | .done value m =>
    match resultText printResult m.heap value with
    | .ok shown => .ok { exitCode := 0, stdout := m.output ++ shown, stderr := logText level m }
    | .error fault => .error (.script (.ofRuntime fault Session.hostSpan))
  | .failed failure m =>
    refused failure
      { exitCode := 1
        stdout := m.output
        stderr := logText level m ++ asLine (failureText failure) }
  | .exhausted m =>
    .ok { exitCode := 1, stdout := m.output, stderr := asLine "Error: step budget exhausted" }

/-- The report on a configuration that is refused. -/
def refusedConfig (fault : ConfigFault) : Except Breakdown Report :=
  if fault.isReported then
    .ok { exitCode := 1, stderr := asLine ("Error: invalid configuration: " ++ fault.message) }
  else .error (.config fault)

/-- Runs a script. The configuration is read before the script. -/
def run (files : Files) (environment : Option String) (path : String) (config : Option String)
    (logLevel : Option LogLevel) (printResult : Bool) : Except Breakdown Report :=
  match chooseConfig files config environment with
  | .error fault => refusedConfig fault
  | .ok config =>
    withScript files path fun source =>
      match Session.create host config Registry.standard with
      | .error fault => .error (.host fault)
      | .ok (host, machine) =>
        let outcome := Session.runSource (config.limits host) stepBudget source (some path) machine
        report (logLevel.getD config.logLevel) printResult outcome

/-- Does what a request asks for. -/
def perform (files : Files) (environment : Option String) : Request → Except Breakdown Report
  | .run path config logLevel printResult =>
    run files environment path config logLevel printResult
  | .check path => check files path
  | .sexpr path => sexpr files path
  | .format path => format files path

/-- The paths of the files that a request reads, apart from the one that the environment names. -/
def pathsOf : Request → List String
  | .run path config _ _ => path :: config.toList
  | .check path | .sexpr path | .format path => [path]

end Command

end DecimalScript
