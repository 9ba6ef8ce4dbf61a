import DecimalScript.Command.Basic

/-!
# The program

Reads the files that the command line and the environment name, and leaves the rest to `Command`.
-/

namespace DecimalScript

/-- The variable that names a configuration file. -/
def configVariable : String := "ZEMSCRIPT_CONFIG"

/-- What a path leads to. -/
def targetOf (path : String) : IO PathTarget := do
  try
    return .text (← IO.FS.readFile (Path.normalize path))
  catch
    | .inappropriateType .. => return .folder
    | .invalidArgument .. => return .tooLong
    | _ => return .nothing

/-- What paths lead to. -/
def targetsOf (paths : List String) : IO Files := do
  let targets ← paths.mapM fun path => do return (path, ← targetOf path)
  return fun path => (targets.lookup path).getD .nothing

/-- What is said when the whole program breaks off. -/
def breakdownText : Command.Breakdown → String
  | .script failure => Command.failureText failure
  | .config fault => "Error: " ++ fault.message
  | .host (.recursionLimit needed) => "Error: recursion limit too large: " ++ toString needed
  | .folder path => "Error: Is a directory: " ++ path
  | .pathTooLong path => "Error: File name too long: " ++ path

end DecimalScript

open DecimalScript in
/-- Runs the program on its command line. -/
def main (args : List String) : IO UInt32 := do
  match Arguments.request args with
  | .error exit =>
    IO.eprintln "usage: run|check|sexpr|fmt FILE"
    return UInt32.ofNat exit.exitCode
  | .ok request =>
    let environment ← IO.getEnv configVariable
    let files ← targetsOf (Command.pathsOf request ++ environment.toList)
    match Command.perform files environment request with
    | .error breakdown =>
      IO.eprintln (breakdownText breakdown)
      return 1
    | .ok report =>
      IO.print report.stdout
      IO.eprint report.stderr
      return UInt32.ofNat report.exitCode
