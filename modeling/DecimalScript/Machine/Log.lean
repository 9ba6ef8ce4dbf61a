import DecimalScript.Machine.Basic

/-!
# Log lines

What a run logs, as text. All events are for tracing, so they show at the lowest level only.
-/

namespace DecimalScript

namespace LogEvent

/-- The part of the program that logs an event. -/
def source : LogEvent → String
  | captureAnalysis _ _ => "zemscript.scope"
  | _ => "zemscript.runtime.interpreter"

/-- The wording of an event. -/
def message : LogEvent → String
  | captureAnalysis place scope => "capture analysis at " ++ place.startText ++ ": " ++ scope.text
  | closureMade name upvalues globals =>
    "closure " ++ name.getD "<anonymous>" ++ " captures " ++ Text.shownList upvalues ++
      " (globals " ++ Text.shownList globals ++ ")"
  | nativeCall label arguments =>
    "call native " ++ label ++ " with " ++ toString arguments ++ " argument(s)"
  | call label arguments depth =>
    "call " ++ label ++ " with " ++ toString arguments ++ " argument(s) at depth " ++ toString depth
  | globalImported label name => label.getD "None" ++ ": imported global '" ++ name ++ "'"

/-- The line of an event. -/
def line (event : LogEvent) : String :=
  "DEBUG " ++ event.source ++ ": " ++ event.message

end LogEvent

end DecimalScript
