import Lox.Command.Console
import Lox.Session

/-!
# Scripts

A script is run on a fresh machine. Its output goes to one stream; the log and
then the errors go to the other. The exit code tells whether the source was bad
or the program failed.
-/

namespace Lox

/-- The lines of log entries. -/
def logText (entries : List LogEntry) : Text := Text.unlines (entries.map LogEntry.text)

/-- What a unit writes. -/
def Outcome.console (o : Outcome) : Console :=
  ⟨Text.unlines o.printed, logText o.logged ++ Text.unlines o.errorLines⟩

/-- The exit code of a unit. -/
def Outcome.exitCode (o : Outcome) : ExitCode :=
  match o.failure with
  | none => .ok
  | some (.stopped _) => .software
  | some _ => .dataError

/-- What logging an entry writes. -/
def Settings.logConsole (settings : Settings) (entry : LogEntry) : Console :=
  .ofErr (logText (Effect.logged (settings.log entry)))

namespace Script

/-- A script with the given path and source is run. -/
def ofSource (settings : Settings) (path source : Text) : Ending :=
  let o := Machine.new.run settings source
  ⟨o.exitCode, settings.logConsole (.runningScript path) ++ o.console⟩

/-- A script is run by what reading its file gave. -/
def ofRead (settings : Settings) (path : Text) : Except FileFailure Text → Ending
  | .ok source => ofSource settings path source
  | .error failure => ⟨.ioError, .ofErr (Text.line (utf8 "reading script: " ++ failure.text))⟩

end Script

end Lox
