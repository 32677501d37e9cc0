import Lox.Log
import Lox.Path

/-!
# Preferences

What a user can set for the prompt and the log. Every preference has a default.
A log level has to have a known name, and the prompt may not be empty.
-/

namespace Lox

/-- What a user can set. -/
structure Preferences where
  /-- The name of the log's level. -/
  logLevel : Text
  /-- Whether output may be coloured. -/
  color : Bool
  /-- What stands in front of each line that is asked for. -/
  prompt : Text
  /-- Where the lines of earlier sessions are kept; none are if it is empty. -/
  historyFile : Text
  deriving DecidableEq

/-- Why preferences cannot be used. -/
inductive PreferenceError where
  /-- The log's level has no such name. -/
  | unknownLevel (name : Text)
  /-- The prompt is empty. -/
  | emptyPrompt
  deriving DecidableEq

/-- The message of an error. -/
def PreferenceError.message : PreferenceError → Text
  | unknownLevel name => utf8 "log_level: not a valid logrus Level: " ++ Quoted.quote name
  | emptyPrompt => utf8 "prompt must not be empty"

namespace Preferences

/-- The preferences of a user who set none. -/
def default : Preferences :=
  ⟨utf8 "warning", true, utf8 "> ", utf8 ".lox_history"⟩

/-- The first reason why preferences cannot be used, if there is one. -/
def error? (p : Preferences) : Option PreferenceError :=
  if (LogLevel.ofName? p.logLevel).isNone then some (.unknownLevel p.logLevel)
  else if p.prompt.isEmpty then some .emptyPrompt
  else none

/-- The defaults can be used. -/
theorem error?_default : default.error? = none := by
  decide

/-- The log's level, and the default level if its name is unknown. -/
def level (p : Preferences) : LogLevel := (LogLevel.ofName? p.logLevel).getD .warning

/-- Where the history is kept: a relative path lies in the home directory, if
there is one. -/
def historyPath (home : Option Text) (p : Preferences) : Text :=
  if p.historyFile.isEmpty || Path.isAbsolute p.historyFile then p.historyFile
  else match home with
    | some directory => Path.join directory p.historyFile
    | none => p.historyFile

end Preferences

/-- The home directory of an environment: an empty one counts as none. -/
def homeDirectory (home : Option Text) : Option Text := home.filter fun h => !h.isEmpty

end Lox
