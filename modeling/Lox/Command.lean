import Lox.Command.Declarations
import Lox.Command.Flags
import Lox.Command.Listing
import Lox.Command.Prompt
import Lox.Preferences.Load

/-!
# Commands

Four commands: one runs a script or a session at the prompt, two list the tokens
and the tree of a source, and one writes out the declarations of the nodes. Each
is a function of its surroundings: arguments, input, home directory and files.
-/

namespace Lox

/-- What a command finds when it is called. -/
structure Surroundings where
  /-- The arguments. -/
  arguments : List Text
  /-- All of the input. -/
  input : Text
  /-- The home directory, if there is one. -/
  home : Option Text
  /-- The files. -/
  files : Directory

/-- What a command leaves behind. -/
structure Departure where
  /-- The exit code and the two streams. -/
  ending : Ending
  /-- The files. -/
  files : Directory

/-- The path of the working directory. -/
def Directory.workingPath (d : Directory) : Text :=
  Path.slash :: Text.join [Path.slash] d.working

namespace Command

/-- How a run is carried out: a detailed log if asked for, else as preferred. -/
def settings (rounds : Nat) (flags : Flags) (p : Preferences) : Settings :=
  ⟨if flags.verbose then .debug else p.level, rounds⟩

/-- A script is run. -/
def script (s : Settings) (around : Surroundings) (path : Text) : Departure :=
  let place := Path.absolute around.files.workingPath path
  ⟨Script.ofRead s place (around.files.read place), around.files⟩

/-- The files after the history was written, and what is said if it was not. -/
def saveHistory (s : Settings) (files : Directory) (path history : Text) :
    Console × Directory :=
  match files.write path history with
  | .ok after => (.empty, after)
  | .error failure => (s.logConsole (.historyNotSaved failure.text), files)

/-- A session at the prompt, with a line editor. -/
def prompt (editor : Prompt.Editor) (s : Settings) (p : Preferences) (around : Surroundings) :
    Departure :=
  let delivered := editor.deliver p.prompt around.input
  let ending := Prompt.session s p.prompt delivered
  let path := p.historyPath around.home
  if path.isEmpty then ⟨ending, around.files⟩
  else
    let old := (around.files.read path).toOption
    let history := editor.history old (Prompt.added delivered)
    let (said, files) := saveHistory s around.files path history
    ⟨{ ending with console := ending.console ++ said }, files⟩

/-- The ending of a call with wrong arguments. -/
def misused (said : Text) : Ending := ⟨.usage, .ofErr (said ++ Flags.usage)⟩

/-- The ending of a call whose preferences cannot be loaded. -/
def misconfigured (e : LoadError) : Ending := ⟨.config, .ofErr (Text.line e.message)⟩

/-- The command that runs a script, or a session at the prompt with a line editor. -/
def interpret (editor : Prompt.Editor) (rounds : Nat) (around : Surroundings) : Departure :=
  match Flags.none.parse around.arguments with
  | .error e => ⟨misused e.text, around.files⟩
  | .ok flags =>
    if 1 < flags.rest.length then ⟨misused [], around.files⟩
    else match Preferences.load around.files around.home flags.config with
      | (_, some e) => ⟨misconfigured e, around.files⟩
      | (p, none) =>
        match flags.rest with
        | path :: _ => script (settings rounds flags p) around path
        | [] => prompt editor (settings rounds flags p) p around

end Command

/-- The commands. -/
inductive Command where
  /-- Runs a script or a session at the prompt. -/
  | interpreter
  /-- Lists a source. -/
  | listing (l : Listing)
  /-- Writes out declarations. -/
  | declarations
  deriving DecidableEq, Repr

namespace Command

/-- The command of a name. -/
def ofName? (name : Text) : Option Command :=
  if name = utf8 "lox" then some .interpreter
  else if name = Listing.tokens.name then some (.listing .tokens)
  else if name = Listing.tree.name then some (.listing .tree)
  else if name = utf8 "ast" then some .declarations
  else none

/-- A command is carried out; each loop of a program may take a given count of
rounds. -/
def run (rounds : Nat) (around : Surroundings) : Command → Departure
  | interpreter => interpret Prompt.plain rounds around
  | listing l => ⟨l.run around.files around.arguments, around.files⟩
  | declarations => ⟨NodeFamily.run around.arguments, around.files⟩

end Command

end Lox
