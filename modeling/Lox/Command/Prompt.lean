import Lox.Command.Script
import Lox.Preferences

/-!
# The prompt

Without a script, lines are asked for one after the other and run on one machine.
A blank line is passed over; an error ends its line only. The other lines of a
session are added to a history that is kept in a file. Which lines are delivered
and what is kept of them is up to a line editor, which is a parameter; the one
below serves where there is no terminal. What an editor does at a terminal, a
line that is cancelled there included, is left out.
-/

namespace Lox.Prompt

/-- A line editor. -/
structure Editor where
  /-- The lines that it delivers for a prompt and all of the input, or why it does
  not. -/
  deliver : Text → Text → Except Text (List Text)
  /-- What it leaves in the file of its history, by what the file held, if it could
  be read, and the lines that are added. -/
  history : Option Text → List Text → Text

/-- What stands above the first prompt. -/
def banner : Text := utf8 "lox REPL. Ctrl+C cancels the line, Ctrl+D exits.\n"

/-- A line is run unless it is blank. -/
def enter (settings : Settings) (m : Machine) (line : Text) : Machine × Console :=
  if Text.isBlank line then (m, .empty)
  else
    let o := m.run settings line
    (o.machine, o.console)

/-- Lines are asked for and run until there are no more. -/
def converse (settings : Settings) (prompt : Text) : Machine → List Text → Console
  | _, [] => .ofOut (prompt ++ utf8 "\n")
  | m, line :: rest =>
    let (after, console) := enter settings m line
    .ofOut prompt ++ console ++ converse settings prompt after rest

/-- A session at the prompt, by the lines that are delivered up to the end of the
input, or by why there are none. -/
def session (settings : Settings) (prompt : Text) : Except Text (List Text) → Ending
  | .ok lines => ⟨.ok, .ofOut banner ++ converse settings prompt Machine.new lines⟩
  | .error reason =>
    ⟨.ioError, .ofOut banner ++ .ofErr (Text.line (utf8 "reading prompt: " ++ reason))⟩

/-- The lines that a session adds to the history. -/
def added : Except Text (List Text) → List Text
  | .ok lines => lines.filter fun line => !Text.isBlank line
  | .error _ => []

/-!
## Without a terminal

The editor that reads plain input.
-/

/-- How many bytes of a line are taken at once. -/
def window : Nat := 4096

/-- A line taken from a text. -/
structure Taken where
  /-- The line without its end. -/
  line : Text
  /-- What follows it. -/
  rest : Text
  /-- Whether the line was too long and goes on in what follows. -/
  goesOn : Bool

/-- The line without a carriage return at its end. -/
def dropReturn (t : Text) : Text := if t.getLast? = some 0x0D then t.dropLast else t

/-- The first line of a text that is not empty. A line longer than the window is
cut there, but not between a carriage return and a line feed. -/
def take (t : Text) : Taken :=
  let seen := t.take window
  let line := seen.takeWhile (· != Text.lineFeed)
  if line.length < seen.length then ⟨dropReturn line, t.drop (line.length + 1), false⟩
  else if seen.length < window then ⟨seen, [], false⟩
  else
    let line := dropReturn seen
    ⟨line, t.drop line.length, true⟩

/-- The lines of a text, over a bounded count of lines. -/
def linesWithin : Nat → Text → List Taken
  | 0, _ => []
  | _, [] => []
  | count + 1, t =>
    let taken := take t
    taken :: linesWithin count taken.rest

/-- The lines of a text. Every line takes at least one byte. -/
def lines (t : Text) : List Taken := linesWithin t.length t

/-- How many lines a history keeps. -/
def historyLimit : Nat := 1000

/-- The newest lines of a history. -/
def newest (history : List Text) : List Text := history.drop (history.length - historyLimit)

/-- The history in a file, up to the first line that is too long or not valid
UTF-8. -/
def readHistory (content : Text) : List Text :=
  newest (((lines content).takeWhile fun t => !t.goesOn && Rune.isValid t.line).map Taken.line)

/-- The history with one more line, unless it repeats the last. -/
def addLine (history : List Text) (line : Text) : List Text :=
  if history.getLast? = some line then history else newest (history ++ [line])

/-- Whether a prompt can be shown: all of it is printable or a separator. -/
def isShowable (prompt : Text) : Bool :=
  !(Rune.split prompt).any fun rune => Printable.isOther rune.code

/-- Why a prompt is refused. -/
def refusal : Text := utf8 "invalid prompt"

/-- The line editor where there is no terminal. A history that cannot be read starts
empty. -/
def plain : Editor where
  deliver prompt input :=
    if isShowable prompt then .ok ((lines input).map Taken.line) else .error refusal
  history old lines := Text.unlines (lines.foldl addLine (old.elim [] readHistory))

end Lox.Prompt
