import Lox.Command

/-!
# The command line

The first argument names the command and the others are its own. Files, input
and output are handled here; what is written and with which code the command
ends is decided by the commands themselves.
-/

namespace Lox.Main

/-- More rounds than any loop that ends is likely to take. -/
def rounds : Nat := 1000000000000000000

/-- A text as a string, for use as a file name. -/
def nameOf (t : Text) : String := (String.fromUTF8? ⟨t.toArray⟩).getD ""

/-- Why an operation of the system failed; the system's code 21 tells a directory
from other files of the wrong type. A path without zero bytes that cannot be is
too long. -/
def causeOf : IO.Error → FileCause
  | .inappropriateType _ code _ => if code == 21 then .isDirectory else .notDirectory
  | .invalidArgument _ _ _ => .tooLong
  | .permissionDenied _ _ _ => .denied
  | _ => .missing

/-- The content of a file. A directory can be opened but not read. -/
def readFile (path : Text) : IO (Except FileFailure Text) := do
  if let some cause := pathFault? path then return .error ⟨false, path, cause⟩
  try
    let bytes ← IO.FS.readBinFile (nameOf path)
    return .ok bytes.data.toList
  catch e =>
    let cause := causeOf e
    return .error ⟨cause = .isDirectory, path, cause⟩

/-- A file is written whole. -/
def writeFile (path content : Text) : IO (Option FileFailure) := do
  if let some cause := pathFault? path then return some ⟨false, path, cause⟩
  try
    IO.FS.writeBinFile (nameOf path) ⟨content.toArray⟩
    return none
  catch e => return some ⟨false, path, causeOf e⟩

/-- A text goes to a stream. -/
def send (stream : IO.FS.Stream) (t : Text) : IO Unit := do
  stream.write ⟨t.toArray⟩
  stream.flush

/-- Both streams are written. -/
def write (c : Console) : IO Unit := do
  send (← IO.getStdout) c.out
  send (← IO.getStderr) c.err

/-- The streams are written and the exit code is given. -/
def leave (e : Ending) : IO UInt32 := do
  write e.console
  return e.code.number.toUInt32

/-- The next line of the input with its end, empty at the end of the input. -/
partial def readLine (stream : IO.FS.Stream) (read : ByteArray) : IO Text := do
  let next ← stream.read 1
  if next.isEmpty then return read.data.toList
  if next.data.toList = [Text.lineFeed] then return (read ++ next).data.toList
  readLine stream (read ++ next)

/-- Lines are asked for and run until there are no more; those entered are kept. -/
partial def converse (s : Settings) (prompt : Text) (m : Machine) (entered : List Text) :
    IO (List Text) := do
  let out ← IO.getStdout
  send out prompt
  let raw ← readLine (← IO.getStdin) ByteArray.empty
  if raw.isEmpty then
    send out (utf8 "\n")
    return entered
  let pieces := (Prompt.lines raw).map Prompt.Taken.line
  let mut machine := m
  let mut first := true
  for piece in pieces do
    if !first then send out prompt
    first := false
    let (after, console) := Prompt.enter s machine piece
    write console
    machine := after
  converse s prompt machine (entered ++ pieces)

/-- A session at the prompt. -/
def prompt (s : Settings) (p : Preferences) (home : Option Text) : IO UInt32 := do
  let path := p.historyPath home
  let old ← readFile path
  let (code, delivered) ←
    if Prompt.isShowable p.prompt then do
      send (← IO.getStdout) Prompt.banner
      pure (0, .ok (← converse s p.prompt Machine.new []))
    else
      let refused := .error Prompt.refusal
      pure (← leave (Prompt.session s p.prompt refused), refused)
  if !path.isEmpty then
    let history := Prompt.plain.history old.toOption (Prompt.added delivered)
    match ← writeFile path history with
    | none => pure ()
    | some failure => write (s.logConsole (.historyNotSaved failure.text))
  return code

/-- The preferences in a file, and what is wrong with them. -/
def load (home : Option Text) (path : Text) : IO (Preferences × Option LoadError) := do
  match Preferences.source? home path with
  | none => return (Preferences.default, none)
  | some source => return Preferences.ofRead (!path.isEmpty) source (← readFile source)

/-- The command that runs a script or a session at the prompt. -/
def interpret (arguments : List Text) : IO UInt32 := do
  match Flags.none.parse arguments with
  | .error e => leave (Command.misused e.text)
  | .ok flags =>
    if 1 < flags.rest.length then leave (Command.misused [])
    else
      let home := homeDirectory ((← IO.getEnv "HOME").map utf8)
      match ← load home flags.config with
      | (_, some e) => leave (Command.misconfigured e)
      | (p, none) =>
        let s := Command.settings rounds flags p
        match flags.rest with
        | path :: _ =>
          let place := Path.absolute (utf8 (← IO.currentDir).toString) path
          leave (Script.ofRead s place (← readFile place))
        | [] => prompt s p home

/-- The command that lists a source. -/
def list (l : Listing) (arguments : List Text) : IO UInt32 := do
  match arguments with
  | [path] => leave (l.ofRead (← readFile path))
  | _ => leave l.misused

/-- The command that the first argument names. -/
def run (arguments : List Text) : IO UInt32 := do
  match arguments.head?.bind Command.ofName? with
  | some .interpreter => interpret arguments.tail
  | some (.listing l) => list l arguments.tail
  | some .declarations => leave (NodeFamily.run arguments.tail)
  | none => leave ⟨.usage, .ofErr (utf8 "Usage: lox|lex|tree|ast [arguments]\n")⟩

end Lox.Main

/-- The command line. -/
def main (arguments : List String) : IO UInt32 := Lox.Main.run (arguments.map Lox.utf8)
