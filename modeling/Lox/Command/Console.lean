import Lox.Directory

/-!
# What a command leaves behind

A command writes to two streams and ends with an exit code; it may also have
changed files. Errors have the conventional codes: 64 for wrong usage, 65 for bad
input data, 70 for a program that failed, 74 for files, 78 for preferences.
-/

namespace Lox

/-- What was written to the two streams. -/
structure Console where
  /-- The output. -/
  out : Text
  /-- What is said about the run. -/
  err : Text
  deriving DecidableEq

namespace Console

/-- Nothing was written. -/
def empty : Console := ⟨[], []⟩

/-- Something was written to the output. -/
def ofOut (t : Text) : Console := ⟨t, []⟩

/-- Something was written about the run. -/
def ofErr (t : Text) : Console := ⟨[], t⟩

instance : Append Console := ⟨fun a b => ⟨a.out ++ b.out, a.err ++ b.err⟩⟩

/-- Streams add up. -/
theorem append_out (a b : Console) : (a ++ b).out = a.out ++ b.out := rfl

/-- Streams add up. -/
theorem append_err (a b : Console) : (a ++ b).err = a.err ++ b.err := rfl

end Console

/-- The exit codes. -/
inductive ExitCode where
  /-- All went well. -/
  | ok
  /-- The command was called wrongly. -/
  | usage
  /-- The source holds errors. -/
  | dataError
  /-- The program failed while running. -/
  | software
  /-- A file or the input could not be read. -/
  | ioError
  /-- The preferences cannot be used. -/
  | config
  deriving DecidableEq, Repr

/-- The number of an exit code. -/
def ExitCode.number : ExitCode → Nat
  | ok => 0
  | usage => 64
  | dataError => 65
  | software => 70
  | ioError => 74
  | config => 78

/-- What a command leaves behind, apart from files. -/
structure Ending where
  /-- The exit code. -/
  code : ExitCode
  /-- The two streams. -/
  console : Console
  deriving DecidableEq

end Lox
