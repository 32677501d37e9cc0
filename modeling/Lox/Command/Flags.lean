import Lox.Text.Quoted

/-!
# Flags

Arguments in front of the first that is no flag set options. A flag has one or
two dashes; its value follows an equals sign, or is the next argument for a flag
that needs one. Two dashes alone end the flags.
-/

namespace Lox

/-- The options of a call and what follows them. -/
structure Flags where
  /-- The path of the preferences, empty if none is named. -/
  config : Text
  /-- Whether the log is to be detailed. -/
  verbose : Bool
  /-- Whether colours are off. -/
  noColor : Bool
  /-- The arguments after the flags. -/
  rest : List Text
  deriving DecidableEq

/-- Why arguments could not be understood. -/
inductive FlagError where
  /-- Help was asked for. -/
  | help
  /-- A flag without a name. -/
  | badForm (argument : Text)
  /-- A flag that there is not. -/
  | undefined (name : Text)
  /-- A flag that needs a value has none. -/
  | needsArgument (name : Text)
  /-- A flag that is on or off has another value. -/
  | badBool (value name : Text)
  deriving DecidableEq

/-- What is said about an error in front of the usage. -/
def FlagError.text : FlagError → Text
  | help => []
  | badForm argument => Text.line (utf8 "bad flag syntax: " ++ argument)
  | undefined name => Text.line (utf8 "flag provided but not defined: -" ++ name)
  | needsArgument name => Text.line (utf8 "flag needs an argument: -" ++ name)
  | badBool value name => Text.line (utf8 "invalid boolean value " ++ Quoted.quote value ++
      utf8 " for -" ++ name ++ utf8 ": parse error")

/-- The form of an argument. -/
inductive Argument where
  /-- No flag. -/
  | ordinary
  /-- Two dashes alone. -/
  | terminator
  /-- Dashes without a name. -/
  | malformed
  /-- A flag with its name, and its value if there is one. -/
  | flag (name : Text) (value : Option Text)
  deriving DecidableEq

namespace Argument

/-- A flag's name and value. An equals sign cannot be the first byte. -/
def named : Text → Argument
  | [] => malformed
  | b :: rest =>
    if b == 0x2D || b == 0x3D then malformed
    else
      let name := b :: rest.takeWhile (· != 0x3D)
      match rest.dropWhile (· != 0x3D) with
      | [] => flag name none
      | _ :: value => flag name (some value)

/-- The form of an argument. -/
def ofText : Text → Argument
  | [0x2D, 0x2D] => terminator
  | 0x2D :: 0x2D :: rest => named rest
  | [0x2D] => ordinary
  | 0x2D :: rest => named rest
  | _ => ordinary

end Argument

namespace Flags

/-- No flag is given. -/
def none : Flags := ⟨[], false, false, []⟩

/-- The spellings of a flag that is on or off. -/
def bool? (t : Text) : Option Bool :=
  if (["1", "t", "T", "TRUE", "true", "True"].map utf8).contains t then some true
  else if (["0", "f", "F", "FALSE", "false", "False"].map utf8).contains t then some false
  else Option.none

/-- A flag that is on or off; without a value it is on. -/
def switch (name : Text) (value : Option Text) : Except FlagError Bool :=
  match value with
  | Option.none => .ok true
  | some v =>
    match bool? v with
    | some b => .ok b
    | Option.none => .error (.badBool v name)

/-- The options that arguments set over given ones. -/
def parse (f : Flags) : List Text → Except FlagError Flags
  | [] => .ok f
  | argument :: rest =>
    match Argument.ofText argument with
    | .ordinary => .ok { f with rest := argument :: rest }
    | .terminator => .ok { f with rest := rest }
    | .malformed => .error (.badForm argument)
    | .flag name value =>
      if name = utf8 "config" then
        match value, rest with
        | some v, rest => parse { f with config := v } rest
        | Option.none, v :: rest => parse { f with config := v } rest
        | Option.none, [] => .error (.needsArgument name)
      else if name = utf8 "v" then
        match switch name value with
        | .ok b => parse { f with verbose := b } rest
        | .error e => .error e
      else if name = utf8 "no-color" then
        match switch name value with
        | .ok b => parse { f with noColor := b } rest
        | .error e => .error e
      else if name = utf8 "help" ∨ name = utf8 "h" then .error .help
      else .error (.undefined name)

/-- How the command is used. -/
def usage : Text := utf8
  ("Usage: lox [flags] [script]\n" ++
    "  -config string\n    \tYAML config file (default $HOME/.loxrc.yml)\n" ++
    "  -no-color\n    \tdisable coloured output\n" ++
    "  -v\tlog debug information to stderr\n")

end Flags

end Lox
