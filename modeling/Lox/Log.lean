import Lox.Text.Quoted

/-!
# The log

A run tells what it does in log entries. Each has a level, a message and fields;
a log keeps the entries of at least its own severity. A written entry is one line
of `key=value` pairs, the fields in the order of their keys.
-/

namespace Lox

/-- How severe a log entry is, the most severe first. -/
inductive LogLevel where
  | panic | fatal | error | warning | info | debug | trace
  deriving DecidableEq, Repr

namespace LogLevel

/-- Every level, the most severe first. -/
def all : List LogLevel := [panic, fatal, error, warning, info, debug, trace]

/-- The position of a level in the order of severity. -/
def rank : LogLevel → Nat
  | panic => 0
  | fatal => 1
  | error => 2
  | warning => 3
  | info => 4
  | debug => 5
  | trace => 6

/-- The name of a level. -/
def name : LogLevel → Text
  | panic => utf8 "panic"
  | fatal => utf8 "fatal"
  | error => utf8 "error"
  | warning => utf8 "warning"
  | info => utf8 "info"
  | debug => utf8 "debug"
  | trace => utf8 "trace"

/-- Whether a log at the first level keeps an entry of the second. -/
def keeps (log entry : LogLevel) : Bool := entry.rank ≤ log.rank

/-- The level of a name in any case; `warn` is short for `warning`. -/
def ofName? (t : Text) : Option LogLevel :=
  if Text.lower t = utf8 "warn" then some warning
  else all.find? fun level => level.name == Text.lower t

end LogLevel

/-- The value of a field. -/
inductive LogField where
  /-- A count. -/
  | count (n : Nat)
  /-- A text. -/
  | text (t : Text)
  deriving DecidableEq

/-- What a log entry is about. -/
inductive LogEntry where
  /-- A source had this many lexical errors. -/
  | scanFailed (errors : Nat)
  /-- A source has this many tokens. -/
  | scanned (tokens : Nat)
  /-- A stream had this many errors of grammar. -/
  | parseFailed (errors : Nat)
  /-- A stream has this many statements. -/
  | parsed (stmts : Nat)
  /-- This many statements are about to be carried out. -/
  | interpreting (stmts : Nat)
  /-- A runtime error stopped the run. -/
  | aborted (error : Text)
  /-- A scope was added and there are now this many. -/
  | enterScope (depth : Nat)
  /-- A scope was released and there are now this many. -/
  | leaveScope (depth : Nat)
  /-- A script is about to run. -/
  | runningScript (file : Text)
  /-- The history of the prompt could not be written. -/
  | historyNotSaved (error : Text)
  deriving DecidableEq

namespace LogEntry

/-- The level of an entry. -/
def level : LogEntry → LogLevel
  | enterScope _ | leaveScope _ => .trace
  | historyNotSaved _ => .warning
  | _ => .debug

/-- The message of an entry. -/
def message : LogEntry → Text
  | scanFailed _ => utf8 "scan failed"
  | scanned _ => utf8 "scanned"
  | parseFailed _ => utf8 "parse failed"
  | parsed _ => utf8 "parsed"
  | interpreting _ => utf8 "interpreting"
  | aborted _ => utf8 "aborted by runtime error"
  | enterScope _ => utf8 "enter scope"
  | leaveScope _ => utf8 "leave scope"
  | runningScript _ => utf8 "running script"
  | historyNotSaved _ => utf8 "cannot save history"

/-- The field that says which part of the program speaks. -/
def component : Text × LogField := (utf8 "component", .text (utf8 "lox"))

/-- The fields of an entry in the order of their keys. -/
def fields : LogEntry → List (Text × LogField)
  | scanFailed n => [component, (utf8 "errors", .count n)]
  | scanned n => [component, (utf8 "tokens", .count n)]
  | parseFailed n => [component, (utf8 "errors", .count n)]
  | parsed n => [component, (utf8 "stmts", .count n)]
  | interpreting n => [component, (utf8 "stmts", .count n)]
  | aborted e => [component, (utf8 "error", .text e)]
  | enterScope n => [component, (utf8 "depth", .count n)]
  | leaveScope n => [component, (utf8 "depth", .count n)]
  | runningScript file => [(utf8 "file", .text file)]
  | historyNotSaved e => [(utf8 "error", .text e)]

/-- The bytes that need no quotes in a written entry. -/
def isPlain (b : UInt8) : Bool :=
  Text.isDigit b || (0x61 ≤ b && b ≤ 0x7A) || (0x41 ≤ b && b ≤ 0x5A) ||
    (utf8 "-._/@^+").contains b

/-- A text in a written entry: quoted if a byte needs it. -/
def writtenText (t : Text) : Text := if t.all isPlain then t else Quoted.quote t

/-- A field's value in a written entry. -/
def writtenField : LogField → Text
  | .count n => Text.decimal n
  | .text t => writtenText t

/-- An entry in one line, without its line feed. -/
def text (e : LogEntry) : Text :=
  utf8 "level=" ++ e.level.name ++ utf8 " msg=" ++ writtenText e.message ++
    e.fields.flatMap fun f => utf8 " " ++ f.1 ++ utf8 "=" ++ writtenField f.2

end LogEntry

end Lox
