import Lox.Execute
import Lox.Token.Scan
import Lox.Tree.Parse

/-!
# Sessions

A unit of work is a source or a list of statements. A source is scanned, parsed
and carried out; it fails in the first of these that finds an error, and a
failure of the first two leaves the machine untouched. The units of a session
share one machine, so that names bound by one are there for the next.
-/

namespace Lox

/-- Why a unit failed. -/
inductive Failure where
  /-- The source holds bad pieces. -/
  | lexical (errors : List LexicalError)
  /-- The tokens make no program. -/
  | grammatical (errors : List GrammarError)
  /-- The statements could not be carried out to the end. -/
  | stopped (stop : Stop)

/-- A failure as it is shown. A fault and an unfinished run are not errors of the
program and have no report. -/
def Failure.report? : Failure → Option Report
  | lexical errors => some (.several (errors.map LexicalError.report))
  | grammatical errors => some (.several (errors.map GrammarError.report))
  | stopped (.error e) => some e.report
  | stopped _ => none

/-- What a unit comes to. -/
structure Outcome where
  /-- Why it failed, if it did. -/
  failure : Option Failure
  /-- The machine afterwards. -/
  machine : Machine
  /-- What was done besides, in order. -/
  effects : List Effect

namespace Outcome

/-- The lines printed by a unit. -/
def printed (o : Outcome) : List Text := Effect.printed o.effects

/-- The entries logged by a unit. -/
def logged (o : Outcome) : List LogEntry := Effect.logged o.effects

/-- The lines that tell the user about a failure. -/
def errorLines (o : Outcome) : List Text :=
  Report.allLines (o.failure.bind Failure.report?)

/-- The outcome with effects in front of its own. -/
def after (effects : List Effect) (o : Outcome) : Outcome :=
  { o with effects := effects ++ o.effects }

end Outcome

namespace Machine

/-- The entry that closes a run stopped by a runtime error. -/
def abortEntry (settings : Settings) : Option Stop → List Effect
  | some (.error e) => settings.log (.aborted e.report.text)
  | _ => []

/-- Statements are carried out as a unit. -/
def interpret (settings : Settings) (program : List Stmt) (m : Machine) : Outcome :=
  let r := executeAll settings program m
  ⟨r.stop.map .stopped, r.machine,
    settings.log (.interpreting program.length) ++ r.effects ++ abortEntry settings r.stop⟩

/-- A source is scanned, parsed and carried out as a unit. -/
def run (settings : Settings) (source : Text) (m : Machine) : Outcome :=
  match scan source with
  | .error errors => ⟨some (.lexical errors), m, settings.log (.scanFailed errors.length)⟩
  | .ok tokens =>
    let scanned := settings.log (.scanned tokens.length)
    match parse tokens with
    | .error errors =>
      ⟨some (.grammatical errors), m, scanned ++ settings.log (.parseFailed errors.length)⟩
    | .ok program =>
      (m.interpret settings program).after
        (scanned ++ settings.log (.parsed program.length))

end Machine

/-- A unit of work. -/
inductive WorkUnit where
  /-- A source. -/
  | source (text : Text)
  /-- Statements that are already built. -/
  | statements (program : List Stmt)

/-- A unit of work is done. -/
def WorkUnit.run (settings : Settings) (m : Machine) : WorkUnit → Outcome
  | source text => m.run settings text
  | statements program => m.interpret settings program

/-- The outcomes of a session's units, which share one machine. -/
def session (settings : Settings) : Machine → List WorkUnit → List Outcome
  | _, [] => []
  | m, unit :: rest =>
    let outcome := unit.run settings m
    outcome :: session settings outcome.machine rest

/-- A line shown to the user. -/
inductive Shown where
  /-- A line of output. -/
  | out (line : Text)
  /-- A line about an error. -/
  | err (line : Text)
  deriving DecidableEq

/-- What a unit shows: its output and then its errors. -/
def Outcome.shown (o : Outcome) : List Shown :=
  o.printed.map .out ++ o.errorLines.map .err

/-- Whether a source runs on a fresh machine without an error, and what it shows. -/
def runSource (settings : Settings) (source : Text) : Bool × List Shown :=
  let o := Machine.new.run settings source
  (o.failure.isNone, o.shown)

end Lox
