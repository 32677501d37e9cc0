import Lox.Evaluate
import Lox.Log

/-!
# Execution

Statements are carried out one after the other on a machine: the arena and the
index of the current scope. A block gets a scope of its own, which is released
and left again however the block ends. What a statement does besides is a list of
effects in order: printed lines and log entries. Loops are bounded by a count of
rounds, so that every run ends; one that is cut off says so.
-/

namespace Lox

/-- The state in which statements are carried out. -/
structure Machine where
  /-- The scopes. -/
  arena : Arena
  /-- The index of the current scope. -/
  current : Int
  deriving DecidableEq

/-- A machine with nothing but an empty global scope. -/
def Machine.new : Machine := ⟨Arena.new, 0⟩

/-- What a run does besides changing the machine. -/
inductive Effect where
  /-- A line is printed. -/
  | print (line : Text)
  /-- An entry is logged. -/
  | log (entry : LogEntry)
  deriving DecidableEq

/-- The printed lines among effects, in order. -/
def Effect.printed (effects : List Effect) : List Text :=
  effects.filterMap fun e => match e with
    | .print line => some line
    | .log _ => none

/-- The log entries among effects, in order. -/
def Effect.logged (effects : List Effect) : List LogEntry :=
  effects.filterMap fun e => match e with
    | .print _ => none
    | .log entry => some entry

/-- How a run is carried out. -/
structure Settings where
  /-- The level of the log. -/
  level : LogLevel
  /-- How many rounds each loop may take. -/
  rounds : Nat

/-- The effect of logging an entry: none if the log does not keep it. -/
def Settings.log (settings : Settings) (entry : LogEntry) : List Effect :=
  if settings.level.keeps entry.level then [.log entry] else []

/-- What carrying something out comes to. -/
structure Ran where
  /-- Why it stopped early, if it did. -/
  stop : Option Stop
  /-- The machine afterwards. -/
  machine : Machine
  /-- What was done besides, in order. -/
  effects : List Effect

namespace Machine

/-- The value of an expression in the current scope. -/
def evaluate (m : Machine) (e : Expr) : Except Stop (Option Value) × Machine :=
  let (result, arena) := e.evaluate m.current m.arena
  (result, { m with arena := arena })

/-- Nothing is done. -/
def idle (m : Machine) : Ran := ⟨none, m, []⟩

/-- The run stops. -/
def halt (m : Machine) (stop : Stop) : Ran := ⟨some stop, m, []⟩

/-- A name is bound in the current scope. -/
def define (m : Machine) (name : Text) (value : Option Value) : Ran :=
  match m.arena.define m.current name value with
  | .ok arena => ⟨none, { m with arena := arena }, []⟩
  | .error stop => m.halt stop

/-- The run stops at a token for lack of a feature. -/
def lacks (m : Machine) (feature : Feature) (token : Token) : Ran :=
  m.halt (.error (RuntimeCause.at (.unsupported feature) token))

end Machine

namespace Ran

/-- What follows a run, unless it stopped. -/
def andThen (r : Ran) (next : Machine → Ran) : Ran :=
  match r.stop with
  | some _ => r
  | none =>
    let after := next r.machine
    ⟨after.stop, after.machine, r.effects ++ after.effects⟩

end Ran

/-- A body is run in a scope of its own, which is released at the end, and the
scope before is current again. -/
def inScope (settings : Settings) (body : Machine → Ran) (m : Machine) : Ran :=
  let opened := m.arena.push m.current
  let block := m.arena.depth
  let r := body ⟨opened, block⟩
  let closed := r.machine.arena.pop block
  ⟨r.stop, ⟨closed, m.current⟩,
    settings.log (.enterScope opened.depth) ++ r.effects ++
      settings.log (.leaveScope closed.depth)⟩

/-- A body is run as long as a condition holds, over a bounded count of rounds. -/
def repeatWhile (condition : Expr) (body : Machine → Ran) : Nat → Machine → Ran
  | 0, m => m.halt .unfinished
  | rounds + 1, m =>
    match m.evaluate condition with
    | (.error stop, m) => m.halt stop
    | (.ok v, m) =>
      if Value.truthy v then (body m).andThen (repeatWhile condition body rounds)
      else m.idle

mutual

/-- A statement is carried out. -/
def Stmt.execute (settings : Settings) : Stmt → Machine → Ran
  | .absent, m => m.halt (.fault .unknownStatement)
  | .expression e, m =>
    match m.evaluate e with
    | (.error stop, m) => m.halt stop
    | (.ok _, m) => m.idle
  | .print _ e, m =>
    match m.evaluate e with
    | (.error stop, m) => m.halt stop
    | (.ok none, m) => m.halt (.fault .absentValue)
    | (.ok (some v), m) => ⟨none, m, [.print v.text]⟩
  | .var n e, m =>
    if e.isPresent then
      match m.evaluate e with
      | (.error stop, m) => m.halt stop
      | (.ok v, m) => m.define n.lexeme v
    else m.idle
  | .block body, m => inScope settings (fun m => executeAll settings body m) m
  | .conditional _ condition thenBranch elseBranch, m =>
    match m.evaluate condition with
    | (.error stop, m) => m.halt stop
    | (.ok v, m) =>
      if Value.truthy v then thenBranch.execute settings m
      else if elseBranch.isPresent then elseBranch.execute settings m
      else m.idle
  | .loop _ condition body, m =>
    repeatWhile condition (fun m => body.execute settings m) settings.rounds m
  | .classDecl n _ _, m => m.lacks .classDeclarations n
  | .functionDecl n _ _, m => m.lacks .functionDeclarations n
  | .returning keyword _, m => m.lacks .returnStatements keyword
termination_by structural s => s

/-- Statements are carried out in order until one stops. -/
def executeAll (settings : Settings) : List Stmt → Machine → Ran
  | [], m => m.idle
  | s :: rest, m => (s.execute settings m).andThen fun m => executeAll settings rest m
termination_by structural body => body

end

end Lox
