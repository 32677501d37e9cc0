import Mathlib.Logic.Relation
import Lox.Proofs.Scopes
import Lox.Proofs.Semantics.BigStep
import Lox.Proofs.Session

/-!
# The moments of a run

While a unit is carried out, statements and expressions are taken up one inside the other, each
on the machine of that moment. This module says which task takes up which, and on what machine,
so that what holds at every moment of a run can be shown one step at a time. No moment is left
out: a run that stops early stops at one of its moments, by the task of that moment itself.

The first use is the discipline of scopes. At every moment the scopes form one chain that ends in
the current scope, so that no access goes astray, and after every unit only the global scope is
left.
-/

namespace Lox

open Machine (SameScopes)

/-- Something that is taken up during a run. -/
inductive Task where
  /-- An expression is evaluated. -/
  | evaluate (e : Expr)
  /-- Code is carried out. -/
  | carryOut (c : Code)

/-- A task at the moment when it is taken up. -/
structure Moment where
  /-- The task. -/
  task : Task
  /-- The machine on which it is taken up. -/
  machine : Machine

/-- The machine that the task of a moment leaves. -/
def Moment.after (settings : Settings) (a : Moment) : Machine :=
  match a.task with
  | .evaluate e => (a.machine.evaluate e).2
  | .carryOut c => (c.execute settings a.machine).machine

/-- The tasks that a task takes up, each on the machine that the ones before it have left. A
block takes up its body on a machine with one more scope. A loop takes itself up again after a
round that did not stop. -/
inductive Enters (settings : Settings) : Moment → Moment → Prop
  | grouping {e : Expr} {m : Machine} :
      Enters settings ⟨.evaluate (.grouping e), m⟩ ⟨.evaluate e, m⟩
  | assigned {n : Token} {e : Expr} {m : Machine} :
      Enters settings ⟨.evaluate (.assign n e), m⟩ ⟨.evaluate e, m⟩
  | operand {op : Token} {e : Expr} {m : Machine} :
      Enters settings ⟨.evaluate (.unary op e), m⟩ ⟨.evaluate e, m⟩
  | logicalLeft {op : Token} {left right : Expr} {m : Machine} :
      Enters settings ⟨.evaluate (.logical left op right), m⟩ ⟨.evaluate left, m⟩
  | logicalRight {op : Token} {left right : Expr} {m m' : Machine} {v : Option Value}
      (h : m.evaluate left = (.ok v, m')) (hd : decides op v = false) :
      Enters settings ⟨.evaluate (.logical left op right), m⟩ ⟨.evaluate right, m'⟩
  | binaryLeft {op : Token} {left right : Expr} {m : Machine} :
      Enters settings ⟨.evaluate (.binary left op right), m⟩ ⟨.evaluate left, m⟩
  | binaryRight {op : Token} {left right : Expr} {m m' : Machine} {v : Option Value}
      (h : m.evaluate left = (.ok v, m')) :
      Enters settings ⟨.evaluate (.binary left op right), m⟩ ⟨.evaluate right, m'⟩
  /-- A statement evaluates its expression, if it has one. -/
  | subject {s : Stmt} {e : Expr} {m : Machine} (h : Semantics.Subject s e) :
      Enters settings ⟨.carryOut (.statement s), m⟩ ⟨.evaluate e, m⟩
  | thenBranch {k : Token} {c : Expr} {s t : Stmt} {m m' : Machine} {v : Option Value}
      (h : m.evaluate c = (.ok v, m')) (hv : Value.truthy v = true) :
      Enters settings ⟨.carryOut (.statement (.conditional k c s t)), m⟩
        ⟨.carryOut (.statement s), m'⟩
  | elseBranch {k : Token} {c : Expr} {s t : Stmt} {m m' : Machine} {v : Option Value}
      (h : m.evaluate c = (.ok v, m')) (hv : Value.truthy v = false) (ht : t ≠ .absent) :
      Enters settings ⟨.carryOut (.statement (.conditional k c s t)), m⟩
        ⟨.carryOut (.statement t), m'⟩
  | round {k : Token} {c : Expr} {s : Stmt} {m m' : Machine} {v : Option Value}
      (h : m.evaluate c = (.ok v, m')) (hv : Value.truthy v = true) :
      Enters settings ⟨.carryOut (.statement (.loop k c s)), m⟩ ⟨.carryOut (.statement s), m'⟩
  | nextRound {k : Token} {c : Expr} {s : Stmt} {m m' : Machine} {v : Option Value}
      (h : m.evaluate c = (.ok v, m')) (hv : Value.truthy v = true)
      (hs : (s.execute settings m').stop = none) :
      Enters settings ⟨.carryOut (.statement (.loop k c s)), m⟩
        ⟨.carryOut (.statement (.loop k c s)), (s.execute settings m').machine⟩
  | block {body : List Stmt} {m : Machine} :
      Enters settings ⟨.carryOut (.statement (.block body)), m⟩
        ⟨.carryOut (.row body), ⟨m.arena.push m.current, m.arena.depth⟩⟩
  | first {s : Stmt} {rest : List Stmt} {m : Machine} :
      Enters settings ⟨.carryOut (.row (s :: rest)), m⟩ ⟨.carryOut (.statement s), m⟩
  | next {s : Stmt} {rest : List Stmt} {m : Machine} (hs : (s.execute settings m).stop = none) :
      Enters settings ⟨.carryOut (.row (s :: rest)), m⟩
        ⟨.carryOut (.row rest), (s.execute settings m).machine⟩

/-- A task that cannot go on by itself: not for a task that it takes up, but for what it does on
its own once those are over. -/
inductive Moment.Fails : Moment → Stop → Prop
  | absentExpression {m : Machine} : Fails ⟨.evaluate .absent, m⟩ (.fault .unknownExpression)
  | unsupportedExpression {e : Expr} {feature : Feature} {t : Token} {m : Machine}
      (h : Semantics.Unsupported e feature t) :
      Fails ⟨.evaluate e, m⟩ (.error (RuntimeCause.at (.unsupported feature) t))
  | get {n : Token} {m : Machine} {stop : Stop} (h : m.arena.get m.current n = .error stop) :
      Fails ⟨.evaluate (.name n), m⟩ stop
  | assign {n : Token} {e : Expr} {m m' : Machine} {v : Option Value} {stop : Stop}
      (he : m.evaluate e = (.ok v, m')) (h : m'.arena.assign m'.current n v = .error stop) :
      Fails ⟨.evaluate (.assign n e), m⟩ stop
  | unary {op : Token} {e : Expr} {m m' : Machine} {v : Option Value} {error : RuntimeError}
      (he : m.evaluate e = (.ok v, m')) (h : applyUnary op v = .error error) :
      Fails ⟨.evaluate (.unary op e), m⟩ (.error error)
  | binary {op : Token} {left right : Expr} {m m' m'' : Machine} {v w : Option Value}
      {error : RuntimeError} (hl : m.evaluate left = (.ok v, m'))
      (hr : m'.evaluate right = (.ok w, m'')) (h : applyBinary op v w = .error error) :
      Fails ⟨.evaluate (.binary left op right), m⟩ (.error error)
  | absentStatement {m : Machine} :
      Fails ⟨.carryOut (.statement .absent), m⟩ (.fault .unknownStatement)
  | unsupportedStatement {s : Stmt} {feature : Feature} {t : Token} {m : Machine}
      (h : Semantics.UnsupportedStatement s feature t) :
      Fails ⟨.carryOut (.statement s), m⟩ (.error (RuntimeCause.at (.unsupported feature) t))
  | print {k : Token} {e : Expr} {m m' : Machine} (he : m.evaluate e = (.ok none, m')) :
      Fails ⟨.carryOut (.statement (.print k e)), m⟩ (.fault .absentValue)
  | define {n : Token} {e : Expr} {m m' : Machine} {v : Option Value} {stop : Stop}
      (hp : e ≠ .absent) (he : m.evaluate e = (.ok v, m'))
      (h : m'.arena.define m'.current n.lexeme v = .error stop) :
      Fails ⟨.carryOut (.statement (.var n e)), m⟩ stop

/-- A reason to stop has its moment after a given one: the run comes to a task that cannot go on
for that reason. -/
def Moment.LeadsTo (settings : Settings) (a : Moment) (stop : Stop) : Prop :=
  ∃ b, Relation.ReflTransGen (Enters settings) a b ∧ b.Fails stop

/-- A task that cannot go on by itself is its own moment of failure. -/
theorem Moment.Fails.leadsTo {a : Moment} {stop : Stop} (h : a.Fails stop) (settings : Settings) :
    a.LeadsTo settings stop :=
  ⟨a, .refl, h⟩

/-- A moment of failure after a task that is taken up is one after the task that takes it up. -/
theorem Enters.leadsTo {settings : Settings} {a b : Moment} {stop : Stop}
    (h : Enters settings a b) (hb : b.LeadsTo settings stop) : a.LeadsTo settings stop := by
  obtain ⟨c, hpath, hfails⟩ := hb
  exact ⟨c, .head h hpath, hfails⟩

namespace Machine

/-- An assignment evaluates its value and then assigns it. -/
theorem evaluate_assign (m : Machine) (n : Token) (e : Expr) :
    m.evaluate (.assign n e) =
      match m.evaluate e with
      | (.error stop, m') => (.error stop, m')
      | (.ok v, m') =>
        match m'.arena.assign m'.current n v with
        | .ok assigned => (.ok v, { m' with arena := assigned })
        | .error stop => (.error stop, m') := by
  simp only [evaluate, Expr.evaluate]
  obtain ⟨stop | v, a⟩ := e.evaluate m.current m.arena
  · rfl
  · cases hassign : a.assign m.current n v <;> simp only [hassign]

/-- A short-circuit operator evaluates its left operand, and its right one only if the left one
does not decide. -/
theorem evaluate_logical (m : Machine) (left : Expr) (op : Token) (right : Expr) :
    m.evaluate (.logical left op right) =
      match m.evaluate left with
      | (.error stop, m') => (.error stop, m')
      | (.ok v, m') => if decides op v then (.ok v, m') else m'.evaluate right := by
  simp only [evaluate, Expr.evaluate]
  obtain ⟨stop | v, a⟩ := left.evaluate m.current m.arena
  · rfl
  · cases hdecides : decides op v <;> simp only [hdecides, if_true, Bool.false_eq_true, if_false]

/-- An operator in front of its operand evaluates it and is then applied. -/
theorem evaluate_unary (m : Machine) (op : Token) (e : Expr) :
    m.evaluate (.unary op e) =
      match m.evaluate e with
      | (.error stop, m') => (.error stop, m')
      | (.ok v, m') => (((applyUnary op v).map some).mapError .error, m') := by
  simp only [evaluate, Expr.evaluate]
  obtain ⟨stop | v, a⟩ := e.evaluate m.current m.arena
  · rfl
  · cases happly : applyUnary op v <;> simp only [Evaluated.ofApplied, happly] <;> rfl

/-- An operator between two operands evaluates them from left to right and is then applied. -/
theorem evaluate_binary (m : Machine) (left : Expr) (op : Token) (right : Expr) :
    m.evaluate (.binary left op right) =
      match m.evaluate left with
      | (.error stop, m') => (.error stop, m')
      | (.ok v, m') =>
        match m'.evaluate right with
        | (.error stop, m'') => (.error stop, m'')
        | (.ok w, m'') => (((applyBinary op v w).map some).mapError .error, m'') := by
  simp only [evaluate, Expr.evaluate]
  obtain ⟨stop | v, a⟩ := left.evaluate m.current m.arena
  · rfl
  · dsimp only
    obtain ⟨stop | w, a'⟩ := right.evaluate m.current a
    · rfl
    · cases happly : applyBinary op v w <;> simp only [Evaluated.ofApplied, happly] <;> rfl

end Machine

/-- Evaluation that does not come to a value has its moment of failure. -/
theorem leadsTo_of_evaluate (settings : Settings) {e : Expr} {m m' : Machine} {stop : Stop}
    (h : m.evaluate e = (.error stop, m')) :
    Moment.LeadsTo settings ⟨.evaluate e, m⟩ stop := by
  induction e generalizing m m' with
  | absent =>
    cases h
    exact Moment.Fails.absentExpression.leadsTo settings
  | literal => cases h
  | name n =>
    have hget : m.arena.get m.current n = .error stop := congrArg Prod.fst h
    exact (Moment.Fails.get hget).leadsTo settings
  | call callee paren arguments =>
    cases h
    exact (Moment.Fails.unsupportedExpression (.call callee paren arguments)).leadsTo settings
  | get object n =>
    cases h
    exact (Moment.Fails.unsupportedExpression (.get object n)).leadsTo settings
  | set object n value =>
    cases h
    exact (Moment.Fails.unsupportedExpression (.set object n value)).leadsTo settings
  | super keyword method =>
    cases h
    exact (Moment.Fails.unsupportedExpression (.super keyword method)).leadsTo settings
  | receiver keyword =>
    cases h
    exact (Moment.Fails.unsupportedExpression (.receiver keyword)).leadsTo settings
  | grouping inner ih => exact Enters.grouping.leadsTo (ih h)
  | assign n value ih =>
    rw [Machine.evaluate_assign] at h
    split at h
    · next heval =>
      cases h
      exact Enters.assigned.leadsTo (ih heval)
    · next heval =>
      split at h
      · cases h
      · next hassign =>
        cases h
        exact (Moment.Fails.assign heval hassign).leadsTo settings
  | logical left op right ihl ihr =>
    rw [Machine.evaluate_logical] at h
    split at h
    · next heval =>
      cases h
      exact Enters.logicalLeft.leadsTo (ihl heval)
    · next v m₁ heval =>
      split at h
      · cases h
      · next hdecides =>
        exact (Enters.logicalRight heval (Bool.not_eq_true _ ▸ hdecides)).leadsTo (ihr h)
  | unary op right ih =>
    rw [Machine.evaluate_unary] at h
    split at h
    · next heval =>
      cases h
      exact Enters.operand.leadsTo (ih heval)
    · next v m₁ heval =>
      cases happly : applyUnary op v with
      | ok w =>
        rw [happly] at h
        cases h
      | error error =>
        rw [happly] at h
        cases h
        exact (Moment.Fails.unary heval happly).leadsTo settings
  | binary left op right ihl ihr =>
    rw [Machine.evaluate_binary] at h
    split at h
    · next heval =>
      cases h
      exact Enters.binaryLeft.leadsTo (ihl heval)
    · next v m₁ heval =>
      split at h
      · next heval' =>
        cases h
        exact (Enters.binaryRight heval).leadsTo (ihr heval')
      · next w m₂ heval' =>
        cases happly : applyBinary op v w with
        | ok x =>
          rw [happly] at h
          cases h
        | error error =>
          rw [happly] at h
          cases h
          exact (Moment.Fails.binary heval heval' happly).leadsTo settings

/-- A loop that stops, and not for lack of rounds, has its moment of failure, if its body has
one whenever it stops so. -/
theorem leadsTo_of_repeatWhile (settings : Settings) {k : Token} {c : Expr} {s : Stmt}
    {stop : Stop} (hstop : stop ≠ .unfinished)
    (hbody : ∀ m, (s.execute settings m).stop = some stop →
      Moment.LeadsTo settings ⟨.carryOut (.statement s), m⟩ stop)
    (rounds : Nat) {m : Machine}
    (h : (repeatWhile c (fun m => s.execute settings m) rounds m).stop = some stop) :
    Moment.LeadsTo settings ⟨.carryOut (.statement (.loop k c s)), m⟩ stop := by
  induction rounds generalizing m with
  | zero => exact absurd (Option.some.inj h).symm hstop
  | succ rounds ih =>
    unfold repeatWhile at h
    split at h
    · next heval =>
      cases h
      exact (Enters.subject (.loop k c s)).leadsTo (leadsTo_of_evaluate settings heval)
    · next v m' heval =>
      split at h
      · next hv =>
        unfold Ran.andThen at h
        split at h
        · exact (Enters.round heval hv).leadsTo (hbody m' h)
        · next hnone => exact (Enters.nextRound heval hv hnone).leadsTo (ih h)
      · cases h

/-- Code that stops, and not for lack of rounds, has its moment of failure. -/
theorem leadsTo_of_execute (settings : Settings) {c : Code} {m : Machine} {stop : Stop}
    (h : (c.execute settings m).stop = some stop) (hstop : stop ≠ .unfinished) :
    Moment.LeadsTo settings ⟨.carryOut c, m⟩ stop := by
  induction c generalizing m with
  | absent =>
    cases h
    exact Moment.Fails.absentStatement.leadsTo settings
  | classDecl n superclass methods =>
    cases h
    exact (Moment.Fails.unsupportedStatement (.classDecl n superclass methods)).leadsTo settings
  | functionDecl n params body =>
    cases h
    exact (Moment.Fails.unsupportedStatement (.functionDecl n params body)).leadsTo settings
  | returning keyword value =>
    cases h
    exact (Moment.Fails.unsupportedStatement (.returning keyword value)).leadsTo settings
  | block body ih => exact Enters.block.leadsTo (ih h)
  | expression value =>
    simp only [Code.execute, Stmt.execute] at h
    split at h
    · next heval =>
      cases h
      exact (Enters.subject (.expression value)).leadsTo (leadsTo_of_evaluate settings heval)
    · cases h
  | print keyword value =>
    simp only [Code.execute, Stmt.execute] at h
    split at h
    · next heval =>
      cases h
      exact (Enters.subject (.print keyword value)).leadsTo (leadsTo_of_evaluate settings heval)
    · next heval =>
      cases h
      exact (Moment.Fails.print heval).leadsTo settings
    · cases h
  | var n initializer =>
    simp only [Code.execute, Stmt.execute] at h
    split at h
    · next hp =>
      have hpresent := (Expr.isPresent_iff initializer).mp hp
      split at h
      · next heval =>
        cases h
        exact (Enters.subject (.var n hpresent)).leadsTo (leadsTo_of_evaluate settings heval)
      · next heval =>
        unfold Machine.define at h
        split at h
        · cases h
        · next hdefine =>
          cases h
          exact (Moment.Fails.define hpresent heval hdefine).leadsTo settings
    · cases h
  | conditional keyword condition thenBranch elseBranch iht ihe =>
    simp only [Code.execute, Stmt.execute] at h iht ihe
    split at h
    · next heval =>
      cases h
      exact (Enters.subject (.conditional keyword condition thenBranch elseBranch)).leadsTo
        (leadsTo_of_evaluate settings heval)
    · next v m' heval =>
      split at h
      · next hv => exact (Enters.thenBranch heval hv).leadsTo (iht h)
      · next hv =>
        split at h
        · next hp =>
          have hpresent := (Stmt.isPresent_iff elseBranch).mp hp
          exact (Enters.elseBranch heval (Bool.not_eq_true _ ▸ hv) hpresent).leadsTo (ihe h)
        · cases h
  | loop keyword condition body ih =>
    exact leadsTo_of_repeatWhile settings hstop (fun _ => ih) settings.rounds h
  | nil => cases h
  | cons s rest ihs ihr =>
    simp only [Code.execute, executeAll] at h ihs ihr
    unfold Ran.andThen at h
    split at h
    · exact Enters.first.leadsTo (ihs h)
    · next hnone => exact (Enters.next hnone).leadsTo (ihr h)

/-- A unit carries out the statements it is made of, a source those that are read from it. -/
def WorkUnit.CarriesOut : WorkUnit → List Stmt → Prop
  | .source text, program => Accepts text program
  | .statements body, program => program = body

/-- The moments of a unit: those that carrying out its statements leads to. -/
def WorkUnit.Meets (unit : WorkUnit) (settings : Settings) (m : Machine) (a : Moment) : Prop :=
  ∃ program, unit.CarriesOut program ∧
    Relation.ReflTransGen (Enters settings) ⟨.carryOut (.row program), m⟩ a

/-- A machine that units of a class lead to from a new one, under whatever settings. -/
inductive Machine.Reached (allowed : WorkUnit → Prop) : Machine → Prop
  | new : Reached allowed .new
  | run {m : Machine} {unit : WorkUnit} (h : Reached allowed m) (settings : Settings)
      (hunit : allowed unit) : Reached allowed (unit.run settings m).machine

/-- Every task leaves the scopes it finds. -/
theorem Moment.sameScopes_after (settings : Settings) (a : Moment) :
    SameScopes a.machine (a.after settings) := by
  obtain ⟨task, m⟩ := a
  cases task with
  | evaluate e => exact m.sameScopes_evaluate e
  | carryOut c => exact c.sameScopes_execute settings m

/-- A task that is taken up in a chain takes up others in a chain only. -/
theorem Enters.chained {settings : Settings} {a b : Moment} (h : Enters settings a b)
    (ha : a.machine.Chained) : b.machine.Chained := by
  cases h with
  | grouping | assigned | operand | logicalLeft | binaryLeft | subject | first => exact ha
  | logicalRight h | binaryRight h | thenBranch h | elseBranch h | round h =>
    exact ha.of_sameScopes (.of_evaluate h)
  | @nextRound k c s m m' v h =>
    have hcondition := ha.of_sameScopes (.of_evaluate h)
    exact hcondition.of_sameScopes (Code.sameScopes_execute settings (.statement s) m')
  | block => exact ha.push
  | @next s rest m => exact ha.of_sameScopes (Code.sameScopes_execute settings (.statement s) m)

/-- At every moment of a unit that starts in a chain the scopes form a chain. -/
theorem WorkUnit.Meets.chained {unit : WorkUnit} {settings : Settings} {m : Machine} {a : Moment}
    (h : unit.Meets settings m a) (hm : m.Chained) : a.machine.Chained := by
  obtain ⟨program, -, hpath⟩ := h
  induction hpath with
  | refl => exact hm
  | tail _ henters ih => exact henters.chained ih

/-- A unit does nothing to the machine, or what carrying out its statements does. -/
theorem WorkUnit.run_cases (settings : Settings) (unit : WorkUnit) (m : Machine) :
    ((unit.run settings m).machine = m ∧
      ∀ stop, (unit.run settings m).failure ≠ some (.stopped stop)) ∨
    ∃ program, unit.CarriesOut program ∧
      (unit.run settings m).machine = (executeAll settings program m).machine ∧
      (unit.run settings m).failure = (executeAll settings program m).stop.map .stopped := by
  cases unit with
  | statements program => exact .inr ⟨program, rfl, rfl, rfl⟩
  | source text =>
    cases hscan : scan text with
    | error errors =>
      simp only [run, Machine.run, hscan]
      exact .inl ⟨trivial, fun _ hstop => by cases hstop⟩
    | ok tokens =>
      cases hparse : parse tokens with
      | error errors =>
        simp only [run, Machine.run, hscan, hparse]
        exact .inl ⟨trivial, fun _ hstop => by cases hstop⟩
      | ok program =>
        have haccepts : Accepts text program := ⟨tokens, hscan, hparse⟩
        have hshows := haccepts.shows settings m
        exact .inr ⟨program, haccepts, hshows.machine_eq, hshows.failure_eq⟩

/-- A unit leaves the scopes it finds. -/
theorem WorkUnit.sameScopes_run (settings : Settings) (unit : WorkUnit) (m : Machine) :
    SameScopes m (unit.run settings m).machine := by
  rcases unit.run_cases settings m with ⟨hmachine, -⟩ | ⟨program, -, hmachine, -⟩
  · rw [hmachine]
    exact .refl m
  · rw [hmachine]
    exact Code.sameScopes_execute settings (.row program) m

/-- Between two units the machine is at rest. -/
theorem Machine.Reached.atRest {allowed : WorkUnit → Prop} {m : Machine} (h : m.Reached allowed) :
    m.AtRest := by
  rw [Machine.atRest_iff]
  induction h with
  | new => exact .refl _
  | run _ settings _ ih => exact ih.trans (WorkUnit.sameScopes_run settings _ _)

/-- A unit that stops, and not for lack of rounds, does so at one of its moments. -/
theorem WorkUnit.exists_meets_of_failure {settings : Settings} {unit : WorkUnit} {m : Machine}
    {stop : Stop} (h : (unit.run settings m).failure = some (.stopped stop))
    (hstop : stop ≠ .unfinished) : ∃ a, unit.Meets settings m a ∧ a.Fails stop := by
  rcases unit.run_cases settings m with ⟨-, hfailure⟩ | ⟨program, hprogram, -, hfailure⟩
  · exact absurd h (hfailure stop)
  · rw [hfailure, Option.map_eq_some_iff] at h
    obtain ⟨stop', hexecute, heq⟩ := h
    cases heq
    obtain ⟨a, hpath, hfails⟩ :=
      leadsTo_of_execute settings (c := .row program) hexecute hstop
    exact ⟨a, ⟨program, hprogram, hpath⟩, hfails⟩

/-- Where every access is in range, before and after evaluation, no task addresses a scope that
does not exist. -/
theorem Moment.Fails.ne_noSuchScope {a : Moment} {stop : Stop} (h : a.Fails stop)
    (ha : a.machine.Chained) : stop ≠ .fault .noSuchScope := by
  cases h with
  | get h =>
    rw [ha.inRange.eq_of_get_error h]
    exact nofun
  | assign he h =>
    rw [(ha.of_sameScopes (.of_evaluate he)).inRange.eq_of_assign_error h]
    exact nofun
  | define _ he h =>
    exact absurd h ((ha.of_sameScopes (.of_evaluate he)).inRange.define_ne_error _ _ _)
  | _ => exact nofun

/-- However a unit ends that starts on a machine to which any units have led, only the global
scope is left, it is current, and no scope was addressed that does not exist. At every moment in
between the scopes form one chain that ends in the current scope, so that every access is in
range, and the task of that moment leaves the scopes as it finds them. -/
theorem run_keeps_scopes {m : Machine} (h : m.Reached fun _ => True) (settings : Settings)
    (unit : WorkUnit) :
    (unit.run settings m).machine.AtRest ∧
      (unit.run settings m).failure ≠ some (.stopped (.fault .noSuchScope)) ∧
      ∀ a, unit.Meets settings m a →
        a.machine.Chained ∧ a.machine.InRange ∧
        SameScopes a.machine (a.after settings) ∧ (a.after settings).InRange := by
  have hchained := h.atRest.chained
  refine ⟨(h.run settings trivial).atRest, fun hfailure => ?_, fun a ha => ?_⟩
  · obtain ⟨a, ha, hfails⟩ := unit.exists_meets_of_failure hfailure nofun
    exact hfails.ne_noSuchScope (ha.chained hchained) rfl
  · have hmoment := ha.chained hchained
    have hafter := a.sameScopes_after settings
    exact ⟨hmoment, hmoment.inRange, hafter, (hmoment.of_sameScopes hafter).inRange⟩

/-- Statements that fail inside two blocks leave only the global scope, and at the moment of the
failure there are three. -/
theorem run_keeps_scopes_of_nested_failure :
    let a : Token := ⟨.identifier, utf8 "a", none, 1⟩
    let b : Token := ⟨.identifier, utf8 "b", none, 2⟩
    let word : Token := ⟨.word .print, utf8 "print", none, 2⟩
    let unit := WorkUnit.statements
      [.block [.var a (.literal (some .nil)), .block [.print word (.name b)]]]
    Machine.new.Reached (fun _ => True) ∧
      (unit.run ⟨.info, 1⟩ .new).failure =
        some (.stopped (.error ⟨.undefinedVariable (utf8 "b"), 2⟩)) ∧
      (unit.run ⟨.info, 1⟩ .new).machine.AtRest ∧
      ∃ m, unit.Meets ⟨.info, 1⟩ .new ⟨.evaluate (.name b), m⟩ ∧ m.arena.depth = 3 ∧
        m.Chained := by
  intro a b word unit
  have hreached : Machine.new.Reached fun _ => True := .new
  obtain ⟨hrest, -, hmoments⟩ := run_keeps_scopes hreached ⟨.info, 1⟩ unit
  have hmeets : unit.Meets ⟨.info, 1⟩ .new ⟨.evaluate (.name b), ⟨⟨[⟨[], -1⟩,
      ⟨[(utf8 "a", some .nil)], 0⟩, ⟨[], 1⟩]⟩, 2⟩⟩ :=
    ⟨_, rfl, .head .first (.head .block (.head (.next rfl) (.head .first (.head .block
      (.head .first (.head (.subject (.print word (.name b))) .refl))))))⟩
  exact ⟨hreached, rfl, hrest, _, hmeets, rfl, (hmoments _ hmeets).1⟩

end Lox
