import Mathlib.Data.List.Forall2
import Mathlib.Data.List.Infix
import Lox.Proofs.Moments

/-!
# The log only observes

A run logs at the level of its settings and does nothing else by it. At every level it is the run
at the most detailed level without the entries that the log of that level drops. At the most
detailed level the entries about scopes are brackets: each scope that is opened is left again,
whatever ends the unit, and the depths that the two entries tell are those of the arena. The entry
about a runtime error closes the log of its unit.
-/

namespace Lox

/-- Whether a log of a level leaves an effect in place: only entries can be dropped. -/
def LogLevel.leaves (level : LogLevel) : Effect → Bool
  | .print _ => true
  | .log entry => level.keeps entry.level

/-- The most detailed log keeps every entry. -/
theorem LogLevel.keeps_trace (entry : LogLevel) : LogLevel.trace.keeps entry = true := by
  cases entry <;> rfl

/-- At the most detailed level every entry is logged. -/
theorem Settings.log_trace (rounds : Nat) (entry : LogEntry) :
    (⟨.trace, rounds⟩ : Settings).log entry = [.log entry] := by
  rw [Settings.log, if_pos (LogLevel.keeps_trace _)]

/-- At any level an entry is logged as at the most detailed one, unless it is dropped. -/
theorem Settings.log_eq_filter (level : LogLevel) (rounds : Nat) (entry : LogEntry) :
    (⟨level, rounds⟩ : Settings).log entry =
      ((⟨.trace, rounds⟩ : Settings).log entry).filter level.leaves := by
  rw [Settings.log_trace, Settings.log, List.filter_singleton, cond_eq_ite]
  rfl

/-- Dropping entries leaves the printed lines. -/
theorem Effect.printed_filter (level : LogLevel) (effects : List Effect) :
    Effect.printed (effects.filter level.leaves) = Effect.printed effects := by
  rw [Effect.printed, List.filterMap_filter]
  refine List.filterMap_congr fun e _ => ?_
  cases e with
  | print line => rfl
  | log entry => exact ite_self none

/-- The entries that are left are those that the log keeps. -/
theorem Effect.logged_filter (level : LogLevel) (effects : List Effect) :
    Effect.logged (effects.filter level.leaves) =
      (Effect.logged effects).filter fun entry => level.keeps entry.level := by
  rw [Effect.logged, List.filterMap_filter, Effect.logged, List.filter_filterMap]
  refine List.filterMap_congr fun e _ => ?_
  cases e with
  | print line => rfl
  | log entry =>
    simp only [LogLevel.leaves, Option.filter_some]
    rfl

/-- The log entries of effects in two parts. -/
theorem Effect.logged_append (a b : List Effect) :
    Effect.logged (a ++ b) = Effect.logged a ++ Effect.logged b :=
  List.filterMap_append

/-- The run without the entries that a log of a level drops. -/
def Ran.quieted (level : LogLevel) (r : Ran) : Ran :=
  { r with effects := r.effects.filter level.leaves }

section Quieted

variable {level : LogLevel} {rounds : Nat}

/-- A run in two parts is without its entries if both parts are. -/
theorem Ran.andThen_quieted (r : Ran) {next next' : Machine → Ran}
    (h : ∀ m, next' m = (next m).quieted level) :
    (r.quieted level).andThen next' = (r.andThen next).quieted level := by
  obtain ⟨stop, m, effects⟩ := r
  cases stop with
  | some stop => rfl
  | none => simp only [Ran.andThen, Ran.quieted, h, List.filter_append]

/-- A body in a scope of its own is without its entries if it is by itself. -/
theorem inScope_quieted {body body' : Machine → Ran} (h : ∀ m, body' m = (body m).quieted level)
    (m : Machine) :
    inScope ⟨level, rounds⟩ body' m = (inScope ⟨.trace, rounds⟩ body m).quieted level := by
  simp only [inScope, h, Ran.quieted, List.filter_append,
    Settings.log_eq_filter level rounds (.enterScope _),
    Settings.log_eq_filter level rounds (.leaveScope _)]

/-- A loop is without its entries if its body is. -/
theorem repeatWhile_quieted (condition : Expr) {body body' : Machine → Ran}
    (h : ∀ m, body' m = (body m).quieted level) (n : Nat) (m : Machine) :
    repeatWhile condition body' n m = (repeatWhile condition body n m).quieted level := by
  induction n generalizing m with
  | zero => rfl
  | succ n ih =>
    simp only [repeatWhile]
    obtain ⟨result, m⟩ := m.evaluate condition
    cases result with
    | error stop => rfl
    | ok v =>
      dsimp only
      split
      · rw [h]
        exact Ran.andThen_quieted (body m) ih
      · rfl

/-- Code is carried out at every level as at the most detailed one, without the entries that are
dropped. -/
theorem Code.execute_quieted (c : Code) (m : Machine) :
    c.execute ⟨level, rounds⟩ m = (c.execute ⟨.trace, rounds⟩ m).quieted level := by
  induction c generalizing m with
  | absent | classDecl | functionDecl | returning | nil => rfl
  | expression e =>
    simp only [Code.execute, Stmt.execute]
    obtain ⟨result, m⟩ := m.evaluate e
    cases result <;> rfl
  | print keyword e =>
    simp only [Code.execute, Stmt.execute]
    obtain ⟨result, m⟩ := m.evaluate e
    cases result with
    | error stop => rfl
    | ok v => cases v <;> rfl
  | var n e =>
    simp only [Code.execute, Stmt.execute]
    obtain ⟨result, m'⟩ := m.evaluate e
    split
    · cases result with
      | error stop => rfl
      | ok v =>
        simp only [Machine.define]
        split <;> rfl
    · rfl
  | block body ih => exact inScope_quieted ih m
  | conditional keyword condition thenBranch elseBranch iht ihe =>
    simp only [Code.execute] at iht ihe
    simp only [Code.execute, Stmt.execute]
    obtain ⟨result, m⟩ := m.evaluate condition
    cases result with
    | error stop => rfl
    | ok v =>
      simp only [iht, ihe]
      split
      · rfl
      · split <;> rfl
  | loop keyword condition body ih => exact repeatWhile_quieted condition ih rounds m
  | cons s rest ihs ihr =>
    have hfirst := ihs m
    simp only [Code.execute] at hfirst ihr
    simp only [Code.execute, executeAll, hfirst]
    exact Ran.andThen_quieted (s.execute ⟨.trace, rounds⟩ m) ihr

/-- The outcome without the entries that a log of a level drops. -/
def Outcome.quieted (level : LogLevel) (o : Outcome) : Outcome :=
  { o with effects := o.effects.filter level.leaves }

/-- The entry about a runtime error is logged as at the most detailed level, unless it is
dropped. -/
theorem Machine.abortEntry_eq_filter (stop : Option Stop) :
    abortEntry ⟨level, rounds⟩ stop =
      (abortEntry ⟨.trace, rounds⟩ stop).filter level.leaves := by
  unfold abortEntry
  split
  · exact Settings.log_eq_filter level rounds _
  · rfl

/-- A unit of statements does at every level what it does at the most detailed one. -/
theorem Machine.interpret_quieted (program : List Stmt) (m : Machine) :
    m.interpret ⟨level, rounds⟩ program = (m.interpret ⟨.trace, rounds⟩ program).quieted level := by
  have hrun : executeAll ⟨level, rounds⟩ program m =
      (executeAll ⟨.trace, rounds⟩ program m).quieted level :=
    Code.execute_quieted (.row program) m
  simp only [Machine.interpret, hrun, Outcome.quieted, List.filter_append,
    Settings.log_eq_filter level rounds (.interpreting _)]
  rw [← Machine.abortEntry_eq_filter]
  rfl

/-- A source does at every level what it does at the most detailed one. -/
theorem Machine.run_quieted (source : Text) (m : Machine) :
    m.run ⟨level, rounds⟩ source = (m.run ⟨.trace, rounds⟩ source).quieted level := by
  unfold Machine.run
  split
  · rw [Settings.log_eq_filter]
    rfl
  · dsimp only
    split
    · rw [Settings.log_eq_filter, Settings.log_eq_filter level rounds (.parseFailed _),
        Outcome.quieted, List.filter_append]
    · rw [Machine.interpret_quieted, Settings.log_eq_filter,
        Settings.log_eq_filter level rounds (.parsed _)]
      simp only [Outcome.after, Outcome.quieted, List.filter_append]

/-- Every unit does at every level what it does at the most detailed one. -/
theorem WorkUnit.run_quieted (level : LogLevel) (unit : WorkUnit) (m : Machine) :
    unit.run ⟨level, rounds⟩ m = (unit.run ⟨.trace, rounds⟩ m).quieted level := by
  cases unit with
  | source text => exact m.run_quieted text
  | statements program => exact m.interpret_quieted program

/-- A session does at every level what it does at the most detailed one. -/
theorem session_quieted (level : LogLevel) (rounds : Nat) (m : Machine) (units : List WorkUnit) :
    session ⟨level, rounds⟩ m units =
      (session ⟨.trace, rounds⟩ m units).map (Outcome.quieted level) := by
  induction units generalizing m with
  | nil => rfl
  | cons unit rest ih =>
    simp only [session, unit.run_quieted level, List.map_cons, ih]
    rfl

end Quieted

/-- Two outcomes of one unit that differ in the log at most. -/
structure Outcome.SameButLog (o o' : Outcome) : Prop where
  /-- Both succeed, or both fail for the same reason. -/
  failure_eq : o.failure = o'.failure
  /-- The machine is the same, with its scopes and the current one. -/
  machine_eq : o.machine = o'.machine
  /-- The same lines are printed. -/
  printed_eq : o.printed = o'.printed

/-- Outcomes without dropped entries differ in the log at most. -/
theorem Outcome.sameButLog_quieted (level level' : LogLevel) (o : Outcome) :
    Outcome.SameButLog (o.quieted level) (o.quieted level') :=
  ⟨rfl, rfl, (Effect.printed_filter level o.effects).trans
    (Effect.printed_filter level' o.effects).symm⟩

/-- Whether an entry is about a scope that is opened or left. -/
def LogEntry.isScope : LogEntry → Bool
  | enterScope _ | leaveScope _ => true
  | _ => false

/-- Whether an entry is about a phase of a unit: scanning, parsing or the start of a run. -/
def LogEntry.isPhase : LogEntry → Bool
  | scanFailed _ | scanned _ | parseFailed _ | parsed _ | interpreting _ => true
  | _ => false

/-- An entry about a phase is neither about a scope nor about a runtime error. -/
theorem LogEntry.isScope_of_isPhase {entry : LogEntry} (h : entry.isPhase = true) :
    entry.isScope = false ∧ ∀ error, entry ≠ .aborted error := by
  refine ⟨?_, fun error herror => ?_⟩
  · cases entry with
    | enterScope | leaveScope => cases h
    | _ => rfl
  · subst herror
    cases h

/-- Entries about scopes in brackets, while a count of scopes is open: a scope that is opened on
top of the global one and of those is left again, and in between further scopes are. The entries
tell how many scopes there are after each. -/
inductive Bracketed : Nat → List LogEntry → Prop
  | nil {opened : Nat} : Bracketed opened []
  | scope {opened : Nat} {inner rest : List LogEntry} (hi : Bracketed (opened + 1) inner)
      (hr : Bracketed opened rest) :
      Bracketed opened
        (.enterScope (opened + 2) :: inner ++ .leaveScope (opened + 1) :: rest)

namespace Bracketed

variable {opened : Nat} {entries entries' : List LogEntry}

/-- Brackets in a row are brackets. -/
theorem append (h : Bracketed opened entries) (h' : Bracketed opened entries') :
    Bracketed opened (entries ++ entries') := by
  induction h with
  | nil => exact h'
  | scope hi _ _ ihr =>
    have hscope := Bracketed.scope hi (ihr h')
    simpa only [List.cons_append, List.append_assoc] using hscope

/-- Brackets are entries about scopes. -/
theorem isScope (h : Bracketed opened entries) : ∀ entry ∈ entries, entry.isScope = true := by
  induction h with
  | nil => exact List.forall_mem_nil _
  | scope _ _ ihi ihr =>
    intro entry hentry
    rcases List.mem_append.mp hentry with hentry | hentry
    · rcases List.mem_cons.mp hentry with rfl | hentry
      · rfl
      · exact ihi entry hentry
    · rcases List.mem_cons.mp hentry with rfl | hentry
      · rfl
      · exact ihr entry hentry

end Bracketed

/-- Machines with the same scopes have equally many. -/
theorem Machine.SameScopes.depth_eq {m m' : Machine} (h : Machine.SameScopes m m') :
    m'.arena.depth = m.arena.depth := by
  rw [← Arena.length_parents, h.parents_eq, Arena.length_parents]

/-- A program logs brackets on every machine that has a given count of scopes besides the global
one, and leaves the scopes that it finds. -/
structure Brackets (opened : Nat) (body : Machine → Ran) : Prop where
  /-- The entries are brackets. -/
  bracketed : ∀ m, m.arena.depth = opened + 1 → Bracketed opened (Effect.logged (body m).effects)
  /-- The scopes are left as they are found. -/
  sameScopes : ∀ m, Machine.SameScopes m (body m).machine

namespace Brackets

variable {opened : Nat} {body next : Machine → Ran}

/-- What goes on behind a run logs brackets behind those of the run. -/
theorem andThen {r : Ran} (hr : Bracketed opened (Effect.logged r.effects))
    (hdepth : r.machine.arena.depth = opened + 1) (hnext : Brackets opened next) :
    Bracketed opened (Effect.logged (r.andThen next).effects) := by
  unfold Ran.andThen
  split
  · exact hr
  · rw [Effect.logged_append]
    exact hr.append (hnext.bracketed _ hdepth)

/-- A body in a scope of its own logs the brackets of that scope around its own. -/
theorem inScope (rounds : Nat) (h : Brackets (opened + 1) body) (m : Machine)
    (hm : m.arena.depth = opened + 1) :
    Bracketed opened (Effect.logged (Lox.inScope ⟨.trace, rounds⟩ body m).effects) := by
  have hopened : (m.arena.push m.current).depth = opened + 2 := by
    rw [Arena.depth_push, hm]
  have hclosed : (Lox.inScope ⟨.trace, rounds⟩ body m).machine.arena.depth = opened + 1 :=
    (sameScopes_inScope _ h.sameScopes m).depth_eq.trans hm
  have hbody := h.bracketed ⟨m.arena.push m.current, m.arena.depth⟩ hopened
  simp only [Lox.inScope] at hclosed
  simp only [Lox.inScope, Settings.log_trace, Effect.logged_append, hopened, hclosed]
  exact .scope hbody .nil

/-- A loop logs the brackets of its rounds. -/
theorem repeatWhile (condition : Expr) (h : Brackets opened body) (n : Nat) (m : Machine)
    (hm : m.arena.depth = opened + 1) :
    Bracketed opened (Effect.logged (Lox.repeatWhile condition body n m).effects) := by
  induction n generalizing m with
  | zero => exact .nil
  | succ n ih =>
    unfold Lox.repeatWhile
    split
    · exact .nil
    · next v m' heval =>
      have hm' : m'.arena.depth = opened + 1 :=
        (Machine.SameScopes.of_evaluate heval).depth_eq.trans hm
      split
      · refine andThen (h.bracketed m' hm') ((h.sameScopes m').depth_eq.trans hm') ⟨ih, ?_⟩
        exact sameScopes_repeatWhile condition h.sameScopes n
      · exact .nil

end Brackets

/-- Code logs brackets, however it ends. -/
theorem Code.brackets_execute (rounds opened : Nat) (c : Code) :
    Brackets opened (c.execute ⟨.trace, rounds⟩) := by
  induction c generalizing opened with
  | block body ih => exact ⟨fun m => (ih (opened + 1)).inScope rounds m, sameScopes_execute _ _⟩
  | loop keyword condition body ih =>
    exact ⟨fun m => (ih opened).repeatWhile condition rounds m, sameScopes_execute _ _⟩
  | cons s rest ihs ihr =>
    refine ⟨fun m hm => ?_, sameScopes_execute _ _⟩
    have hdepth : (s.execute ⟨.trace, rounds⟩ m).machine.arena.depth = opened + 1 :=
      ((ihs opened).sameScopes m).depth_eq.trans hm
    exact Brackets.andThen ((ihs opened).bracketed m hm) hdepth (ihr opened)
  | conditional keyword condition thenBranch elseBranch iht ihe =>
    refine ⟨fun m hm => ?_, sameScopes_execute _ _⟩
    simp only [Code.execute, Stmt.execute]
    split
    · exact .nil
    · next v m' heval =>
      have hm' : m'.arena.depth = opened + 1 :=
        (Machine.SameScopes.of_evaluate heval).depth_eq.trans hm
      split
      · exact (iht opened).bracketed m' hm'
      · split
        · exact (ihe opened).bracketed m' hm'
        · exact .nil
  | absent | classDecl | functionDecl | returning | nil =>
    exact ⟨fun _ _ => .nil, sameScopes_execute _ _⟩
  | expression e =>
    refine ⟨fun m _ => ?_, sameScopes_execute _ _⟩
    simp only [Code.execute, Stmt.execute]
    split <;> exact .nil
  | print keyword e =>
    refine ⟨fun m _ => ?_, sameScopes_execute _ _⟩
    simp only [Code.execute, Stmt.execute]
    split <;> exact .nil
  | var n e =>
    refine ⟨fun m _ => ?_, sameScopes_execute _ _⟩
    simp only [Code.execute, Stmt.execute, Machine.define]
    split
    · split
      · exact .nil
      · split <;> exact .nil
    · exact .nil

/-- The log of a unit at the most detailed level. -/
structure Outcome.Traced (o : Outcome) : Prop where
  /-- The entries about scopes are brackets; no scope but the global one is open in front of
  them. -/
  bracketed : Bracketed 0 (o.logged.filter LogEntry.isScope)
  /-- Only the last entry can be about a runtime error. -/
  aborted_last : ∀ error, .aborted error ∉ o.logged.dropLast

/-- A log that has brackets behind entries about phases, and behind them at most an entry about a
runtime error. -/
theorem Outcome.Traced.of_parts {o : Outcome} (front inner back : List LogEntry)
    (hlogged : o.logged = front ++ inner ++ back)
    (hphases : front.all LogEntry.isPhase = true) (hinner : Bracketed 0 inner)
    (hback : back = [] ∨ ∃ error, back = [.aborted error]) : o.Traced := by
  have hfront (entry : LogEntry) (hentry : entry ∈ front) :=
    LogEntry.isScope_of_isPhase (List.all_eq_true.mp hphases entry hentry)
  have hnone : front.filter LogEntry.isScope = [] :=
    List.filter_eq_nil_iff.mpr fun entry hentry => by rw [(hfront entry hentry).1]; decide
  have hall : inner.filter LogEntry.isScope = inner := List.filter_eq_self.mpr hinner.isScope
  have hbefore : ∀ error, LogEntry.aborted error ∉ front ++ inner := by
    intro error hmem
    rcases List.mem_append.mp hmem with hmem | hmem
    · exact (hfront _ hmem).2 error rfl
    · exact Bool.false_ne_true (hinner.isScope _ hmem)
  constructor
  · rw [hlogged, List.filter_append, List.filter_append, hnone, hall, List.nil_append]
    rcases hback with rfl | ⟨error, rfl⟩
    · rwa [List.filter_nil, List.append_nil]
    · have hlast : [LogEntry.aborted error].filter LogEntry.isScope = [] := rfl
      rwa [hlast, List.append_nil]
  · intro error hmem
    rw [hlogged] at hmem
    rcases hback with rfl | ⟨error', rfl⟩
    · rw [List.append_nil] at hmem
      exact hbefore error (List.mem_of_mem_dropLast hmem)
    · rw [List.dropLast_concat] at hmem
      exact hbefore error hmem

/-- The log of a unit of statements is in brackets, behind whatever entries about phases stand in
front of it. -/
theorem Machine.traced_interpret (rounds : Nat) (program : List Stmt) {m : Machine}
    (hm : m.arena.depth = 1) (effects : List Effect)
    (heffects : (Effect.logged effects).all LogEntry.isPhase = true) :
    ((m.interpret ⟨.trace, rounds⟩ program).after effects).Traced := by
  have hback (stop : Option Stop) : Effect.logged (abortEntry ⟨.trace, rounds⟩ stop) = [] ∨
      ∃ error, Effect.logged (abortEntry ⟨.trace, rounds⟩ stop) = [.aborted error] := by
    unfold abortEntry
    split
    · exact .inr ⟨_, by rw [Settings.log_trace]; rfl⟩
    · exact .inl rfl
  have hinner : Bracketed 0 (Effect.logged (executeAll ⟨.trace, rounds⟩ program m).effects) :=
    (Code.brackets_execute rounds 0 (.row program)).bracketed m hm
  have hlogged : ((m.interpret ⟨.trace, rounds⟩ program).after effects).logged =
      (Effect.logged effects ++ [.interpreting program.length]) ++
        Effect.logged (executeAll ⟨.trace, rounds⟩ program m).effects ++
        Effect.logged (abortEntry ⟨.trace, rounds⟩
          (executeAll ⟨.trace, rounds⟩ program m).stop) := by
    simp only [Outcome.logged, Outcome.after, interpret, Settings.log_trace, Effect.logged_append,
      List.append_assoc]
    rfl
  refine .of_parts _ _ _ hlogged ?_ hinner (hback _)
  rw [List.all_append, heffects]
  rfl

/-- The log of every unit that starts with the global scope alone is in brackets. -/
theorem WorkUnit.traced_run (rounds : Nat) (unit : WorkUnit) {m : Machine}
    (hm : m.arena.depth = 1) : (unit.run ⟨.trace, rounds⟩ m).Traced := by
  cases unit with
  | statements program => exact m.traced_interpret rounds program hm [] rfl
  | source text =>
    simp only [WorkUnit.run, Machine.run, Settings.log_trace]
    split
    · next errors _ =>
      exact .of_parts [.scanFailed errors.length] [] [] rfl rfl .nil (.inl rfl)
    · next tokens _ =>
      split
      · next errors _ =>
        exact .of_parts [.scanned tokens.length, .parseFailed errors.length] [] [] rfl rfl .nil
          (.inl rfl)
      · next program _ => exact m.traced_interpret rounds program hm _ rfl

/-- Between the units of a session only the global scope is there, so that every unit of it has
its log in brackets. -/
theorem traced_session (rounds : Nat) {m : Machine} (hm : m.arena.depth = 1)
    (units : List WorkUnit) : ∀ o ∈ session ⟨.trace, rounds⟩ m units, o.Traced := by
  induction units generalizing m with
  | nil => exact List.forall_mem_nil _
  | cons unit rest ih =>
    have hafter : (unit.run ⟨.trace, rounds⟩ m).machine.arena.depth = 1 :=
      (unit.sameScopes_run _ m).depth_eq.trans hm
    exact List.forall_mem_cons.mpr ⟨unit.traced_run rounds hm, ih hafter⟩

/-- The log observes a session and does not change it. At any two levels the units come to the
same, but for their logs; the log at a level holds the entries of the one at the most detailed level
whose rank is at most that of the level. In the latter the entries about scopes are brackets,
whatever ended the unit, and an entry about a runtime error is the last of its unit. -/
theorem log_observes_session (rounds : Nat) (units : List WorkUnit) :
    (∀ level level', List.Forall₂ Outcome.SameButLog (session ⟨level, rounds⟩ .new units)
      (session ⟨level', rounds⟩ .new units)) ∧
    (∀ level, List.Forall₂
      (fun o o' => o.logged = o'.logged.filter fun entry => entry.level.rank ≤ level.rank)
      (session ⟨level, rounds⟩ .new units) (session ⟨.trace, rounds⟩ .new units)) ∧
    ∀ o ∈ session ⟨.trace, rounds⟩ .new units, o.Traced := by
  refine ⟨fun level level' => ?_, fun level => ?_, traced_session rounds rfl units⟩
  · rw [session_quieted level, session_quieted level', List.forall₂_map_left_iff,
      List.forall₂_map_right_iff]
    exact List.forall₂_same.mpr fun o _ => o.sameButLog_quieted level level'
  · rw [session_quieted level, List.forall₂_map_left_iff]
    exact List.forall₂_same.mpr fun o _ => Effect.logged_filter level o.effects

end Lox
