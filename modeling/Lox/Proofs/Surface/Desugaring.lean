import Lox.Proofs.Scopes
import Lox.Proofs.Surface.Widening

/-!
# A `for` means its loop

A `for` in terms of blocks and a loop does what the `for` does by itself. The two differ in a scope
that the last clause brings for every round: it is opened and left again, and in between nothing is
declared in it. The log tells of it; the ending, the printed lines and the machine do not.
-/

namespace Lox

/-- Two runs that differ in the log at most. -/
structure Ran.SameButLog (r r' : Ran) : Prop where
  /-- Both reach the end, or both stop for the same reason. -/
  stop_eq : r.stop = r'.stop
  /-- The machine is the same, with its scopes and the current one. -/
  machine_eq : r.machine = r'.machine
  /-- The same lines are printed. -/
  printed_eq : Effect.printed r.effects = Effect.printed r'.effects

/-- A run that nothing follows is the run. -/
theorem Ran.andThen_idle (r : Ran) : r.andThen Machine.idle = r := by
  obtain ⟨stop, m, effects⟩ := r
  cases stop with
  | some stop => rfl
  | none => simp only [Ran.andThen, Machine.idle, List.append_nil]

namespace Surface

open Machine (SameScopes)

/-- Two programs come to the same on every machine whose scopes form a chain, but for the log. -/
def Agree (body body' : Machine → Ran) : Prop := ∀ m, m.Chained → (body m).SameButLog (body' m)

namespace Agree

variable {body body' body'' next next' : Machine → Ran}

/-- A program comes to what it comes to. -/
theorem refl (body : Machine → Ran) : Agree body body := fun _ _ => ⟨rfl, rfl, rfl⟩

/-- Programs that come to the same as a third come to the same. -/
theorem trans (h : Agree body body') (h' : Agree body' body'') : Agree body body'' := by
  intro m hm
  obtain ⟨hstop, hmachine, hprinted⟩ := h m hm
  obtain ⟨hstop', hmachine', hprinted'⟩ := h' m hm
  exact ⟨hstop.trans hstop', hmachine.trans hmachine', hprinted.trans hprinted'⟩

/-- What follows a value comes to the same if it does behind each. -/
theorem valued (e : Expr) {next next' : Option Value → Machine → Ran}
    (h : ∀ v, Agree (next v) (next' v)) :
    Agree (fun m => m.valued e next) fun m => m.valued e next' := by
  intro m hm
  obtain ⟨result, m', heval⟩ : ∃ result m', m.evaluate e = (result, m') := ⟨_, _, rfl⟩
  have hm' := hm.of_sameScopes (.of_evaluate heval)
  simp only [Machine.valued, heval]
  cases result with
  | error stop => exact ⟨rfl, rfl, rfl⟩
  | ok v => exact h v m' hm'

/-- What follows a condition comes to the same if it does in both cases. -/
theorem branch (c : Expr) (hyes : Agree body body') (hno : Agree next next') :
    Agree (fun m => m.branch c body next) fun m => m.branch c body' next' := by
  refine valued c fun v m hm => ?_
  split
  · exact hyes m hm
  · exact hno m hm

/-- What is carried out in two parts comes to the same if both parts do and the first leaves the
scopes. -/
theorem andThen (h : Agree body body') (hscopes : ∀ m, SameScopes m (body m).machine)
    (hnext : Agree next next') :
    Agree (fun m => (body m).andThen next) fun m => (body' m).andThen next' := by
  intro m hm
  obtain ⟨hstop, hmachine, hprinted⟩ := h m hm
  simp only [Ran.andThen, ← hstop]
  split
  · exact ⟨hstop, hmachine, hprinted⟩
  · obtain ⟨hstop', hmachine', hprinted'⟩ := hnext _ (hm.of_sameScopes (hscopes m))
    rw [← hmachine]
    refine ⟨hstop', hmachine', ?_⟩
    rw [Effect.printed_append, Effect.printed_append, hprinted, hprinted']

/-- What has a scope of its own comes to the same if it does by itself. -/
theorem inScope (settings : Settings) (h : Agree body body') :
    Agree (Lox.inScope settings body) (Lox.inScope settings body') := by
  intro m hm
  obtain ⟨hstop, hmachine, hprinted⟩ := h _ hm.push
  refine ⟨hstop, by simp only [Lox.inScope, hmachine], ?_⟩
  simp only [Lox.inScope, Effect.printed_append, Effect.printed_log, hprinted]

/-- A loop comes to the same if its body does and leaves the scopes. -/
theorem repeatWhile (c : Expr) (h : Agree body body')
    (hscopes : ∀ m, SameScopes m (body m).machine) (rounds : Nat) :
    Agree (Lox.repeatWhile c body rounds) (Lox.repeatWhile c body' rounds) := by
  induction rounds with
  | zero => exact refl _
  | succ rounds ih => exact branch c (h.andThen hscopes ih) (refl Machine.idle)

end Agree

/-- A scope of its own makes no difference to what does not declare. -/
theorem Widening.agree_inScope {body : Machine → Ran} (h : Widening 0 body) (settings : Settings) :
    Agree (Lox.inScope settings body) body := by
  intro m hm
  obtain ⟨f, rfl⟩ := hm.exists_frames
  obtain ⟨hstop, hprinted, f', g', hf, hg, hindex, hw⟩ := h f _ (.here f)
  cases hw
  obtain ⟨hstop', hprinted', hmachine⟩ := inScope_frames settings hg hindex
  exact ⟨hstop'.trans hstop, hmachine.trans hf.symm, hprinted'.trans hprinted⟩

section For

variable {settings : Settings} {s : Stmt} {body : Machine → Ran}

/-- A statement leaves the scopes. -/
theorem sameScopes_statement (settings : Settings) (s : Stmt) (m : Machine) :
    SameScopes m (s.execute settings m).machine :=
  Code.sameScopes_execute settings (.statement s) m

/-- One statement in a row is carried out as by itself. -/
theorem executeAll_singleton (settings : Settings) (s : Stmt) :
    executeAll settings [s] = s.execute settings :=
  funext fun m => (s.execute settings m).andThen_idle

/-- A round of the loop of a `for` comes to the body and the last clause: the scope that the two
share in the round is empty throughout. -/
theorem agree_round (h : Agree (s.execute settings) body) (hw : Widening 0 body)
    (step : Option Expr) :
    Agree ((Grammar.round s step).execute settings) fun m => (body m).andThen (advance step) := by
  cases step with
  | none =>
    have hidle : (fun m => (body m).andThen (advance none)) = body :=
      funext fun m => (body m).andThen_idle
    rw [hidle]
    exact h
  | some e =>
    have hrow : Agree (executeAll settings [s, .expression e])
        fun m => (body m).andThen (advance (some e)) := by
      refine h.andThen (sameScopes_statement settings s) ?_
      rw [executeAll_singleton]
      exact .refl _
    exact (hrow.inScope settings).trans ((hw.andThen (.advance (some e))).agree_inScope settings)

/-- The loop of a `for` comes to its rounds. -/
theorem agree_loop (h : Agree (s.execute settings) body) (hw : Widening 0 body) (k : Token)
    (condition step : Option Expr) :
    Agree ((Stmt.loop k (condition.getD holding) (Grammar.round s step)).execute settings)
      (forRounds condition step body settings.rounds) := by
  rw [forRounds_eq_repeatWhile]
  exact (agree_round h hw step).repeatWhile _ (sameScopes_statement settings _) settings.rounds

/-- A `for` in terms of blocks and a loop comes to the `for` by itself. -/
theorem agree_for (h : Agree (s.execute settings) body) (hw : Widening 0 body)
    (k : Token) (init : Option Opening) (condition step : Option Expr) :
    Agree (((ForClauses.mk k (init.map Opening.statement) condition step).desugar s).execute
      settings) (executeFor settings init condition step body) := by
  rw [Grammar.desugar_eq_forTree]
  cases init with
  | none => exact agree_loop h hw k condition step
  | some first =>
    refine Agree.inScope settings ((Agree.refl (first.statement.execute settings)).andThen
      (sameScopes_statement settings _) ?_)
    rw [executeAll_singleton]
    exact agree_loop h hw k condition step

end For

/-- A conditional without alternative branches to nothing. -/
theorem execute_ifThen (settings : Settings) (k : Token) (c : Expr) (s : Stmt) :
    (Stmt.conditional k c s .absent).execute settings =
      fun m => m.branch c (s.execute settings) Machine.idle := rfl

/-- A conditional with an alternative branches to it. -/
theorem execute_ifElse (settings : Settings) (k : Token) (c : Expr) (s : Stmt) {t : Stmt}
    (ht : t.isPresent = true) :
    (Stmt.conditional k c s t).execute settings =
      fun m => m.branch c (s.execute settings) (t.execute settings) := by
  funext m
  simp only [Stmt.execute, ht, if_true]
  rfl

/-- Every statement is put in terms of one that is there. -/
theorem Statement.isPresent_desugar (s : Statement) : s.desugar.isPresent = true := by
  cases s with
  | forLoop k init c step s => cases init <;> rfl
  | _ => rfl

mutual

/-- A statement in terms of blocks and loops does what it does as it is written. -/
theorem Statement.agree (settings : Settings) : (s : Statement) →
    Agree (s.desugar.execute settings) (s.execute settings)
  | .expression _ => .refl _
  | .print _ _ => .refl _
  | .block body => (body.agree settings).inScope settings
  | .ifThen k c s => by
    rw [Statement.desugar, execute_ifThen]
    exact (s.agree settings).branch c (.refl _)
  | .ifElse k c s t => by
    rw [Statement.desugar, execute_ifElse settings k c _ t.isPresent_desugar]
    exact (s.agree settings).branch c (t.agree settings)
  | .whileLoop _ c s =>
    (s.agree settings).repeatWhile c (sameScopes_statement settings _) settings.rounds
  | .forLoop k init c step s => agree_for (s.agree settings) (s.widening settings 0) k init c step

/-- A row in terms of blocks and loops does what it does as it is written. -/
theorem Row.agree (settings : Settings) : (row : Row) →
    Agree (executeAll settings row.desugar) (row.execute settings)
  | .nil => .refl _
  | .var _ _ rest => (Agree.refl _).andThen (sameScopes_statement settings _) (rest.agree settings)
  | .statement s rest =>
    (s.agree settings).andThen (sameScopes_statement settings _) (rest.agree settings)

end

/-- A `for` means what it is put in terms of. Every stream that is read as a program spells a row
with its `for`s, the program is that row with every `for` put in terms of blocks and loops, and
carrying out the program comes to carrying out the row as it is written. Every `for` of a row,
whatever its clauses and its body are, comes to the same in both ways on every machine whose scopes
form a chain: the same ending, the same printed lines and the same machine. -/
theorem for_desugaring_preserves_meaning :
    (∀ (ts : List Token) (program : List Stmt), parse ts = .ok program →
      ∃ row : Row, row.Spelled (beforeEnd ts) ∧ row.desugar = program ∧
        ∀ (settings : Settings) (m : Machine), m.Chained →
          (executeAll settings program m).SameButLog (row.execute settings m)) ∧
    ∀ (k : Token) (init : Option Opening) (condition step : Option Expr) (body : Statement)
      (settings : Settings) (m : Machine), m.Chained →
        ((Statement.forLoop k init condition step body).desugar.execute settings m).SameButLog
          (executeFor settings init condition step (body.execute settings) m) := by
  constructor
  · intro ts program h
    obtain ⟨row, hspelled, rfl⟩ := exists_row_of_parse h
    exact ⟨row, hspelled, rfl, fun settings => row.agree settings⟩
  · intro k init condition step body settings
    exact (Statement.forLoop k init condition step body).agree settings

/-- A `for` that declares its variable, tests it and assigns to it prints once and leaves no scope;
one without end whose body fails stops there, in the current scope. -/
theorem for_desugaring_preserves_meaning_of_one_round :
    let settings : Settings := ⟨.warning, 2⟩
    let x : Token := ⟨.identifier, utf8 "x", none, 1⟩
    (∃ tokens, scan (utf8 "for (var i = \"a\"; i; i = nil) print i;") = .ok tokens ∧
      ∃ row : Row, row.Spelled (beforeEnd tokens) ∧
        Effect.printed (row.execute settings .new).effects = [utf8 "a"] ∧
        (row.execute settings .new).machine = .new) ∧
    (executeFor settings none none (some (.name x)) ((Statement.print x (.name x)).execute settings)
      .new).stop = some (.error ⟨.undefinedVariable (utf8 "x"), 1⟩) := by
  intro settings x
  have hnew : Machine.new.Chained :=
    ((Machine.atRest_iff .new).mpr (.refl .new)).chained
  obtain ⟨hprogram, hfor⟩ := for_desugaring_preserves_meaning
  constructor
  · obtain ⟨tokens, program, hscan, hparse, hlines, hafter⟩ :
        ∃ tokens program, scan (utf8 "for (var i = \"a\"; i; i = nil) print i;") = .ok tokens ∧
          parse tokens = .ok program ∧
          Effect.printed (executeAll settings program .new).effects = [utf8 "a"] ∧
          (executeAll settings program .new).machine = .new :=
      ⟨_, _, rfl, rfl, by decide +kernel, by decide +kernel⟩
    obtain ⟨row, hspelled, -, hagree⟩ := hprogram tokens program hparse
    obtain ⟨-, hmachine, hprinted⟩ := hagree settings .new hnew
    exact ⟨tokens, hscan, row, hspelled, hprinted ▸ hlines, hmachine ▸ hafter⟩
  · rw [← (hfor x none none (some (.name x)) (.print x (.name x)) settings .new hnew).stop_eq]
    rfl

end Surface

end Lox
