import Lox.Proofs.Tree
import Lox.Session

/-!
# Runs

Statements in two parts are carried out one part after the other. Loops are cut off after a
bounded count of rounds, and a run that no bound has cut off does not depend on it: with more
rounds it is the same run.
-/

namespace Lox

/-- A value is no error and stays as it is. -/
theorem mapError_ok {α β γ : Type} (f : α → β) (v : γ) : (Except.ok v).mapError f = .ok v := rfl

/-- An error is replaced. -/
theorem mapError_error {α β γ : Type} (f : α → β) (e : α) :
    (Except.error e : Except α γ).mapError f = .error (f e) := rfl

/-- The printed lines of effects in two parts. -/
theorem Effect.printed_append (a b : List Effect) :
    Effect.printed (a ++ b) = Effect.printed a ++ Effect.printed b :=
  List.filterMap_append

/-- Logging prints nothing. -/
theorem Effect.printed_log (settings : Settings) (entry : LogEntry) :
    Effect.printed (settings.log entry) = [] := by
  unfold Settings.log
  split <;> rfl

/-- A unit of statements prints what carrying them out prints. -/
theorem Machine.printed_interpret (settings : Settings) (program : List Stmt) (m : Machine) :
    (m.interpret settings program).printed =
      Effect.printed (executeAll settings program m).effects := by
  have habort (stop : Option Stop) : Effect.printed (abortEntry settings stop) = [] := by
    unfold abortEntry
    split
    · exact Effect.printed_log _ _
    · rfl
  simp only [interpret, Outcome.printed, Effect.printed_append, Effect.printed_log, habort,
    List.nil_append, List.append_nil]

/-- A run of three parts is grouped in either way. -/
theorem Ran.andThen_assoc (r : Ran) (next next' : Machine → Ran) :
    (r.andThen next).andThen next' = r.andThen fun m => (next m).andThen next' := by
  obtain ⟨stop, m, effects⟩ := r
  cases stop with
  | some => rfl
  | none =>
    simp only [Ran.andThen]
    obtain ⟨stop, m', effects'⟩ := next m
    cases stop with
    | some => rfl
    | none => simp only [List.append_assoc]

/-- Statements in two parts are carried out one part after the other. -/
theorem executeAll_append (settings : Settings) (program program' : List Stmt) (m : Machine) :
    executeAll settings (program ++ program') m =
      (executeAll settings program m).andThen (executeAll settings program') := by
  induction program generalizing m with
  | nil => rfl
  | cons s rest ih => simp only [List.cons_append, executeAll, Ran.andThen_assoc, ih]

/-- Code is carried out. -/
def Code.execute (settings : Settings) : Code → Machine → Ran
  | statement s, m => s.execute settings m
  | row body, m => executeAll settings body m

/-- A run that was not cut off. -/
def Ran.Finished (r : Ran) : Prop := r.stop ≠ some .unfinished

/-- What one program makes of a machine, the other makes of it too, unless it was cut off. -/
def Extends (body body' : Machine → Ran) : Prop := ∀ m, (body m).Finished → body' m = body m

/-- A run that did not stop was not cut off. -/
theorem Ran.finished_of_stop_eq_none {r : Ran} (h : r.stop = none) : r.Finished := by
  intro hstop
  rw [h] at hstop
  cases hstop

/-- A run in two parts was not cut off if neither part was that had its turn. -/
theorem Ran.finished_andThen_iff {r : Ran} {next : Machine → Ran} :
    (r.andThen next).Finished ↔ r.Finished ∧ (r.stop = none → (next r.machine).Finished) := by
  obtain ⟨stop, m, effects⟩ := r
  cases stop with
  | some stop => exact ⟨fun h => ⟨h, nofun⟩, And.left⟩
  | none => exact ⟨fun h => ⟨nofun, fun _ => h⟩, fun h => h.2 rfl⟩

/-- A run in two parts is extended if both parts are. -/
theorem Ran.andThen_extends {r r' : Ran} {next next' : Machine → Ran} (hr : r.Finished → r' = r)
    (hnext : Extends next next') (h : (r.andThen next).Finished) :
    r'.andThen next' = r.andThen next := by
  cases hstop : r.stop with
  | some stop =>
    have hthen : r.andThen next = r := by simp only [Ran.andThen, hstop]
    rw [hthen] at h
    rw [hr h]
    simp only [Ran.andThen, hstop]
  | none =>
    have hfinished := Ran.finished_of_stop_eq_none hstop
    have hafter : (next r.machine).Finished := by
      simpa only [Finished, Ran.andThen, hstop] using h
    rw [hr hfinished]
    simp only [Ran.andThen, hstop, hnext _ hafter]

/-- More rounds of an extended body extend a loop. -/
theorem repeatWhile_extends {condition : Expr} {body body' : Machine → Ran} {n n' : Nat}
    (hbody : Extends body body') (hn : n ≤ n') :
    Extends (repeatWhile condition body n) (repeatWhile condition body' n') := by
  induction n generalizing n' with
  | zero =>
    intro m h
    exact absurd rfl h
  | succ n ih =>
    intro m h
    obtain ⟨n', rfl⟩ : ∃ k, n' = k + 1 := ⟨n' - 1, by omega⟩
    have hrest := ih (Nat.le_of_succ_le_succ hn)
    unfold repeatWhile at h ⊢
    split
    · rfl
    · next v m' heval =>
      rw [heval] at h
      dsimp only at h
      split
      · next hv =>
        rw [if_pos hv] at h
        exact Ran.andThen_extends (hbody m') hrest h
      · rfl

/-- A body in a scope of its own is extended if it is extended by itself. -/
theorem inScope_extends {level : LogLevel} {n n' : Nat} {body body' : Machine → Ran}
    (hbody : Extends body body') :
    Extends (inScope ⟨level, n⟩ body) (inScope ⟨level, n'⟩ body') := by
  intro m h
  have hinner := hbody _ h
  simp only [inScope, hinner]
  rfl

/-- Code that was not cut off does the same with more rounds. -/
theorem Code.execute_extends (level : LogLevel) {n n' : Nat} (hn : n ≤ n') (c : Code) :
    Extends (c.execute ⟨level, n⟩) (c.execute ⟨level, n'⟩) := by
  induction c with
  | absent | classDecl | expression | functionDecl | print | returning | var => exact fun _ _ => rfl
  | block body ih => exact inScope_extends ih
  | conditional keyword condition thenBranch elseBranch iht ihe =>
    intro m h
    simp only [execute, Stmt.execute] at iht ihe h ⊢
    split
    · rfl
    · next v m' heval =>
      rw [heval] at h
      dsimp only at h
      split
      · next hv =>
        rw [if_pos hv] at h
        exact iht m' h
      · next hv =>
        rw [if_neg hv] at h
        split
        · next hp =>
          rw [if_pos hp] at h
          exact ihe m' h
        · rfl
  | loop keyword condition body ih => exact repeatWhile_extends ih hn
  | nil => exact fun _ _ => rfl
  | cons s rest ihs ihr => exact fun m h => Ran.andThen_extends (ihs m) ihr h

/-- Statements that were not cut off do the same with more rounds. -/
theorem executeAll_extends (level : LogLevel) {n n' : Nat} (hn : n ≤ n') (program : List Stmt) :
    Extends (executeAll ⟨level, n⟩ program) (executeAll ⟨level, n'⟩ program) :=
  Code.execute_extends level hn (.row program)

/-- Two runs of statements that were not cut off are the same, whatever their bounds. -/
theorem executeAll_eq_of_finished {level : LogLevel} {n n' : Nat} {program : List Stmt}
    {m : Machine} (h : (executeAll ⟨level, n⟩ program m).Finished)
    (h' : (executeAll ⟨level, n'⟩ program m).Finished) :
    executeAll ⟨level, n⟩ program m = executeAll ⟨level, n'⟩ program m := by
  rcases Nat.le_total n n' with hn | hn
  · exact (executeAll_extends level hn program m h).symm
  · exact executeAll_extends level hn program m h'

end Lox
