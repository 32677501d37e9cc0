import Mathlib.Data.List.Induction
import Lox.Proofs.Execution
import Lox.Proofs.Semantics.Frames

/-!
# Scopes on every way out

Carrying out code opens scopes and releases them, and assigns to names in those that are there.
However it ends, at its end, by an error, by a fault or cut off, the scopes have the parents they
had before and the current scope is the one from before. This holds on any machine. On a machine
whose scopes form one chain that ends in the current scope, no name is looked up, assigned to or
bound outside the arena, and none is looked for without end.
-/

namespace Lox

/-- The parents of an arena's scopes in the order of their indices. -/
def Arena.parents (a : Arena) : List Int := a.scopes.map Scope.parent

/-- There is one parent for each scope. -/
theorem Arena.length_parents (a : Arena) : a.parents.length = a.depth := List.length_map _

/-- Binding a name leaves the parents. -/
theorem Arena.parents_bind (a : Arena) (index : Nat) (name : Text) (value : Option Value) :
    (a.bind index name value).parents = a.parents := by
  apply List.ext_getElem?
  intro i
  simp only [parents, bind, List.getElem?_map, List.getElem?_modify]
  cases a.scopes[i]? with
  | none => rfl
  | some s =>
    by_cases hi : index = i
    · simp only [hi, if_true, Option.map_eq_map, Option.map_some]
    · simp only [hi, if_false, Option.map_eq_map, Option.map_some]

/-- A new scope adds its parent. -/
theorem Arena.parents_push (a : Arena) (parent : Int) :
    (a.push parent).parents = a.parents ++ [parent] := by
  simp only [parents, push, List.map_append, List.map_cons, List.map_nil]

/-- Releasing scopes drops their parents. -/
theorem Arena.parents_pop (a : Arena) (index : Nat) :
    (a.pop index).parents = a.parents.take index := by
  simp only [parents, pop, List.map_take]

/-- Assigning to a name leaves the parents. -/
theorem Arena.parents_assign {a a' : Arena} {index : Int} {n : Token} {value : Option Value}
    (h : a.assign index n value = .ok a') : a'.parents = a.parents := by
  unfold assign at h
  split at h
  · cases h
    exact a.parents_bind _ _ _
  all_goals cases h

/-- Binding a name in a scope that has to exist leaves the parents. -/
theorem Arena.parents_define {a a' : Arena} {index : Int} {name : Text} {value : Option Value}
    (h : a.define index name value = .ok a') : a'.parents = a.parents := by
  unfold define at h
  split at h
  · cases h
    exact a.parents_bind _ _ _
  · cases h

/-- Evaluation leaves the parents, whatever it comes to. -/
theorem Expr.parents_evaluate (scope : Int) (e : Expr) (a : Arena) :
    (e.evaluate scope a).2.parents = a.parents := by
  have happlied (a : Arena) (r : Except RuntimeError Value) :
      (Evaluated.ofApplied a r).2 = a := by cases r <;> rfl
  induction e generalizing a with
  | absent | literal | name | call | get | set | super | receiver => rfl
  | grouping inner ih => exact ih a
  | assign n value ih =>
    have hvalue := ih a
    simp only [evaluate]
    split
    · next heval => rwa [heval] at hvalue
    · next v a' heval =>
      rw [heval] at hvalue
      split
      · next hassign => exact (Arena.parents_assign hassign).trans hvalue
      · exact hvalue
  | logical left op right ihl ihr =>
    have hleft := ihl a
    simp only [evaluate]
    split
    · next heval => rwa [heval] at hleft
    · next v a' heval =>
      rw [heval] at hleft
      split
      · exact hleft
      · exact (ihr a').trans hleft
  | unary op right ih =>
    have hright := ih a
    simp only [evaluate]
    split
    · next heval => rwa [heval] at hright
    · next v a' heval =>
      rw [heval] at hright
      rw [happlied]
      exact hright
  | binary left op right ihl ihr =>
    have hleft := ihl a
    simp only [evaluate]
    split
    · next heval => rwa [heval] at hleft
    · next v a' heval =>
      rw [heval] at hleft
      have hright := ihr a'
      split
      · next heval' =>
        rw [heval'] at hright
        exact hright.trans hleft
      · next w a'' heval' =>
        rw [heval'] at hright
        rw [happlied]
        exact hright.trans hleft

namespace Machine

/-- Two machines with the same current scope, whose scopes have the same parents. -/
structure SameScopes (m m' : Machine) : Prop where
  /-- The current scope is the same. -/
  current_eq : m'.current = m.current
  /-- The parents are the same. -/
  parents_eq : m'.arena.parents = m.arena.parents

/-- A machine has its own scopes. -/
theorem SameScopes.refl (m : Machine) : SameScopes m m := ⟨rfl, rfl⟩

/-- Machines with the same scopes as a third have the same scopes. -/
theorem SameScopes.trans {m m' m'' : Machine} (h : SameScopes m m') (h' : SameScopes m' m'') :
    SameScopes m m'' :=
  ⟨h'.current_eq.trans h.current_eq, h'.parents_eq.trans h.parents_eq⟩

/-- Evaluation leaves the scopes. -/
theorem sameScopes_evaluate (m : Machine) (e : Expr) : SameScopes m (m.evaluate e).2 :=
  ⟨rfl, e.parents_evaluate m.current m.arena⟩

/-- Evaluation that comes to something leaves the scopes. -/
theorem SameScopes.of_evaluate {m m' : Machine} {e : Expr} {r : Except Stop (Option Value)}
    (h : m.evaluate e = (r, m')) : SameScopes m m' := by
  have hscopes := m.sameScopes_evaluate e
  rwa [h] at hscopes

/-- Binding a name leaves the scopes. -/
theorem sameScopes_define (m : Machine) (name : Text) (value : Option Value) :
    SameScopes m (m.define name value).machine := by
  unfold define
  split
  · next hdefine => exact ⟨rfl, Arena.parents_define hdefine⟩
  · exact .refl m

end Machine

open Machine (SameScopes)

/-- A run in two parts leaves the scopes if both parts do. -/
theorem Ran.sameScopes_andThen {m : Machine} {r : Ran} {next : Machine → Ran}
    (h : SameScopes m r.machine) (hnext : ∀ m, SameScopes m (next m).machine) :
    SameScopes m (r.andThen next).machine := by
  unfold andThen
  split
  · exact h
  · exact h.trans (hnext r.machine)

/-- A body in a scope of its own leaves the scopes around it, if it leaves those it finds. -/
theorem sameScopes_inScope (settings : Settings) {body : Machine → Ran}
    (hbody : ∀ m, SameScopes m (body m).machine) (m : Machine) :
    SameScopes m (inScope settings body m).machine := by
  have hinner := (hbody ⟨m.arena.push m.current, m.arena.depth⟩).parents_eq
  refine ⟨rfl, ?_⟩
  simp only [inScope]
  rw [Arena.parents_pop, hinner, Arena.parents_push, ← Arena.length_parents, List.take_left]

/-- A loop leaves the scopes if its body does. -/
theorem sameScopes_repeatWhile (condition : Expr) {body : Machine → Ran}
    (hbody : ∀ m, SameScopes m (body m).machine) (rounds : Nat) (m : Machine) :
    SameScopes m (repeatWhile condition body rounds m).machine := by
  induction rounds generalizing m with
  | zero => exact .refl m
  | succ rounds ih =>
    unfold repeatWhile
    split
    · next heval => exact .of_evaluate heval
    · next v m' heval =>
      have hcondition := SameScopes.of_evaluate heval
      split
      · exact hcondition.trans (Ran.sameScopes_andThen (hbody m') ih)
      · exact hcondition

/-- Code leaves the scopes on every way out. -/
theorem Code.sameScopes_execute (settings : Settings) (c : Code) (m : Machine) :
    SameScopes m (c.execute settings m).machine := by
  induction c generalizing m with
  | absent | classDecl | functionDecl | returning => exact .refl m
  | block body ih => exact sameScopes_inScope settings ih m
  | expression value =>
    simp only [execute, Stmt.execute]
    split
    · next heval => exact .of_evaluate heval
    · next heval => exact .of_evaluate heval
  | print keyword value =>
    simp only [execute, Stmt.execute]
    split
    · next heval => exact .of_evaluate heval
    · next heval => exact .of_evaluate heval
    · next heval => exact .of_evaluate heval
  | var n initializer =>
    simp only [execute, Stmt.execute]
    split
    · split
      · next heval => exact .of_evaluate heval
      · next heval => exact (SameScopes.of_evaluate heval).trans (Machine.sameScopes_define _ _ _)
    · exact .refl m
  | conditional keyword condition thenBranch elseBranch iht ihe =>
    simp only [execute, Stmt.execute] at iht ihe ⊢
    split
    · next heval => exact .of_evaluate heval
    · next v m' heval =>
      have hcondition := SameScopes.of_evaluate heval
      split
      · exact hcondition.trans (iht m')
      · split
        · exact hcondition.trans (ihe m')
        · exact hcondition
  | loop keyword condition body ih => exact sameScopes_repeatWhile condition ih settings.rounds m
  | nil => exact .refl m
  | cons s rest ihs ihr => exact Ran.sameScopes_andThen (ihs m) ihr

namespace Machine

/-- The scopes form one chain that ends in the current scope: the first has no parent, and the
parent of every other is the one before it. -/
structure Chained (m : Machine) : Prop where
  /-- The parent of a scope has the index before its own, which for the first is no scope. -/
  parent_eq : ∀ (i : Nat) (s : Scope), m.arena.scopes[i]? = some s → s.parent = (i : Int) - 1
  /-- The current scope is the last. -/
  current_eq : m.current = (m.arena.depth : Int) - 1
  /-- There is a scope. -/
  depth_pos : 0 < m.arena.depth

/-- The parents of a chain are the indices before its own. -/
theorem chained_iff (m : Machine) :
    m.Chained ↔ m.current = (m.arena.parents.length : Int) - 1 ∧ 0 < m.arena.parents.length ∧
      ∀ (i : Nat) (parent : Int), m.arena.parents[i]? = some parent → parent = (i : Int) - 1 := by
  rw [Arena.length_parents]
  constructor
  · intro h
    refine ⟨h.current_eq, h.depth_pos, fun i parent hparent => ?_⟩
    rw [Arena.parents, List.getElem?_map, Option.map_eq_some_iff] at hparent
    obtain ⟨s, hs, rfl⟩ := hparent
    exact h.parent_eq i s hs
  · rintro ⟨hcurrent, hpos, hparents⟩
    refine ⟨fun i s hs => hparents i s.parent ?_, hcurrent, hpos⟩
    rw [Arena.parents, List.getElem?_map, hs, Option.map_some]

/-- A machine with the scopes of a chained one is chained. -/
theorem Chained.of_sameScopes {m m' : Machine} (h : m.Chained) (hs : SameScopes m m') :
    m'.Chained := by
  rw [chained_iff, hs.current_eq, hs.parents_eq, ← chained_iff]
  exact h

/-- A chain with one more scope inside the current one is a chain. -/
theorem Chained.push {m : Machine} (h : m.Chained) :
    Chained ⟨m.arena.push m.current, m.arena.depth⟩ := by
  obtain ⟨hcurrent, hpos, hparents⟩ := (chained_iff m).mp h
  have hlength : (m.arena.parents ++ [m.current]).length = m.arena.parents.length + 1 := by
    rw [List.length_append, List.length_singleton]
  have hdepth := m.arena.length_parents
  rw [chained_iff, Arena.parents_push, hlength]
  refine ⟨?_, Nat.succ_pos _, fun i parent hparent => ?_⟩
  · dsimp only
    omega
  by_cases hi : i < m.arena.parents.length
  · rw [List.getElem?_append_left hi] at hparent
    exact hparents i parent hparent
  · have hlast : i = m.arena.parents.length := by
      have hbound := (List.getElem?_eq_some_iff.mp hparent).1
      omega
    rw [hlast, List.getElem?_append_right (Nat.le_refl _), Nat.sub_self, List.getElem?_cons_zero,
      Option.some.injEq] at hparent
    omega

/-- A machine between two units: the global scope is the only one, and it is current. -/
structure AtRest (m : Machine) : Prop where
  /-- The global scope is current. -/
  current_eq : m.current = 0
  /-- There is one scope, and it has no parent. -/
  scopes_eq : ∃ bindings, m.arena.scopes = [⟨bindings, Arena.noScope⟩]

/-- A machine at rest has the parents of a new one. -/
theorem atRest_iff (m : Machine) : m.AtRest ↔ SameScopes .new m := by
  constructor
  · rintro ⟨hcurrent, bindings, hscopes⟩
    refine ⟨hcurrent, ?_⟩
    rw [Arena.parents, hscopes]
    rfl
  · rintro ⟨hcurrent, hparents⟩
    refine ⟨hcurrent, ?_⟩
    have hmap : m.arena.scopes.map Scope.parent = [Arena.noScope] := hparents
    obtain ⟨s, hs, hparent⟩ := List.map_eq_singleton_iff.mp hmap
    exact ⟨s.bindings, by rw [hs, ← hparent]⟩

/-- A machine at rest is chained. -/
theorem AtRest.chained {m : Machine} (h : m.AtRest) : m.Chained := by
  have hnew : Machine.new.Chained := by
    rw [chained_iff]
    refine ⟨rfl, Nat.one_pos, fun i parent hparent => ?_⟩
    have hbound : i < 1 := (List.getElem?_eq_some_iff.mp hparent).1
    obtain rfl : i = 0 := by omega
    exact (Option.some.inj hparent).symm
  exact hnew.of_sameScopes ((atRest_iff m).mp h)

/-- A chain of scopes is that of some frames. -/
theorem exists_scopes_eq (before : List Scope) (last : Scope)
    (h : ∀ (i : Nat) (s : Scope), (before ++ [last])[i]? = some s → s.parent = (i : Int) - 1) :
    ∃ f : Frames, f.scopes = before ++ [last] ∧ f.index = before.length := by
  induction before using List.reverseRecOn generalizing last with
  | nil =>
    have hparent : last.parent = -1 := h 0 last rfl
    exact ⟨.globals last.bindings, by rw [Frames.scopes, Arena.noScope, ← hparent]; rfl, rfl⟩
  | append_singleton before middle ih =>
    have hlength : (before ++ [middle]).length = before.length + 1 := by
      rw [List.length_append, List.length_singleton]
    have hparent : last.parent = ((before ++ [middle]).length : Int) - 1 := by
      apply h
      rw [List.getElem?_append_right (Nat.le_refl _), Nat.sub_self, List.getElem?_cons_zero]
    obtain ⟨f, hscopes, hindex⟩ := ih middle fun i s hs => by
      have hbound := (List.getElem?_eq_some_iff.mp hs).1
      exact h i s (by rw [List.getElem?_append_left hbound, hs])
    refine ⟨.inner last.bindings f, ?_, by rw [Frames.index, hindex, hlength]⟩
    have hindex' : (f.index : Int) = last.parent := by omega
    rw [Frames.scopes, hscopes, hindex']

/-- A chained machine is that of some frames. -/
theorem Chained.exists_frames {m : Machine} (h : m.Chained) : ∃ f : Frames, m = f.machine := by
  obtain ⟨⟨scopes⟩, current⟩ := m
  obtain ⟨hparent, hcurrent, hpos⟩ := h
  have hne : scopes ≠ [] := List.length_pos_iff.mp hpos
  rw [← List.dropLast_concat_getLast hne] at hparent hcurrent
  obtain ⟨f, hscopes, hindex⟩ := exists_scopes_eq _ _ hparent
  refine ⟨f, ?_⟩
  have hlength : (scopes.dropLast ++ [scopes.getLast hne]).length = f.index + 1 := by
    rw [List.length_append, List.length_singleton, hindex]
  have hcurrent' : current = f.index := by
    simp only [Arena.depth, hlength] at hcurrent
    omega
  rw [Frames.machine, Frames.arena, hscopes, hcurrent', List.dropLast_concat_getLast hne]

/-- No name leads out of the arena from the current scope or without end along the parents, a
name can be bound there, and its scope can be released. -/
structure InRange (m : Machine) : Prop where
  /-- Looking a name up gives a value or says that no scope binds it. -/
  get : ∀ n, (∃ v, m.arena.get m.current n = .ok v) ∨
    m.arena.get m.current n = .error (.error (RuntimeCause.at (.undefinedVariable n.lexeme) n))
  /-- So does assigning to it. -/
  assign : ∀ n v, (∃ a, m.arena.assign m.current n v = .ok a) ∨
    m.arena.assign m.current n v =
      .error (.error (RuntimeCause.at (.undefinedVariable n.lexeme) n))
  /-- Binding a name succeeds. -/
  define : ∀ name v, ∃ a, m.arena.define m.current name v = .ok a
  /-- Releasing the scope succeeds. -/
  release : ∃ a, m.arena.release m.current = .ok a

/-- In a chain every access is in range. -/
theorem Chained.inRange {m : Machine} (h : m.Chained) : m.InRange := by
  obtain ⟨f, rfl⟩ := h.exists_frames
  constructor
  · intro n
    rw [Frames.machine, Frames.get_index]
    cases f.lookup n.lexeme with
    | some v => exact .inl ⟨v, rfl⟩
    | none => exact .inr rfl
  · intro n v
    rw [Frames.machine, Frames.assign_index]
    cases f.assign? n.lexeme v with
    | some f' => exact .inl ⟨f'.arena, rfl⟩
    | none => exact .inr rfl
  · exact fun name v => ⟨_, f.define_index name v⟩
  · have hdepth := f.depth_arena
    have hpos : 0 ≤ f.machine.current := Int.natCast_nonneg f.index
    have hle : f.machine.current ≤ f.machine.arena.depth := by
      simp only [Frames.machine, hdepth]
      omega
    have hrange : (0 ≤ f.machine.current && f.machine.current ≤ f.machine.arena.depth) = true := by
      rw [Bool.and_eq_true, decide_eq_true_eq, decide_eq_true_eq]
      exact ⟨hpos, hle⟩
    exact ⟨_, by rw [Arena.release, if_pos hrange]⟩

namespace InRange

variable {m : Machine}

/-- Looking a name up in range fails for want of a scope that binds it only. -/
theorem eq_of_get_error (h : m.InRange) {n : Token} {stop : Stop}
    (hget : m.arena.get m.current n = .error stop) :
    stop = .error (RuntimeCause.at (.undefinedVariable n.lexeme) n) := by
  rcases h.get n with ⟨v, hok⟩ | herror
  · rw [hok] at hget
    cases hget
  · rw [herror] at hget
    exact (Except.error.inj hget).symm

/-- Assigning to a name in range fails for want of a scope that binds it only. -/
theorem eq_of_assign_error (h : m.InRange) {n : Token} {v : Option Value} {stop : Stop}
    (hassign : m.arena.assign m.current n v = .error stop) :
    stop = .error (RuntimeCause.at (.undefinedVariable n.lexeme) n) := by
  rcases h.assign n v with ⟨a, hok⟩ | herror
  · rw [hok] at hassign
    cases hassign
  · rw [herror] at hassign
    exact (Except.error.inj hassign).symm

/-- Binding a name in range does not fail. -/
theorem define_ne_error (h : m.InRange) (name : Text) (v : Option Value) (stop : Stop) :
    m.arena.define m.current name v ≠ .error stop := by
  obtain ⟨a, hok⟩ := h.define name v
  rw [hok]
  exact nofun

end InRange

end Machine

end Lox
