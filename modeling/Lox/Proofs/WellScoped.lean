import Mathlib.Data.Set.Insert
import Lox.Proofs.Moments
import Lox.Proofs.Semantics.Evaluation

/-!
# Programs that declare what they use

Whether every name is declared before it is used can be read off a program: a declaration with an
initializer counts for the rest of its own row of statements, and blocks, branches and bodies of
loops see what is declared around them and add nothing to it. A program of this kind never fails
over a name that nothing binds, whatever its conditions come to and however often its loops run.

The reason is that code never takes a name away. The scopes that are there when it starts are there
when it ends, and each binds at least the names it bound. So at every moment of a run the names
that count at that place of the program are bound.
-/

namespace Lox

/-- The expressions of sources all of whose variables, read or assigned to, are among the given
names. The operand that a short-circuit may skip counts too. -/
inductive Expr.WellScoped (names : Set Text) : Expr → Prop
  | literal (value : Option Value) : WellScoped names (.literal value)
  | name {n : Token} (h : n.lexeme ∈ names) : WellScoped names (.name n)
  | grouping {e : Expr} (he : e.WellScoped names) : WellScoped names (.grouping e)
  | assign {n : Token} {e : Expr} (h : n.lexeme ∈ names) (he : e.WellScoped names) :
      WellScoped names (.assign n e)
  | unary (op : Token) {e : Expr} (he : e.WellScoped names) : WellScoped names (.unary op e)
  | binary (op : Token) {left right : Expr} (hl : left.WellScoped names)
      (hr : right.WellScoped names) : WellScoped names (.binary left op right)
  | logical (op : Token) {left right : Expr} (hl : left.WellScoped names)
      (hr : right.WellScoped names) : WellScoped names (.logical left op right)

/-- The names that a statement declares for the rest of its row: that of a declaration with an
initializer. A declaration without one binds nothing. -/
def Stmt.declared : Stmt → Set Text
  | .var n e => if e.isPresent then {n.lexeme} else ∅
  | _ => ∅

/-- The code of sources that uses only the given names and those it declares before. -/
inductive Code.WellScoped : Set Text → Code → Prop
  | expression {names : Set Text} {e : Expr} (he : e.WellScoped names) :
      WellScoped names (.statement (.expression e))
  | print {names : Set Text} (k : Token) {e : Expr} (he : e.WellScoped names) :
      WellScoped names (.statement (.print k e))
  | bare {names : Set Text} (n : Token) : WellScoped names (.statement (.var n .absent))
  | var {names : Set Text} (n : Token) {e : Expr} (he : e.WellScoped names) :
      WellScoped names (.statement (.var n e))
  | block {names : Set Text} {body : List Stmt} (h : WellScoped names (.row body)) :
      WellScoped names (.statement (.block body))
  | ifThen {names : Set Text} (k : Token) {c : Expr} {s : Stmt} (hc : c.WellScoped names)
      (hs : WellScoped names (.statement s)) :
      WellScoped names (.statement (.conditional k c s .absent))
  | ifElse {names : Set Text} (k : Token) {c : Expr} {s t : Stmt} (hc : c.WellScoped names)
      (hs : WellScoped names (.statement s)) (ht : WellScoped names (.statement t)) :
      WellScoped names (.statement (.conditional k c s t))
  | loop {names : Set Text} (k : Token) {c : Expr} {s : Stmt} (hc : c.WellScoped names)
      (hs : WellScoped names (.statement s)) : WellScoped names (.statement (.loop k c s))
  | nil {names : Set Text} : WellScoped names (.row [])
  /-- What a statement declares counts for those after it. -/
  | cons {names : Set Text} {s : Stmt} {rest : List Stmt} (hs : WellScoped names (.statement s))
      (hrest : WellScoped (names ∪ s.declared) (.row rest)) : WellScoped names (.row (s :: rest))

/-- Every given name is bound by a scope that is in reach of the current one. -/
def Machine.Binds (m : Machine) (names : Set Text) : Prop :=
  ∀ x ∈ names, ∃ i value, m.arena.resolve m.current x = .found i value

namespace Arena

/-- Every scope of the first arena is in the second, at the same index, inside the same scope, and
binds at least the names that it bound. -/
def Keeps (a a' : Arena) : Prop :=
  ∀ (i : Nat) (s : Scope), a.scopes[i]? = some s → ∃ s', a'.scopes[i]? = some s' ∧
    s'.parent = s.parent ∧ ∀ x v, s.bindings.find? x = some v → ∃ v', s'.bindings.find? x = some v'

/-- An arena keeps itself. -/
theorem Keeps.refl (a : Arena) : a.Keeps a := fun _ s hs => ⟨s, hs, rfl, fun _ v hv => ⟨v, hv⟩⟩

/-- What is kept twice is kept. -/
theorem Keeps.trans {a a' a'' : Arena} (h : a.Keeps a') (h' : a'.Keeps a'') : a.Keeps a'' := by
  intro i s hs
  obtain ⟨s', hs', hparent, hnames⟩ := h i s hs
  obtain ⟨s'', hs'', hparent', hnames'⟩ := h' i s' hs'
  refine ⟨s'', hs'', hparent'.trans hparent, fun x v hv => ?_⟩
  obtain ⟨v', hv'⟩ := hnames x v hv
  exact hnames' x v' hv'

/-- No scope is lost. -/
theorem Keeps.depth_le {a a' : Arena} (h : a.Keeps a') : a.depth ≤ a'.depth := by
  by_contra hlt
  have hindex : a'.depth < a.scopes.length := Nat.lt_of_not_le hlt
  obtain ⟨s', hs', -⟩ := h a'.depth _ (List.getElem?_eq_getElem hindex)
  exact absurd (List.getElem?_eq_some_iff.mp hs').1 (Nat.lt_irrefl _)

/-- Binding a name keeps all that was bound. -/
theorem keeps_bind (a : Arena) (index : Nat) (name : Text) (value : Option Value) :
    a.Keeps (a.bind index name value) := by
  intro i s hs
  by_cases hi : index = i
  · refine ⟨{ s with bindings := s.bindings.insert name value }, ?_, rfl, fun x v hv => ?_⟩
    · simp only [bind, List.getElem?_modify, hs, hi, if_true, Option.map_eq_map, Option.map_some]
    · rw [Bindings.find?_insert]
      split
      · exact ⟨value, rfl⟩
      · exact ⟨v, hv⟩
  · refine ⟨s, ?_, rfl, fun _ v hv => ⟨v, hv⟩⟩
    simp only [bind, List.getElem?_modify, hs, hi, if_false, Option.map_eq_map, Option.map_some]

/-- One more scope keeps those that are there. -/
theorem keeps_push (a : Arena) (parent : Int) : a.Keeps (a.push parent) := by
  intro i s hs
  have hi : i < a.scopes.length := (List.getElem?_eq_some_iff.mp hs).1
  refine ⟨s, ?_, rfl, fun _ v hv => ⟨v, hv⟩⟩
  rw [push, List.getElem?_append_left hi, hs]

/-- Releasing scopes that were added later keeps those that were there before. -/
theorem Keeps.pop {a a' : Arena} (h : a.Keeps a') : a.Keeps (a'.pop a.depth) := by
  intro i s hs
  have hi : i < a.depth := (List.getElem?_eq_some_iff.mp hs).1
  obtain ⟨s', hs', hparent, hnames⟩ := h i s hs
  refine ⟨s', ?_, hparent, hnames⟩
  rw [Arena.pop, List.getElem?_take_of_lt hi, hs']

/-- Assigning to a name keeps all that was bound. -/
theorem keeps_assign {a a' : Arena} {index : Int} {n : Token} {value : Option Value}
    (h : a.assign index n value = .ok a') : a.Keeps a' := by
  unfold Arena.assign at h
  split at h
  · cases h
    exact a.keeps_bind _ _ _
  all_goals cases h

/-- A name that is found is still found in an arena that keeps the scopes, in as many steps or
more. The scope that binds it may be another: one on the way may bind it by now. -/
theorem Keeps.resolveWithin {a a' : Arena} (h : a.Keeps a') {x : Text} {steps steps' i : Nat}
    {index : Int} {value : Option Value} (hsteps : steps ≤ steps')
    (hfound : a.resolveWithin x steps index = .found i value) :
    ∃ i' value', a'.resolveWithin x steps' index = .found i' value' := by
  induction steps generalizing steps' index with
  | zero =>
    simp only [Arena.resolveWithin] at hfound
    split at hfound <;> cases hfound
  | succ steps ih =>
    obtain ⟨more, rfl⟩ : ∃ more, steps' = more + 1 := ⟨steps' - 1, by omega⟩
    simp only [Arena.resolveWithin] at hfound ⊢
    split at hfound
    · cases hfound
    · next hindex =>
      rw [if_neg hindex]
      split at hfound
      · cases hfound
      · next s hscope =>
        simp only [Arena.scope?] at hscope ⊢
        split at hscope
        · cases hscope
        · next hneg =>
          obtain ⟨s', hs', hparent, hnames⟩ := h _ s hscope
          simp only [if_neg hneg, hs']
          split at hfound
          · next v hv =>
            obtain ⟨v', hv'⟩ := hnames x v hv
            exact ⟨_, v', by rw [hv']⟩
          · split
            · next v' _ => exact ⟨_, v', rfl⟩
            · rw [hparent]
              exact ih (Nat.le_of_succ_le_succ hsteps) hfound

/-- A name that is found is still found in an arena that keeps the scopes. -/
theorem Keeps.resolve {a a' : Arena} (h : a.Keeps a') {x : Text} {i : Nat} {index : Int}
    {value : Option Value} (hfound : a.resolve index x = .found i value) :
    ∃ i' value', a'.resolve index x = .found i' value' :=
  h.resolveWithin (Nat.succ_le_succ h.depth_le) hfound

/-- A name that a scope binds is found there. -/
theorem resolve_bind {a : Arena} {index : Int} {s : Scope} (hs : a.scope? index = some s)
    (name : Text) (value : Option Value) :
    (a.bind index.toNat name value).resolve index name = .found index.toNat value := by
  simp only [scope?] at hs
  split at hs
  · cases hs
  · next hneg =>
    have hindex : index ≠ noScope := by
      rintro rfl
      exact hneg (by decide)
    have hscope : (a.bind index.toNat name value).scope? index =
        some { s with bindings := s.bindings.insert name value } := by
      simp only [scope?, if_neg hneg, bind, List.getElem?_modify, hs, if_true, Option.map_eq_map,
        Option.map_some]
    simp only [resolve, resolveWithin, if_neg hindex, hscope, Bindings.find?_insert, if_true]

end Arena

/-- Evaluation keeps all names, whatever it comes to. -/
theorem Machine.keeps_evaluate {m m' : Machine} {e : Expr} {r : Except Stop (Option Value)}
    (h : m.evaluate e = (r, m')) : m.arena.Keeps m'.arena := by
  induction e generalizing m m' r with
  | absent | literal | name | call | get | set | super | receiver =>
    cases h
    exact .refl _
  | grouping inner ih => exact ih h
  | assign n value ih =>
    rw [Machine.evaluate_assign] at h
    split at h
    · next heval =>
      cases h
      exact ih heval
    · next heval =>
      split at h
      · next hassign =>
        cases h
        exact (ih heval).trans (Arena.keeps_assign hassign)
      · cases h
        exact ih heval
  | unary op right ih =>
    rw [Machine.evaluate_unary] at h
    split at h
    · next heval =>
      cases h
      exact ih heval
    · next heval =>
      cases h
      exact ih heval
  | logical left op right ihl ihr =>
    rw [Machine.evaluate_logical] at h
    split at h
    · next heval =>
      cases h
      exact ihl heval
    · next heval =>
      split at h
      · cases h
        exact ihl heval
      · exact (ihl heval).trans (ihr h)
  | binary left op right ihl ihr =>
    rw [Machine.evaluate_binary] at h
    split at h
    · next heval =>
      cases h
      exact ihl heval
    · next heval =>
      split at h
      · next heval' =>
        cases h
        exact (ihl heval).trans (ihr heval')
      · next heval' =>
        cases h
        exact (ihl heval).trans (ihr heval')

/-- Binding a name in the current scope keeps all names. -/
theorem Machine.keeps_define (m : Machine) (name : Text) (value : Option Value) :
    m.arena.Keeps (m.define name value).machine.arena := by
  unfold Machine.define Arena.define
  cases m.arena.scope? m.current with
  | none => exact .refl _
  | some s => exact m.arena.keeps_bind _ _ _

/-- A run in two parts keeps all names if both parts do. -/
theorem Ran.keeps_andThen {a : Arena} {x : Ran} {next : Machine → Ran}
    (h : a.Keeps x.machine.arena) (hnext : ∀ m : Machine, m.arena.Keeps (next m).machine.arena) :
    a.Keeps (x.andThen next).machine.arena := by
  unfold andThen
  split
  · exact h
  · exact h.trans (hnext x.machine)

/-- A loop keeps all names if its body does. -/
theorem keeps_repeatWhile (condition : Expr) {body : Machine → Ran}
    (hbody : ∀ m : Machine, m.arena.Keeps (body m).machine.arena) (rounds : Nat) (m : Machine) :
    m.arena.Keeps (repeatWhile condition body rounds m).machine.arena := by
  induction rounds generalizing m with
  | zero => exact .refl _
  | succ rounds ih =>
    unfold repeatWhile
    split
    · next heval => exact Machine.keeps_evaluate heval
    · next v m' heval =>
      have hcondition := Machine.keeps_evaluate heval
      split
      · exact hcondition.trans (Ran.keeps_andThen (hbody m') ih)
      · exact hcondition

/-- Code keeps all names on every way out. -/
theorem Code.keeps_execute (settings : Settings) (c : Code) (m : Machine) :
    m.arena.Keeps (c.execute settings m).machine.arena := by
  induction c generalizing m with
  | absent | classDecl | functionDecl | returning | nil => exact .refl _
  | block body ih =>
    have hinner := ih ⟨m.arena.push m.current, m.arena.depth⟩
    exact ((m.arena.keeps_push m.current).trans hinner).pop
  | expression value =>
    simp only [execute, Stmt.execute]
    split
    · next heval => exact Machine.keeps_evaluate heval
    · next heval => exact Machine.keeps_evaluate heval
  | print keyword value =>
    simp only [execute, Stmt.execute]
    split
    · next heval => exact Machine.keeps_evaluate heval
    · next heval => exact Machine.keeps_evaluate heval
    · next heval => exact Machine.keeps_evaluate heval
  | var n initializer =>
    simp only [execute, Stmt.execute]
    split
    · split
      · next heval => exact Machine.keeps_evaluate heval
      · next heval => exact (Machine.keeps_evaluate heval).trans (Machine.keeps_define _ _ _)
    · exact .refl _
  | conditional keyword condition thenBranch elseBranch iht ihe =>
    simp only [execute, Stmt.execute] at iht ihe ⊢
    split
    · next heval => exact Machine.keeps_evaluate heval
    · next v m' heval =>
      have hcondition := Machine.keeps_evaluate heval
      split
      · exact hcondition.trans (iht m')
      · split
        · exact hcondition.trans (ihe m')
        · exact hcondition
  | loop keyword condition body ih => exact keeps_repeatWhile condition ih settings.rounds m
  | cons s rest ihs ihr => exact Ran.keeps_andThen (ihs m) ihr

namespace Machine.Binds

variable {names : Set Text} {m m' : Machine}

/-- Names stay bound if all scopes are kept and the current one is the same. -/
theorem of_keeps (h : m.Binds names) (hkeeps : m.arena.Keeps m'.arena)
    (hcurrent : m'.current = m.current) : m'.Binds names := by
  intro x hx
  obtain ⟨i, value, hfound⟩ := h x hx
  rw [hcurrent]
  exact hkeeps.resolve hfound

/-- Names stay bound through evaluation. -/
theorem evaluate (h : m.Binds names) {e : Expr} {r : Except Stop (Option Value)}
    (heval : m.evaluate e = (r, m')) : m'.Binds names :=
  h.of_keeps (keeps_evaluate heval) (SameScopes.of_evaluate heval).current_eq

/-- Names stay bound through the execution of a statement. -/
theorem execute (h : m.Binds names) (settings : Settings) (s : Stmt) :
    (s.execute settings m).machine.Binds names :=
  h.of_keeps (Code.keeps_execute settings (.statement s) m)
    (Code.sameScopes_execute settings (.statement s) m).current_eq

/-- Names that are bound around a block are bound inside it. -/
theorem push (h : m.Binds names) : Binds ⟨m.arena.push m.current, m.arena.depth⟩ names := by
  intro x hx
  obtain ⟨i, value, hfound⟩ := h x hx
  obtain ⟨i', value', hfound'⟩ :=
    (m.arena.keeps_push m.current).resolveWithin (Nat.le_refl (m.arena.depth + 1)) hfound
  refine ⟨i', value', ?_⟩
  have hindex : (m.arena.depth : Int) ≠ Arena.noScope := by
    unfold Arena.noScope
    omega
  have hscope : (m.arena.push m.current).scope? m.arena.depth = some ⟨[], m.current⟩ := by
    have hlast : ¬ (m.arena.depth : Int) < 0 := by omega
    rw [Arena.scope?, if_neg hlast, Int.toNat_natCast, Arena.push, Arena.depth,
      List.getElem?_append_right (Nat.le_refl _), Nat.sub_self, List.getElem?_cons_zero]
  rw [Arena.resolve, Arena.depth_push, Arena.resolveWithin, if_neg hindex, hscope]
  exact hfound'

/-- What is bound may be told in two parts. -/
theorem union {more : Set Text} (h : m.Binds names) (hmore : m.Binds more) :
    m.Binds (names ∪ more) :=
  fun x hx => hx.elim (h x) (hmore x)

end Machine.Binds

/-- A statement that comes to its end has bound what it declares. -/
theorem Stmt.binds_declared (settings : Settings) {s : Stmt} {m : Machine}
    (h : (s.execute settings m).stop = none) :
    (s.execute settings m).machine.Binds s.declared := by
  cases s with
  | var n e =>
    intro x hx
    simp only [Stmt.declared] at hx
    simp only [Stmt.execute] at h ⊢
    split at hx
    · next hp =>
      obtain rfl : x = n.lexeme := hx
      rw [if_pos hp] at h ⊢
      split at h
      · cases h
      · next v m' heval =>
        unfold Machine.define Arena.define at h ⊢
        cases hs : m'.arena.scope? m'.current with
        | none =>
          rw [hs] at h
          cases h
        | some s => exact ⟨_, v, Arena.resolve_bind hs n.lexeme v⟩
    · exact hx.elim
  | _ => exact fun x hx => hx.elim

/-- A task that uses only the given names and those it declares before. -/
def Task.WellScoped (names : Set Text) : Task → Prop
  | evaluate e => e.WellScoped names
  | carryOut c => c.WellScoped names

/-- A moment at which the task uses only names that are bound or that it declares before. -/
def Moment.Scoped (a : Moment) : Prop :=
  ∃ names, a.task.WellScoped names ∧ a.machine.Binds names

/-- The expression of a statement uses only names that the statement may use. -/
theorem Semantics.Subject.wellScoped {names : Set Text} {s : Stmt} {e : Expr} (h : Subject s e)
    (hs : Code.WellScoped names (.statement s)) : e.WellScoped names := by
  cases h with
  | expression =>
    cases hs
    assumption
  | print =>
    cases hs
    assumption
  | var n hp =>
    cases hs with
    | bare => exact absurd rfl hp
    | var _ he => exact he
  | conditional =>
    cases hs <;> assumption
  | loop =>
    cases hs
    assumption

/-- Where a task uses only names that are bound or declared before, so do the tasks that it takes
up. -/
theorem Enters.scoped {settings : Settings} {a b : Moment} (h : Enters settings a b)
    (ha : a.Scoped) : b.Scoped := by
  obtain ⟨names, htask, hbinds⟩ := ha
  cases h with
  | grouping =>
    cases htask with
    | grouping he => exact ⟨names, he, hbinds⟩
  | assigned =>
    cases htask with
    | assign _ he => exact ⟨names, he, hbinds⟩
  | operand =>
    cases htask with
    | unary _ he => exact ⟨names, he, hbinds⟩
  | logicalLeft =>
    cases htask with
    | logical _ hl => exact ⟨names, hl, hbinds⟩
  | logicalRight heval =>
    cases htask with
    | logical _ _ hr => exact ⟨names, hr, hbinds.evaluate heval⟩
  | binaryLeft =>
    cases htask with
    | binary _ hl => exact ⟨names, hl, hbinds⟩
  | binaryRight heval =>
    cases htask with
    | binary _ _ hr => exact ⟨names, hr, hbinds.evaluate heval⟩
  | subject h => exact ⟨names, h.wellScoped htask, hbinds⟩
  | thenBranch heval =>
    cases htask with
    | ifThen _ _ hs | ifElse _ _ hs => exact ⟨names, hs, hbinds.evaluate heval⟩
  | elseBranch heval _ ht =>
    cases htask with
    | ifThen => exact absurd rfl ht
    | ifElse _ _ _ ht => exact ⟨names, ht, hbinds.evaluate heval⟩
  | round heval =>
    cases htask with
    | loop _ _ hs => exact ⟨names, hs, hbinds.evaluate heval⟩
  | @nextRound k c s m m' v heval =>
    -- What the body declared went with its scopes; the names of the loop outlive the round.
    exact ⟨names, htask, (hbinds.evaluate heval).execute settings s⟩
  | block =>
    cases htask with
    | block hbody => exact ⟨names, hbody, hbinds.push⟩
  | first =>
    cases htask with
    | cons hs => exact ⟨names, hs, hbinds⟩
  | @next s rest m hstop =>
    cases htask with
    | cons _ hrest =>
      have hdeclared := Stmt.binds_declared settings hstop
      exact ⟨_, hrest, (hbinds.execute settings s).union hdeclared⟩

/-- No operator in front of its operand fails over a name. -/
theorem cause_ne_of_applyUnary {op : Token} {v : Option Value} {error : RuntimeError}
    (h : applyUnary op v = .error error) (x : Text) : error.cause ≠ .undefinedVariable x := by
  have hprefixed := (Semantics.prefixed_iff op v (.error error)).mpr h
  cases hprefixed <;> exact nofun

/-- No operator between two operands fails over a name. -/
theorem cause_ne_of_applyBinary {op : Token} {v w : Option Value} {error : RuntimeError}
    (h : applyBinary op v w = .error error) (x : Text) : error.cause ≠ .undefinedVariable x := by
  have hcombined := Semantics.combined_applyBinary op v w
  rw [h] at hcombined
  cases hcombined <;> exact nofun

/-- A task that uses only names that are bound or declared before does not fail over a name. -/
theorem Moment.Fails.cause_ne {a : Moment} {error : RuntimeError} (h : a.Fails (.error error))
    (ha : a.Scoped) (x : Text) : error.cause ≠ .undefinedVariable x := by
  obtain ⟨names, htask, hbinds⟩ := ha
  cases h with
  | unsupportedExpression | unsupportedStatement => exact nofun
  | @get n m _ hget =>
    cases htask with
    | name hn =>
      obtain ⟨i, value, hfound⟩ := hbinds _ hn
      simp only [Arena.get, hfound] at hget
      cases hget
  | @assign n e m m' v _ heval hassign =>
    cases htask with
    | assign hn _ =>
      obtain ⟨i, value, hfound⟩ := hbinds.evaluate heval _ hn
      simp only [Arena.assign, hfound] at hassign
      cases hassign
  | unary _ happly => exact cause_ne_of_applyUnary happly x
  | binary _ _ happly => exact cause_ne_of_applyBinary happly x
  | define _ _ hdefine =>
    unfold Arena.define at hdefine
    split at hdefine <;> cases hdefine

/-- Statements that use only given names and those that they declare before never fail over a name
that nothing binds, on any machine that binds the given names. At every moment of their run, in
every round of every loop, the task uses only names that are bound or that it declares before. -/
theorem interpret_never_undefined_of_wellScoped {names : Set Text} {program : List Stmt}
    {m : Machine} (h : Code.WellScoped names (.row program)) (hm : m.Binds names)
    (settings : Settings) :
    (∀ a, (WorkUnit.statements program).Meets settings m a → a.Scoped) ∧
      ∀ error, (m.interpret settings program).failure = some (.stopped (.error error)) →
        ∀ x, error.cause ≠ .undefinedVariable x := by
  have hmoments : ∀ a, (WorkUnit.statements program).Meets settings m a → a.Scoped := by
    rintro a ⟨_, rfl, hpath⟩
    induction hpath with
    | refl => exact ⟨names, h, hm⟩
    | tail _ henters ih => exact henters.scoped ih
  refine ⟨hmoments, fun error hfailure => ?_⟩
  have hrun : ((WorkUnit.statements program).run settings m).failure =
      some (.stopped (.error error)) := hfailure
  obtain ⟨a, ha, hfails⟩ := WorkUnit.exists_meets_of_failure hrun nofun
  exact hfails.cause_ne (hmoments a ha)

/-- A program that uses a global name declares a second from it, and inside a block a third from
the second, which a loop sets to nil before the second is negated. The declarations are in order,
so the one error is about the operand. -/
theorem interpret_never_undefined_of_wellScoped_of_nested_loop :
    let named (x : String) : Token := ⟨.identifier, utf8 x, none, 1⟩
    let sign (p : Punctuator) : Token := ⟨.sign p, p.spelling, none, 1⟩
    let word (k : Keyword) : Token := ⟨.word k, k.spelling, none, 1⟩
    let body : List Stmt := [.var (named "c") (.name (named "b")),
      .loop (word .while_) (.name (named "c"))
        (.block [.expression (.assign (named "c") (.literal (some .nil)))]),
      .print (word .print) (.unary (sign .minus) (.name (named "b")))]
    let program : List Stmt := [.var (named "b") (.name (named "a")), .block body]
    let m : Machine := ⟨⟨[⟨[(utf8 "a", some (.string (utf8 "x")))], Arena.noScope⟩]⟩, 0⟩
    let cause : RuntimeCause := .notNumber (some (.string (utf8 "x")))
    Code.WellScoped {utf8 "a"} (.row program) ∧ m.Binds {utf8 "a"} ∧
      (m.interpret ⟨.info, 2⟩ program).failure = some (.stopped (.error ⟨cause, 1⟩)) ∧
      ∀ x, cause ≠ .undefinedVariable x := by
  intro named sign word body program m cause
  have hbody : Code.WellScoped ({utf8 "a"} ∪ {utf8 "b"}) (.row body) :=
    .cons (.var _ (.name (.inr rfl))) (.cons
      (.loop _ (.name (.inr rfl)) (.block (.cons
        (.expression (.assign (.inr rfl) (.literal _))) .nil)))
      (.cons (.print _ (.unary _ (.name (.inl (.inl (.inr rfl)))))) .nil))
  have hprogram : Code.WellScoped {utf8 "a"} (.row program) :=
    .cons (.var _ (.name rfl)) (.cons (.block hbody) .nil)
  have hm : m.Binds {utf8 "a"} := by
    rintro x rfl
    exact ⟨0, some (.string (utf8 "x")), rfl⟩
  have hstop : (executeAll ⟨.info, 2⟩ program m).stop = some (.error ⟨cause, 1⟩) := by
    decide +kernel
  have hfailure : (m.interpret ⟨.info, 2⟩ program).failure =
      some (.stopped (.error ⟨cause, 1⟩)) := by
    simp only [Machine.interpret, hstop, Option.map_some]
  obtain ⟨-, hnever⟩ := interpret_never_undefined_of_wellScoped hprogram hm ⟨.info, 2⟩
  exact ⟨hprogram, hm, hfailure, hnever _ hfailure⟩

end Lox
