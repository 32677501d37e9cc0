import Lox.Proofs.Execution

/-!
# Renaming of variables

Names are compared with one another and with nothing else. If every name of a program and every
name that a machine binds is replaced by another, different ones by different ones, the program
does on that machine what it did before: it prints the same, comes to an end if it did, and stops
for the same reason. Only an error about a name that nothing binds tells the new name.

The tokens that are names are told apart by where they stand in a tree, not by their kind: those
of operators, reserved words and parentheses keep their lexemes.
-/

namespace Lox

/-- The name under another spelling. -/
def Token.rename (r : Text → Text) (t : Token) : Token := { t with lexeme := r t.lexeme }

/-- The cause with the name that it is about replaced, if it is about one. -/
def RuntimeCause.rename (r : Text → Text) : RuntimeCause → RuntimeCause
  | undefinedVariable name => undefinedVariable (r name)
  | cause => cause

/-- The runtime error with the name that it is about replaced; its line stays. -/
def RuntimeError.rename (r : Text → Text) (e : RuntimeError) : RuntimeError :=
  { e with cause := e.cause.rename r }

/-- The reason to stop with the name that it is about replaced. -/
def Stop.rename (r : Text → Text) : Stop → Stop
  | error e => error (e.rename r)
  | fault f => fault f
  | unfinished => unfinished

mutual

/-- The expression with its names replaced. -/
def Expr.rename (r : Text → Text) : Expr → Expr
  | .absent => .absent
  | .assign n value => .assign (n.rename r) (value.rename r)
  | .binary left operator right => .binary (left.rename r) operator (right.rename r)
  | .call callee paren arguments => .call (callee.rename r) paren (Expr.renameAll r arguments)
  | .get object n => .get (object.rename r) (n.rename r)
  | .grouping inner => .grouping (inner.rename r)
  | .literal value => .literal value
  | .logical left operator right => .logical (left.rename r) operator (right.rename r)
  | .set object n value => .set (object.rename r) (n.rename r) (value.rename r)
  | .super keyword method => .super keyword (method.rename r)
  | .receiver keyword => .receiver keyword
  | .unary operator right => .unary operator (right.rename r)
  | .name n => .name (n.rename r)
termination_by structural e => e

/-- The expressions with their names replaced. -/
def Expr.renameAll (r : Text → Text) : List Expr → List Expr
  | [] => []
  | e :: rest => e.rename r :: Expr.renameAll r rest
termination_by structural es => es

end

mutual

/-- The statement with its names replaced. -/
def Stmt.rename (r : Text → Text) : Stmt → Stmt
  | .absent => .absent
  | .block body => .block (Stmt.renameAll r body)
  | .classDecl n superclass methods =>
    .classDecl (n.rename r) (superclass.map (Token.rename r)) (Stmt.renameAll r methods)
  | .expression value => .expression (value.rename r)
  | .functionDecl n params body =>
    .functionDecl (n.rename r) (params.map (Token.rename r)) (Stmt.renameAll r body)
  | .conditional keyword condition thenBranch elseBranch =>
    .conditional keyword (condition.rename r) (thenBranch.rename r) (elseBranch.rename r)
  | .print keyword value => .print keyword (value.rename r)
  | .returning keyword value => .returning keyword (value.rename r)
  | .var n initializer => .var (n.rename r) (initializer.rename r)
  | .loop keyword condition body => .loop keyword (condition.rename r) (body.rename r)
termination_by structural s => s

/-- The statements with their names replaced. -/
def Stmt.renameAll (r : Text → Text) : List Stmt → List Stmt
  | [] => []
  | s :: rest => s.rename r :: Stmt.renameAll r rest
termination_by structural body => body

end

/-- The code with its names replaced. -/
def Code.rename (r : Text → Text) : Code → Code
  | statement s => statement (s.rename r)
  | row body => row (Stmt.renameAll r body)

/-- The bindings under the new names, in the same order and with the same values. -/
def Bindings.rename (r : Text → Text) (b : Bindings) : Bindings :=
  b.map fun binding => (r binding.1, binding.2)

/-- The scope under the new names; its parent stays. -/
def Scope.rename (r : Text → Text) (s : Scope) : Scope :=
  { s with bindings := s.bindings.rename r }

/-- The arena under the new names. -/
def Arena.rename (r : Text → Text) (a : Arena) : Arena := ⟨a.scopes.map (Scope.rename r)⟩

/-- The machine under the new names; the current scope stays. -/
def Machine.rename (r : Text → Text) (m : Machine) : Machine :=
  { m with arena := m.arena.rename r }

/-- What an evaluation gives, under the new names. -/
def Evaluated.rename (r : Text → Text) (v : Evaluated) : Evaluated :=
  (v.1.mapError (Stop.rename r), v.2.rename r)

/-- What a run comes to, under the new names. What it prints and logs stays. -/
def Ran.rename (r : Text → Text) (x : Ran) : Ran :=
  ⟨x.stop.map (Stop.rename r), x.machine.rename r, x.effects⟩

variable {r : Text → Text}

/-- Statements in a row are renamed one by one. -/
theorem Stmt.renameAll_eq_map (body : List Stmt) :
    Stmt.renameAll r body = body.map (Stmt.rename r) := by
  induction body with
  | nil => rfl
  | cons s rest ih => rw [Stmt.renameAll, ih, List.map_cons]

/-- A renamed expression is there if it was. -/
@[simp]
theorem Expr.isPresent_rename (e : Expr) : (e.rename r).isPresent = e.isPresent := by
  cases e <;> rfl

/-- A renamed statement is there if it was. -/
@[simp]
theorem Stmt.isPresent_rename (s : Stmt) : (s.rename r).isPresent = s.isPresent := by
  cases s <;> rfl

/-- A new name is bound to what the old one was bound to. This and the next fact are the only
ones that need different names to stay different. -/
theorem Bindings.find?_rename (hr : Function.Injective r) (name : Text) (b : Bindings) :
    (b.rename r).find? (r name) = b.find? name := by
  induction b with
  | nil => rfl
  | cons head rest ih =>
    obtain ⟨n, v⟩ := head
    simp only [rename] at ih
    -- Names are compared here and in `insert` only: nothing else needs the renaming injective.
    simp only [rename, List.map_cons, find?, hr.eq_iff, ih]

/-- Binding a new name anew is binding the old one anew. -/
theorem Bindings.insert_rename (hr : Function.Injective r) (name : Text) (value : Option Value)
    (b : Bindings) : (b.rename r).insert (r name) value = (b.insert name value).rename r := by
  induction b with
  | nil => rfl
  | cons head rest ih =>
    obtain ⟨n, v⟩ := head
    simp only [rename] at ih
    simp only [rename, List.map_cons, insert, hr.eq_iff, ih]
    split <;> rfl

namespace Arena

/-- Renaming adds no scope and drops none. -/
theorem depth_rename (a : Arena) : (a.rename r).depth = a.depth := List.length_map _

/-- The scope at an index is renamed. -/
theorem scope?_rename (a : Arena) (index : Int) :
    (a.rename r).scope? index = (a.scope? index).map (Scope.rename r) := by
  unfold scope?
  split
  · rfl
  · exact List.getElem?_map

/-- A new scope binds no names that could be replaced. -/
theorem push_rename (a : Arena) (parent : Int) :
    (a.rename r).push parent = (a.push parent).rename r := by
  simp only [push, rename, List.map_append, List.map_cons, List.map_nil]
  rfl

/-- Scopes are released alike under the new names. -/
theorem pop_rename (a : Arena) (index : Nat) :
    (a.rename r).pop index = (a.pop index).rename r := by
  simp only [pop, rename, List.map_take]

/-- Binding a new name in a scope is binding the old one there. -/
theorem bind_rename (hr : Function.Injective r) (a : Arena) (index : Nat) (name : Text)
    (value : Option Value) :
    (a.rename r).bind index (r name) value = (a.bind index name value).rename r := by
  have hscopes : (a.scopes.map (Scope.rename r)).modify index
      (fun s => { s with bindings := s.bindings.insert (r name) value }) =
        (a.scopes.modify index
          fun s => { s with bindings := s.bindings.insert name value }).map (Scope.rename r) := by
    apply List.ext_getElem?
    intro i
    simp only [List.getElem?_modify, List.getElem?_map]
    cases a.scopes[i]? with
    | none => rfl
    | some s =>
      by_cases hi : index = i
      · simp only [hi, if_true, Option.map_some, Option.map_eq_map, Scope.rename,
          Bindings.insert_rename hr]
      · simp only [hi, if_false, Option.map_some, Option.map_eq_map]
  exact congrArg Arena.mk hscopes

/-- Along the parents, a new name leads where the old one led. -/
theorem resolveWithin_rename (hr : Function.Injective r) (a : Arena) (name : Text) (steps : Nat)
    (index : Int) :
    (a.rename r).resolveWithin (r name) steps index = a.resolveWithin name steps index := by
  induction steps generalizing index with
  | zero => rfl
  | succ steps ih =>
    have hparent (s : Scope) : (s.rename r).parent = s.parent := rfl
    have hfind (s : Scope) : (s.rename r).bindings.find? (r name) = s.bindings.find? name :=
      Bindings.find?_rename hr name s.bindings
    simp only [resolveWithin, scope?_rename]
    cases a.scope? index with
    | none => rfl
    | some s => simp only [Option.map_some, hfind, hparent, ih]

/-- A new name is found where the old one was, with the same value. -/
theorem resolve_rename (hr : Function.Injective r) (a : Arena) (index : Int) (name : Text) :
    (a.rename r).resolve index (r name) = a.resolve index name := by
  unfold resolve
  rw [depth_rename, resolveWithin_rename hr]

/-- A new name is looked up like the old one. -/
theorem get_rename (hr : Function.Injective r) (a : Arena) (index : Int) (n : Token) :
    (a.rename r).get index (n.rename r) = (a.get index n).mapError (Stop.rename r) := by
  have hlexeme : (n.rename r).lexeme = r n.lexeme := rfl
  unfold Arena.get
  rw [hlexeme, resolve_rename hr]
  split <;> rfl

/-- A new name is assigned to like the old one. -/
theorem assign_rename (hr : Function.Injective r) (a : Arena) (index : Int) (n : Token)
    (value : Option Value) :
    (a.rename r).assign index (n.rename r) value =
      ((a.assign index n value).map (Arena.rename r)).mapError (Stop.rename r) := by
  have hlexeme : (n.rename r).lexeme = r n.lexeme := rfl
  unfold Arena.assign
  rw [hlexeme, resolve_rename hr]
  split
  · rw [bind_rename hr]
    rfl
  all_goals rfl

/-- A new name is bound like the old one, in a scope that has to exist. -/
theorem define_rename (hr : Function.Injective r) (a : Arena) (index : Int) (name : Text)
    (value : Option Value) :
    (a.rename r).define index (r name) value =
      ((a.define index name value).map (Arena.rename r)).mapError (Stop.rename r) := by
  unfold Arena.define
  rw [scope?_rename]
  cases a.scope? index with
  | none => rfl
  | some s =>
    simp only [Option.map_some, bind_rename hr]
    rfl

end Arena

/-- No operator in front of its operand fails over a name. -/
theorem applyUnary_rename (operator : Token) (right : Option Value) :
    (applyUnary operator right).mapError (RuntimeError.rename r) = applyUnary operator right := by
  unfold applyUnary
  split
  · rfl
  · split <;> rfl
  · rfl

/-- No operator between two operands fails over a name. -/
theorem applyBinary_rename (operator : Token) (left right : Option Value) :
    (applyBinary operator left right).mapError (RuntimeError.rename r) =
      applyBinary operator left right := by
  unfold applyBinary
  split
  · rfl
  · rfl
  · unfold add
    split <;> rfl
  · split
    · unfold applyNumbers
      split <;> rfl
    · rfl

/-- The value of an operator under the new names. -/
theorem Evaluated.ofApplied_rename (arena : Arena) (applied : Except RuntimeError Value) :
    ofApplied (arena.rename r) (applied.mapError (RuntimeError.rename r)) =
      (ofApplied arena applied).rename r := by
  cases applied <;> rfl

/-- A renamed expression has the same value on the renamed arena, or stops for the same reason. -/
theorem Expr.evaluate_rename (hr : Function.Injective r) (e : Expr) (scope : Int) (arena : Arena) :
    (e.rename r).evaluate scope (arena.rename r) = (e.evaluate scope arena).rename r := by
  induction e generalizing arena with
  | absent | literal | call | get | set | super | receiver => rfl
  | grouping inner ih => exact ih arena
  | name n =>
    simp only [Expr.rename, Expr.evaluate, Arena.get_rename hr]
    rfl
  | assign n value ih =>
    simp only [Expr.rename, Expr.evaluate, ih]
    obtain ⟨result, arena⟩ := value.evaluate scope arena
    cases result with
    | error stop => rfl
    | ok v =>
      simp only [Evaluated.rename, mapError_ok, Arena.assign_rename hr]
      cases arena.assign scope n v <;> rfl
  | unary operator right ih =>
    simp only [Expr.rename, Expr.evaluate, ih]
    obtain ⟨result, arena⟩ := right.evaluate scope arena
    cases result with
    | error stop => rfl
    | ok v =>
      have happlied := Evaluated.ofApplied_rename (r := r) arena (applyUnary operator v)
      rwa [applyUnary_rename] at happlied
  | logical left operator right ihl ihr =>
    simp only [Expr.rename, Expr.evaluate, ihl]
    obtain ⟨result, arena⟩ := left.evaluate scope arena
    cases result with
    | error stop => rfl
    | ok v =>
      simp only [Evaluated.rename, mapError_ok, ihr]
      split <;> rfl
  | binary left operator right ihl ihr =>
    simp only [Expr.rename, Expr.evaluate, ihl]
    obtain ⟨result, arena⟩ := left.evaluate scope arena
    cases result with
    | error stop => rfl
    | ok l =>
      simp only [Evaluated.rename, mapError_ok, ihr]
      obtain ⟨result, arena⟩ := right.evaluate scope arena
      cases result with
      | error stop => rfl
      | ok w =>
        have happlied := Evaluated.ofApplied_rename (r := r) arena (applyBinary operator l w)
        rwa [applyBinary_rename] at happlied

/-- A renamed expression is evaluated alike on the renamed machine. -/
theorem Machine.evaluate_rename (hr : Function.Injective r) (m : Machine) (e : Expr) :
    (m.rename r).evaluate (e.rename r) =
      ((m.evaluate e).1.mapError (Stop.rename r), (m.evaluate e).2.rename r) := by
  have heval := e.evaluate_rename hr m.current m.arena
  simp only [Machine.evaluate, Machine.rename, heval, Evaluated.rename]

/-- A new name is bound in the current scope like the old one. -/
theorem Machine.define_rename (hr : Function.Injective r) (m : Machine) (name : Text)
    (value : Option Value) :
    (m.rename r).define (r name) value = (m.define name value).rename r := by
  have hdefine := m.arena.define_rename hr m.current name value
  simp only [Machine.define, Machine.rename, hdefine]
  cases m.arena.define m.current name value <;> rfl

/-- A run in two parts is renamed if both parts are. -/
theorem Ran.andThen_rename (x : Ran) {next next' : Machine → Ran}
    (h : ∀ m, next' (m.rename r) = (next m).rename r) :
    (x.rename r).andThen next' = (x.andThen next).rename r := by
  obtain ⟨stop, m, effects⟩ := x
  cases stop with
  | some stop => rfl
  | none =>
    simp only [Ran.andThen, Ran.rename, Option.map_none, h]

/-- A body in a scope of its own is renamed if it is by itself. -/
theorem inScope_rename (settings : Settings) {body body' : Machine → Ran}
    (h : ∀ m, body' (m.rename r) = (body m).rename r) (m : Machine) :
    inScope settings body' (m.rename r) = (inScope settings body m).rename r := by
  have hbody := h ⟨m.arena.push m.current, m.arena.depth⟩
  simp only [Machine.rename] at hbody
  simp only [inScope, Machine.rename, Arena.push_rename, Arena.depth_rename, hbody, Ran.rename,
    Arena.pop_rename]

/-- A loop is renamed if its condition and its body are. -/
theorem repeatWhile_rename (hr : Function.Injective r) (condition : Expr)
    {body body' : Machine → Ran} (h : ∀ m, body' (m.rename r) = (body m).rename r)
    (rounds : Nat) (m : Machine) :
    repeatWhile (condition.rename r) body' rounds (m.rename r) =
      (repeatWhile condition body rounds m).rename r := by
  induction rounds generalizing m with
  | zero => rfl
  | succ n ih =>
    simp only [repeatWhile, Machine.evaluate_rename hr]
    obtain ⟨result, m⟩ := m.evaluate condition
    cases result with
    | error stop => rfl
    | ok v =>
      simp only [mapError_ok, h]
      split
      · exact Ran.andThen_rename (body m) ih
      · rfl

/-- Renamed code is carried out alike on the renamed machine. -/
theorem Code.execute_rename (hr : Function.Injective r) (settings : Settings) (c : Code)
    (m : Machine) :
    (c.rename r).execute settings (m.rename r) = (c.execute settings m).rename r := by
  induction c generalizing m with
  | absent | classDecl | functionDecl | returning | nil => rfl
  | expression e =>
    simp only [Code.rename, Code.execute, Stmt.rename, Stmt.execute, Machine.evaluate_rename hr]
    obtain ⟨result, m⟩ := m.evaluate e
    cases result <;> rfl
  | print keyword e =>
    simp only [Code.rename, Code.execute, Stmt.rename, Stmt.execute, Machine.evaluate_rename hr]
    obtain ⟨result, m⟩ := m.evaluate e
    cases result with
    | error stop => rfl
    | ok v => cases v <;> rfl
  | var n e =>
    simp only [Code.rename, Code.execute, Stmt.rename, Stmt.execute, Machine.evaluate_rename hr,
      Expr.isPresent_rename]
    obtain ⟨result, m'⟩ := m.evaluate e
    split
    · cases result with
      | error stop => rfl
      | ok v => exact Machine.define_rename hr m' n.lexeme v
    · rfl
  | block body ih => exact inScope_rename settings ih m
  | conditional keyword condition thenBranch elseBranch ihthen ihelse =>
    simp only [Code.rename, Code.execute] at ihthen ihelse
    simp only [Code.rename, Code.execute, Stmt.rename, Stmt.execute, Machine.evaluate_rename hr,
      Stmt.isPresent_rename]
    obtain ⟨result, m⟩ := m.evaluate condition
    cases result with
    | error stop => rfl
    | ok v =>
      simp only [mapError_ok, ihthen, ihelse]
      split
      · rfl
      · split <;> rfl
  | loop keyword condition body ih =>
    exact repeatWhile_rename hr condition ih settings.rounds m
  | cons s rest ihs ihrest =>
    have hfirst := ihs m
    simp only [Code.rename, Code.execute] at hfirst ihrest
    simp only [Code.rename, Code.execute, Stmt.renameAll, executeAll, hfirst]
    exact Ran.andThen_rename (s.execute settings m) ihrest

/-- The failure with the name that it is about replaced. Errors that are found before a program
is carried out are about no name. -/
def Failure.rename (r : Text → Text) : Failure → Failure
  | lexical errors => lexical errors
  | grammatical errors => grammatical errors
  | stopped stop => stopped (stop.rename r)

/-- A unit comes under new names to what another comes to under the old ones. -/
structure Outcome.Renames (r : Text → Text) (o o' : Outcome) : Prop where
  /-- The same lines are printed. -/
  printed_eq : o'.printed = o.printed
  /-- The same machine is left, but for the names that it binds. -/
  machine_eq : o'.machine = o.machine.rename r
  /-- The same scope is current. -/
  current_eq : o'.machine.current = o.machine.current
  /-- There are as many scopes. -/
  depth_eq : o'.machine.arena.depth = o.machine.arena.depth
  /-- The unit fails if the other does, with the same error on the same line, but for a name that
  nothing binds. -/
  failure_eq : o'.failure = o.failure.map (Failure.rename r)

/-- Statements that are carried out to an end on a machine, if their loops may take rounds
enough. -/
def Finishes (level : LogLevel) (program : List Stmt) (m : Machine) : Prop :=
  ∃ rounds, (m.interpret ⟨level, rounds⟩ program).failure ≠ some (.stopped .unfinished)

/-- A unit of renamed statements comes on the renamed machine to what the unit comes to. -/
theorem Machine.renames_interpret (hr : Function.Injective r) (settings : Settings)
    (program : List Stmt) (m : Machine) :
    Outcome.Renames r (m.interpret settings program)
      ((m.rename r).interpret settings (program.map (Stmt.rename r))) := by
  have hrun : executeAll settings (program.map (Stmt.rename r)) (m.rename r) =
      (executeAll settings program m).rename r := by
    rw [← Stmt.renameAll_eq_map]
    exact Code.execute_rename hr settings (.row program) m
  have hmachine : ((m.rename r).interpret settings (program.map (Stmt.rename r))).machine =
      (m.interpret settings program).machine.rename r := congrArg Ran.machine hrun
  refine ⟨?_, hmachine, ?_, ?_, ?_⟩
  · rw [Machine.printed_interpret, Machine.printed_interpret, hrun]
    rfl
  · rw [hmachine]
    rfl
  · rw [hmachine]
    exact Arena.depth_rename _
  · simp only [Machine.interpret, hrun, Ran.rename, Option.map_map]
    rfl

/-- A renamed failure says that a unit was cut off if the failure did. -/
theorem Failure.rename_eq_unfinished_iff (failure : Option Failure) :
    failure.map (Failure.rename r) = some (.stopped .unfinished) ↔
      failure = some (.stopped .unfinished) := by
  match failure with
  | none | some (.lexical _) | some (.grammatical _) => exact ⟨nofun, nofun⟩
  | some (.stopped (.error _)) | some (.stopped (.fault _)) => exact ⟨nofun, nofun⟩
  | some (.stopped .unfinished) => exact ⟨fun _ => rfl, fun _ => rfl⟩

/-- If the names of a program and the names that a machine binds are replaced, different ones by
different ones, the program prints the same, leaves the machine under the new names and succeeds
or fails as before; only an error about a name that nothing binds tells the new name. It finishes
under the new names exactly if it does under the old ones. -/
theorem interpret_invariant_under_renaming (hr : Function.Injective r) (level : LogLevel)
    (program : List Stmt) (m : Machine) :
    (∀ rounds, Outcome.Renames r (m.interpret ⟨level, rounds⟩ program)
      ((m.rename r).interpret ⟨level, rounds⟩ (program.map (Stmt.rename r)))) ∧
    (Finishes level (program.map (Stmt.rename r)) (m.rename r) ↔ Finishes level program m) := by
  have hrenames (rounds : Nat) := Machine.renames_interpret hr ⟨level, rounds⟩ program m
  refine ⟨hrenames, exists_congr fun rounds => not_congr ?_⟩
  rw [(hrenames rounds).failure_eq, Failure.rename_eq_unfinished_iff]

/-- A block declares a name of its own from a global one and prints it; after the block nothing
binds that name. With an underscore in front of every name the block prints the same, and the
error is about the name with its underscore. -/
theorem interpret_invariant_under_renaming_of_shadowing :
    let r : Text → Text := fun name => 0x5F :: name
    let a : Token := ⟨.identifier, utf8 "a", none, 1⟩
    let b : Token := ⟨.identifier, utf8 "b", none, 1⟩
    let print (n : Token) : Stmt := .print ⟨.word .print, utf8 "print", none, 1⟩ (.name n)
    let program : List Stmt := [.block [.var a (.name b), print a], print { a with line := 2 }]
    let m : Machine := ⟨⟨[⟨[(utf8 "b", some (.string (utf8 "x")))], Arena.noScope⟩]⟩, 0⟩
    let o := (m.rename r).interpret ⟨.info, 0⟩ (program.map (Stmt.rename r))
    Function.Injective r ∧ o.printed = [utf8 "x"] ∧ o.machine = m.rename r ∧
      o.failure = some (.stopped (.error ⟨.undefinedVariable (utf8 "_a"), 2⟩)) ∧
      (Finishes .info (program.map (Stmt.rename r)) (m.rename r) ↔ Finishes .info program m) := by
  intro r a b print program m o
  have hr : Function.Injective r := fun _ _ h => (List.cons.inj h).2
  obtain ⟨hrenames, hfinishes⟩ := interpret_invariant_under_renaming hr .info program m
  have hunit := hrenames 0
  have hprinted : (m.interpret ⟨.info, 0⟩ program).printed = [utf8 "x"] := by decide +kernel
  have hmachine : (m.interpret ⟨.info, 0⟩ program).machine = m := rfl
  have hfailure : (m.interpret ⟨.info, 0⟩ program).failure =
      some (.stopped (.error ⟨.undefinedVariable (utf8 "a"), 2⟩)) := rfl
  have hprinted' := hunit.printed_eq.trans hprinted
  have hmachine' := hunit.machine_eq.trans (congrArg (Machine.rename r) hmachine)
  have hfailure' := hunit.failure_eq.trans (congrArg (Option.map (Failure.rename r)) hfailure)
  exact ⟨hr, hprinted', hmachine', hfailure', hfinishes⟩

end Lox
