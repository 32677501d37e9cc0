import Lox.Proofs.Execution

/-!
# Lines have no influence on a run

The lines of tokens serve the reports of errors and nothing else. A program whose tokens stand
on other lines is carried out alike, and stops for the same reason if it stops; only the line
that its error names moves with the token at fault.
-/

namespace Lox

/-- The token on another line. -/
def Token.mapLine (g : Int → Int) (t : Token) : Token := { t with line := g t.line }

/-- The runtime error on another line. -/
def RuntimeError.mapLine (g : Int → Int) (e : RuntimeError) : RuntimeError :=
  { e with line := g e.line }

/-- The reason to stop on another line, if it has one. -/
def Stop.mapLine (g : Int → Int) : Stop → Stop
  | error e => error (e.mapLine g)
  | fault f => fault f
  | unfinished => unfinished

mutual

/-- The expression with its tokens on other lines. -/
def Expr.mapLine (g : Int → Int) : Expr → Expr
  | .absent => .absent
  | .assign n value => .assign (n.mapLine g) (value.mapLine g)
  | .binary left operator right =>
    .binary (left.mapLine g) (operator.mapLine g) (right.mapLine g)
  | .call callee paren arguments =>
    .call (callee.mapLine g) (paren.mapLine g) (Expr.mapLines g arguments)
  | .get object n => .get (object.mapLine g) (n.mapLine g)
  | .grouping inner => .grouping (inner.mapLine g)
  | .literal value => .literal value
  | .logical left operator right =>
    .logical (left.mapLine g) (operator.mapLine g) (right.mapLine g)
  | .set object n value => .set (object.mapLine g) (n.mapLine g) (value.mapLine g)
  | .super keyword method => .super (keyword.mapLine g) (method.mapLine g)
  | .receiver keyword => .receiver (keyword.mapLine g)
  | .unary operator right => .unary (operator.mapLine g) (right.mapLine g)
  | .name n => .name (n.mapLine g)
termination_by structural e => e

/-- The expressions with their tokens on other lines. -/
def Expr.mapLines (g : Int → Int) : List Expr → List Expr
  | [] => []
  | e :: rest => e.mapLine g :: Expr.mapLines g rest
termination_by structural es => es

end

mutual

/-- The statement with its tokens on other lines. -/
def Stmt.mapLine (g : Int → Int) : Stmt → Stmt
  | .absent => .absent
  | .block body => .block (Stmt.mapLines g body)
  | .classDecl n superclass methods =>
    .classDecl (n.mapLine g) (superclass.map (Token.mapLine g)) (Stmt.mapLines g methods)
  | .expression value => .expression (value.mapLine g)
  | .functionDecl n params body =>
    .functionDecl (n.mapLine g) (params.map (Token.mapLine g)) (Stmt.mapLines g body)
  | .conditional keyword condition thenBranch elseBranch =>
    .conditional (keyword.mapLine g) (condition.mapLine g) (thenBranch.mapLine g)
      (elseBranch.mapLine g)
  | .print keyword value => .print (keyword.mapLine g) (value.mapLine g)
  | .returning keyword value => .returning (keyword.mapLine g) (value.mapLine g)
  | .var n initializer => .var (n.mapLine g) (initializer.mapLine g)
  | .loop keyword condition body =>
    .loop (keyword.mapLine g) (condition.mapLine g) (body.mapLine g)
termination_by structural s => s

/-- The statements with their tokens on other lines. -/
def Stmt.mapLines (g : Int → Int) : List Stmt → List Stmt
  | [] => []
  | s :: rest => s.mapLine g :: Stmt.mapLines g rest
termination_by structural body => body

end

/-- The code with its tokens on other lines. -/
def Code.mapLine (g : Int → Int) : Code → Code
  | statement s => statement (s.mapLine g)
  | row body => row (Stmt.mapLines g body)

/-- What an evaluation gives, with its reason to stop on another line. -/
def Evaluated.mapLine (g : Int → Int) (v : Evaluated) : Evaluated :=
  (v.1.mapError (Stop.mapLine g), v.2)

/-- What a run comes to, with its reason to stop on another line. -/
def Ran.mapLine (g : Int → Int) (r : Ran) : Ran := { r with stop := r.stop.map (Stop.mapLine g) }

variable (g : Int → Int)

/-- Statements in a row are moved one by one. -/
theorem Stmt.mapLines_eq_map (body : List Stmt) : Stmt.mapLines g body = body.map (mapLine g) := by
  induction body with
  | nil => rfl
  | cons s rest ih => rw [Stmt.mapLines, ih, List.map_cons]

/-- An expression on other lines is there if it was. -/
@[simp]
theorem Expr.isPresent_mapLine (e : Expr) : (e.mapLine g).isPresent = e.isPresent := by
  cases e <;> rfl

/-- A statement on other lines is there if it was. -/
@[simp]
theorem Stmt.isPresent_mapLine (s : Stmt) : (s.mapLine g).isPresent = s.isPresent := by
  cases s <;> rfl

/-- A sum fails on the line of its operator. -/
theorem add_mapLine (operator : Token) (left right : Option Value) :
    add (operator.mapLine g) left right =
      (add operator left right).mapError (RuntimeError.mapLine g) := by
  unfold add
  split <;> rfl

/-- A number operator fails on its own line. -/
theorem applyNumbers_mapLine (apply : Float → Float → Value) (operator : Token)
    (left right : Option Value) :
    applyNumbers apply (operator.mapLine g) left right =
      (applyNumbers apply operator left right).mapError (RuntimeError.mapLine g) := by
  unfold applyNumbers
  split <;> rfl

/-- An operator in front of its operand fails on its own line. -/
theorem applyUnary_mapLine (operator : Token) (right : Option Value) :
    applyUnary (operator.mapLine g) right =
      (applyUnary operator right).mapError (RuntimeError.mapLine g) := by
  have hkind : (operator.mapLine g).kind = operator.kind := rfl
  unfold applyUnary
  rw [hkind]
  split
  · rfl
  · split <;> rfl
  · rfl

/-- An operator between two operands fails on its own line. -/
theorem applyBinary_mapLine (operator : Token) (left right : Option Value) :
    applyBinary (operator.mapLine g) left right =
      (applyBinary operator left right).mapError (RuntimeError.mapLine g) := by
  have hkind : (operator.mapLine g).kind = operator.kind := rfl
  unfold applyBinary
  rw [hkind]
  split
  · rfl
  · rfl
  · exact add_mapLine g operator left right
  · split
    · exact applyNumbers_mapLine g _ operator left right
    · rfl

/-- The value of an operator on another line. -/
theorem Evaluated.ofApplied_mapLine (arena : Arena) (applied : Except RuntimeError Value) :
    ofApplied arena (applied.mapError (RuntimeError.mapLine g)) =
      (ofApplied arena applied).mapLine g := by
  cases applied <;> rfl

/-- A name that is not bound is an error on its own line. -/
theorem Arena.get_mapLine (arena : Arena) (scope : Int) (n : Token) :
    arena.get scope (n.mapLine g) = (arena.get scope n).mapError (Stop.mapLine g) := by
  have hlexeme : (n.mapLine g).lexeme = n.lexeme := rfl
  unfold Arena.get
  rw [hlexeme]
  split <;> rfl

/-- An assignment to a name that is not bound is an error on the line of the name. -/
theorem Arena.assign_mapLine (arena : Arena) (scope : Int) (n : Token) (value : Option Value) :
    arena.assign scope (n.mapLine g) value =
      (arena.assign scope n value).mapError (Stop.mapLine g) := by
  have hlexeme : (n.mapLine g).lexeme = n.lexeme := rfl
  unfold Arena.assign
  rw [hlexeme]
  split <;> rfl

/-- An expression on other lines has the same value, or stops for the same reason. -/
theorem Expr.evaluate_mapLine (e : Expr) (scope : Int) (arena : Arena) :
    (e.mapLine g).evaluate scope arena = (e.evaluate scope arena).mapLine g := by
  induction e generalizing arena with
  | absent | literal | call | get | set | super | receiver => rfl
  | grouping inner ih => exact ih arena
  | name n =>
    simp only [Expr.mapLine, Expr.evaluate, Arena.get_mapLine]
    rfl
  | assign n value ih =>
    simp only [Expr.mapLine, Expr.evaluate, ih]
    obtain ⟨result, arena⟩ := value.evaluate scope arena
    cases result with
    | error stop => rfl
    | ok v =>
      simp only [Evaluated.mapLine, mapError_ok, Arena.assign_mapLine]
      cases arena.assign scope n v <;> rfl
  | unary operator right ih =>
    simp only [Expr.mapLine, Expr.evaluate, ih]
    obtain ⟨result, arena⟩ := right.evaluate scope arena
    cases result with
    | error stop => rfl
    | ok v =>
      simp only [applyUnary_mapLine, ← Evaluated.ofApplied_mapLine]
      rfl
  | logical left operator right ihl ihr =>
    simp only [Expr.mapLine, Expr.evaluate, ihl, ihr]
    obtain ⟨result, arena⟩ := left.evaluate scope arena
    cases result with
    | error stop => rfl
    | ok v =>
      have hdecides : decides (operator.mapLine g) v = decides operator v := rfl
      simp only [Evaluated.mapLine, mapError_ok, hdecides]
      split <;> rfl
  | binary left operator right ihl ihr =>
    simp only [Expr.mapLine, Expr.evaluate, ihl, ihr]
    obtain ⟨result, arena⟩ := left.evaluate scope arena
    cases result with
    | error stop => rfl
    | ok l =>
      simp only [Evaluated.mapLine, mapError_ok]
      obtain ⟨result, arena⟩ := right.evaluate scope arena
      cases result with
      | error stop => rfl
      | ok r =>
        simp only [applyBinary_mapLine]
        exact Evaluated.ofApplied_mapLine g arena _

/-- An expression on other lines is evaluated alike on a machine. -/
theorem Machine.evaluate_mapLine (m : Machine) (e : Expr) :
    m.evaluate (e.mapLine g) =
      ((m.evaluate e).1.mapError (Stop.mapLine g), (m.evaluate e).2) := by
  simp only [Machine.evaluate, Expr.evaluate_mapLine, Evaluated.mapLine]

/-- Binding a name has no error that names a line. -/
theorem Machine.define_mapLine (m : Machine) (n : Text) (value : Option Value) :
    (m.define n value).mapLine g = m.define n value := by
  unfold Machine.define Arena.define
  cases m.arena.scope? m.current <;> rfl

/-- A run in two parts is on other lines if both parts are. -/
theorem Ran.andThen_mapLine (r : Ran) (next : Machine → Ran) :
    (r.mapLine g).andThen (fun m => (next m).mapLine g) = (r.andThen next).mapLine g := by
  obtain ⟨stop, m, effects⟩ := r
  cases stop <;> rfl

/-- A run on other lines was cut off if it was. -/
theorem Ran.finished_mapLine_iff {r : Ran} : (r.mapLine g).Finished ↔ r.Finished := by
  obtain ⟨stop, m, effects⟩ := r
  match stop with
  | none | some (.fault _) | some .unfinished => rfl
  | some (.error e) => exact ⟨fun _ => nofun, fun _ => nofun⟩

/-- A loop on other lines runs alike. -/
theorem repeatWhile_mapLine (condition : Expr) (body : Machine → Ran) (rounds : Nat)
    (m : Machine) :
    repeatWhile (condition.mapLine g) (fun m => (body m).mapLine g) rounds m =
      (repeatWhile condition body rounds m).mapLine g := by
  induction rounds generalizing m with
  | zero => rfl
  | succ n ih =>
    have hrest : repeatWhile (condition.mapLine g) (fun m => (body m).mapLine g) n =
        fun m => (repeatWhile condition body n m).mapLine g := funext ih
    simp only [repeatWhile, Machine.evaluate_mapLine, hrest, Ran.andThen_mapLine]
    obtain ⟨result, m⟩ := m.evaluate condition
    cases result with
    | error stop => rfl
    | ok v =>
      simp only [mapError_ok]
      split <;> rfl

/-- Code on other lines is carried out alike, and stops for the same reason if it stops. -/
theorem Code.execute_mapLine (settings : Settings) (c : Code) (m : Machine) :
    (c.mapLine g).execute settings m = (c.execute settings m).mapLine g := by
  induction c generalizing m with
  | absent | classDecl | functionDecl | returning | nil => rfl
  | expression e =>
    simp only [Code.mapLine, Code.execute, Stmt.mapLine, Stmt.execute, Machine.evaluate_mapLine]
    obtain ⟨result, m⟩ := m.evaluate e
    cases result <;> rfl
  | print keyword e =>
    simp only [Code.mapLine, Code.execute, Stmt.mapLine, Stmt.execute, Machine.evaluate_mapLine]
    obtain ⟨result, m⟩ := m.evaluate e
    cases result with
    | error stop => rfl
    | ok v => cases v <;> rfl
  | var n e =>
    simp only [Code.mapLine, Code.execute, Stmt.mapLine, Stmt.execute, Machine.evaluate_mapLine,
      Expr.isPresent_mapLine]
    obtain ⟨result, m'⟩ := m.evaluate e
    split
    · cases result with
      | error stop => rfl
      | ok v => exact (Machine.define_mapLine g m' n.lexeme v).symm
    · rfl
  | block body ih =>
    simp only [Code.mapLine, Code.execute] at ih
    simp only [Code.mapLine, Code.execute, Stmt.mapLine, Stmt.execute, inScope, ih]
    rfl
  | conditional keyword condition thenBranch elseBranch ihthen ihelse =>
    simp only [Code.mapLine, Code.execute] at ihthen ihelse
    simp only [Code.mapLine, Code.execute, Stmt.mapLine, Stmt.execute, Machine.evaluate_mapLine,
      Stmt.isPresent_mapLine, ihthen, ihelse]
    obtain ⟨result, m⟩ := m.evaluate condition
    cases result with
    | error stop => rfl
    | ok v =>
      simp only [mapError_ok]
      split
      · rfl
      · split <;> rfl
  | loop keyword condition body ih =>
    simp only [Code.mapLine, Code.execute] at ih
    simp only [Code.mapLine, Code.execute, Stmt.mapLine, Stmt.execute, ih]
    exact repeatWhile_mapLine g condition _ settings.rounds m
  | cons s rest ihs ihrest =>
    simp only [Code.mapLine, Code.execute] at ihs ihrest
    simp only [Code.mapLine, Code.execute, Stmt.mapLines, executeAll, ihs, ihrest]
    exact Ran.andThen_mapLine g _ _

/-- Statements on other lines are carried out alike, and stop for the same reason if they
stop. -/
theorem executeAll_mapLine (settings : Settings) (program : List Stmt) (m : Machine) :
    executeAll settings (program.map (Stmt.mapLine g)) m =
      (executeAll settings program m).mapLine g := by
  rw [← Stmt.mapLines_eq_map]
  exact Code.execute_mapLine g settings (.row program) m

end Lox
