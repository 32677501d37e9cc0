import Lox.Proofs.Lines
import Lox.Proofs.Reading

/-!
# Lines have no influence on reading

Which step is taken for a token depends on its kind and never on its line. Tokens on other lines
are read into the same trees with their tokens on these lines, and an error names the line of
the token at which it is found.
-/

namespace Lox

/-- The error of grammar on another line. -/
def GrammarError.mapLine (g : Int → Int) (e : GrammarError) : GrammarError :=
  { e with line := g e.line }

/-- What waits for an operand, on other lines. -/
def Pending.mapLine (g : Int → Int) : Pending → Pending
  | unary operator => unary (operator.mapLine g)
  | binary left operator => binary (left.mapLine g) (operator.mapLine g)
  | assign target equals => assign (target.mapLine g) (equals.mapLine g)
  | group => group

/-- What an expression is for, on other lines. -/
def Place.mapLine (g : Int → Int) : Place → Place
  | statement => statement
  | printed keyword => printed (keyword.mapLine g)
  | initializer name => initializer (name.mapLine g)
  | ifCondition keyword => ifCondition (keyword.mapLine g)
  | whileCondition keyword => whileCondition (keyword.mapLine g)
  | forCondition keyword init => forCondition (keyword.mapLine g) (init.map (Stmt.mapLine g))
  | forStep keyword init condition =>
    forStep (keyword.mapLine g) (init.map (Stmt.mapLine g)) (condition.map (Expr.mapLine g))

/-- The clauses of a `for` on other lines. -/
def ForClauses.mapLine (g : Int → Int) (clauses : ForClauses) : ForClauses :=
  ⟨clauses.keyword.mapLine g, clauses.init.map (Stmt.mapLine g),
    clauses.condition.map (Expr.mapLine g), clauses.step.map (Expr.mapLine g)⟩

/-- A construct that waits for a statement, on other lines. -/
def Outer.mapLine (g : Int → Int) : Outer → Outer
  | block body => block (Stmt.mapLines g body)
  | thenBranch keyword condition => thenBranch (keyword.mapLine g) (condition.mapLine g)
  | elseBranch keyword condition s =>
    elseBranch (keyword.mapLine g) (condition.mapLine g) (s.mapLine g)
  | whileBody keyword condition => whileBody (keyword.mapLine g) (condition.mapLine g)
  | forInit keyword => forInit (keyword.mapLine g)
  | forBody clauses => forBody (clauses.mapLine g)

/-- What has to come next, on other lines. -/
def Goal.mapLine (g : Int → Int) : Goal → Goal
  | declaration => declaration
  | statement => statement
  | operand pending place => operand (pending.map (Pending.mapLine g)) (place.mapLine g)
  | operator value pending place =>
    operator (value.mapLine g) (pending.map (Pending.mapLine g)) (place.mapLine g)
  | varName => varName
  | varEnd name => varEnd (name.mapLine g)
  | ifParen keyword => ifParen (keyword.mapLine g)
  | whileParen keyword => whileParen (keyword.mapLine g)
  | forParen keyword => forParen (keyword.mapLine g)
  | forInit keyword => forInit (keyword.mapLine g)
  | forCondition keyword init => forCondition (keyword.mapLine g) (init.map (Stmt.mapLine g))
  | forStep keyword init condition =>
    forStep (keyword.mapLine g) (init.map (Stmt.mapLine g)) (condition.map (Expr.mapLine g))

/-- The mode of reading on other lines. -/
def Mode.mapLine (g : Int → Int) : Mode → Mode
  | expecting goal => expecting (goal.mapLine g)
  | complete s => complete (s.mapLine g)
  | skipping previous => skipping (previous.mapLine g)

/-- A reading of tokens on other lines. -/
def Reading.mapLine (g : Int → Int) (r : Reading) : Reading :=
  ⟨r.outer.map (Outer.mapLine g), r.mode.mapLine g, r.program.map (Stmt.mapLine g),
    r.errors.map (GrammarError.mapLine g)⟩

variable (g : Int → Int)

/-- The node of an operator between operands on other lines. -/
theorem Expr.infixNode_mapLine (left : Expr) (operator : Token) (right : Expr) :
    (left.mapLine g).infixNode (operator.mapLine g) (right.mapLine g) =
      (left.infixNode operator right).mapLine g := by
  have hkind : (operator.mapLine g).kind = operator.kind := rfl
  unfold Expr.infixNode
  rw [hkind]
  split <;> rfl

/-- A `for` on other lines. -/
theorem ForClauses.desugar_mapLine (clauses : ForClauses) (body : Stmt) :
    (clauses.mapLine g).desugar (body.mapLine g) = (clauses.desugar body).mapLine g := by
  obtain ⟨keyword, init, condition, step⟩ := clauses
  cases init <;> cases condition <;> cases step <;> rfl

namespace Reading

variable (r : Reading) (t : Token)

/-- A failure names the line of its token. -/
theorem fail_mapLine (cause : GrammarCause) :
    (r.mapLine g).fail (t.mapLine g) cause = (r.fail t cause).mapLine g := by
  simp only [fail, mapLine, List.map_append]
  rfl

/-- The operators that wait for an operand take it on any line. -/
theorem reduce_mapLine (level : Nat) (value : Expr) (pending : List Pending) :
    reduce level (value.mapLine g) (pending.map (Pending.mapLine g)) =
      ((reduce level value pending).1.mapLine g,
        (reduce level value pending).2.map (Pending.mapLine g)) := by
  induction pending generalizing value with
  | nil => rfl
  | cons p rest ih =>
    cases p with
    | unary operator => exact ih (.unary operator value)
    | binary left operator =>
      have hkind : (operator.mapLine g).kind = operator.kind := rfl
      simp only [List.map_cons, Pending.mapLine, reduce, hkind, Expr.infixNode_mapLine, ih]
      split <;> rfl
    | assign | group => rfl

/-- A whole expression is closed alike on any line. -/
theorem close_mapLine (value : Expr) (pending : List Pending) :
    close (value.mapLine g) (pending.map (Pending.mapLine g)) =
      ((close value pending).1.mapLine g, (close value pending).2.1.map (Pending.mapLine g),
        (close value pending).2.2.map (GrammarError.mapLine g)) := by
  induction pending generalizing value with
  | nil => rfl
  | cons p rest ih =>
    cases p with
    | unary operator => exact ih (.unary operator value)
    | binary left operator =>
      simp only [List.map_cons, Pending.mapLine, close, Expr.infixNode_mapLine, ih]
    | assign target equals =>
      have htarget := ih target
      cases target with
      | name n => exact ih (.assign n value)
      | _ =>
        simp only [Expr.mapLine] at htarget
        simp only [List.map_cons, Pending.mapLine, Expr.mapLine, close, htarget]
        rfl
    | group => rfl

/-- A token where an operand has to come is taken alike on any line. -/
theorem shiftOperand_mapLine (pending : List Pending) (place : Place) :
    (r.mapLine g).shiftOperand (pending.map (Pending.mapLine g)) (place.mapLine g)
      (t.mapLine g) = (r.shiftOperand pending place t).mapLine g := by
  have hkind : (t.mapLine g).kind = t.kind := rfl
  unfold shiftOperand
  rw [hkind]
  split
  case h_10 => exact fail_mapLine g r t _
  all_goals rfl

/-- A token after a whole expression is taken alike on any line. -/
theorem shiftEnd_mapLine (e : Expr) (place : Place) :
    (r.mapLine g).shiftEnd (e.mapLine g) (place.mapLine g) (t.mapLine g) =
      (r.shiftEnd e place t).mapLine g := by
  have hkind : (t.mapLine g).kind = t.kind := rfl
  cases place
  all_goals
    simp only [Place.mapLine, shiftEnd, hkind]
    split
    · rfl
    · exact fail_mapLine g r t _

/-- A token after an operand is taken alike on any line. -/
theorem shiftOperator_mapLine (e : Expr) (pending : List Pending) (place : Place) :
    (r.mapLine g).shiftOperator (e.mapLine g) (pending.map (Pending.mapLine g))
      (place.mapLine g) (t.mapLine g) = (r.shiftOperator e pending place t).mapLine g := by
  have hkind : (t.mapLine g).kind = t.kind := rfl
  simp only [shiftOperator, hkind, reduce_mapLine, close_mapLine]
  split
  · rfl
  · split
    · rfl
    · obtain ⟨whole, rest, errors⟩ := close e pending
      have herrors : { r.mapLine g with
            errors := (r.mapLine g).errors ++ errors.map (GrammarError.mapLine g) } =
          { r with errors := r.errors ++ errors }.mapLine g := by
        simp only [mapLine, List.map_append]
      dsimp only
      rw [herrors]
      cases rest with
      | nil => exact shiftEnd_mapLine g _ t whole place
      | cons p rest =>
        simp only [List.map_cons]
        split
        · rfl
        · exact fail_mapLine g _ t _

/-- A token where a statement has to come is taken alike on any line. -/
theorem shiftStatement_mapLine :
    (r.mapLine g).shiftStatement (t.mapLine g) = (r.shiftStatement t).mapLine g := by
  have hkind : (t.mapLine g).kind = t.kind := rfl
  unfold shiftStatement
  rw [hkind]
  split
  case h_6 => exact shiftOperand_mapLine g r t [] .statement
  all_goals rfl

/-- Where a declaration may come, a token starts a statement unless it starts a declaration
of a variable or ends what encloses it. -/
theorem shiftDeclaration_of_ne (hvar : t.kind ≠ .word .var)
    (hbrace : t.kind ≠ .sign .rightBrace) (heof : t.kind ≠ .eof) :
    r.shiftDeclaration t = r.shiftStatement t := by
  unfold shiftDeclaration
  split
  · contradiction
  · contradiction
  · contradiction
  · contradiction
  · rfl

/-- A token where a declaration may come is taken alike on any line. -/
theorem shiftDeclaration_mapLine :
    (r.mapLine g).shiftDeclaration (t.mapLine g) = (r.shiftDeclaration t).mapLine g := by
  have hkind : (t.mapLine g).kind = t.kind := rfl
  have hstatement := shiftStatement_mapLine g r t
  by_cases hvar : t.kind = .word .var
  · simp only [shiftDeclaration, hkind, hvar]
    rfl
  by_cases hbrace : t.kind = .sign .rightBrace
  · obtain ⟨outer, mode, program, errors⟩ := r
    simp only [shiftDeclaration, hkind, hbrace]
    cases outer with
    | nil => exact hstatement
    | cons o outer =>
      cases o with
      | block body => rfl
      | _ => exact hstatement
  by_cases heof : t.kind = .eof
  · have hfail := fail_mapLine g r t .braceAfterBlock
    obtain ⟨outer, mode, program, errors⟩ := r
    simp only [shiftDeclaration, hkind, heof]
    cases outer with
    | nil => rfl
    | cons o outer => exact hfail
  rw [shiftDeclaration_of_ne r t hvar hbrace heof,
    shiftDeclaration_of_ne (r.mapLine g) (t.mapLine g) hvar hbrace heof, hstatement]

/-- A token where something definite has to come is taken alike on any line. -/
theorem shift_mapLine (goal : Goal) :
    (r.mapLine g).shift (goal.mapLine g) (t.mapLine g) = (r.shift goal t).mapLine g := by
  have hkind : (t.mapLine g).kind = t.kind := rfl
  cases goal with
  | declaration => exact shiftDeclaration_mapLine g r t
  | statement => exact shiftStatement_mapLine g r t
  | operand pending place => exact shiftOperand_mapLine g r t pending place
  | operator e pending place => exact shiftOperator_mapLine g r t e pending place
  | varEnd name =>
    simp only [Goal.mapLine, shift, hkind]
    split
    case h_3 => exact fail_mapLine g r t _
    all_goals rfl
  | forInit k =>
    simp only [Goal.mapLine, shift, hkind]
    split
    case h_3 =>
      exact shiftOperand_mapLine g { r with outer := .forInit k :: r.outer } t [] .statement
    all_goals rfl
  | forCondition k init =>
    simp only [Goal.mapLine, shift, hkind]
    split
    · rfl
    · exact shiftOperand_mapLine g r t [] (.forCondition k init)
  | forStep k init condition =>
    simp only [Goal.mapLine, shift, hkind]
    split
    · rfl
    · exact shiftOperand_mapLine g r t [] (.forStep k init condition)
  | varName | ifParen | whileParen | forParen =>
    simp only [Goal.mapLine, shift, hkind]
    split
    · rfl
    · exact fail_mapLine g r t _

/-- A statement goes to the same construct on any line. -/
theorem conclude_mapLine (s : Stmt) (outer : List Outer) :
    (r.mapLine g).conclude (s.mapLine g) (outer.map (Outer.mapLine g)) =
      ((r.conclude s outer).1.mapLine g, (r.conclude s outer).2.mapLine g) := by
  induction outer generalizing s with
  | nil =>
    simp only [List.map_nil, conclude, mapLine, List.map_append]
    rfl
  | cons o outer ih =>
    cases o with
    | block body =>
      simp only [List.map_cons, Outer.mapLine, conclude, mapLine, Stmt.mapLines_eq_map,
        List.map_append]
      rfl
    | thenBranch keyword condition => exact ih (.conditional keyword condition s .absent)
    | elseBranch keyword condition s' => exact ih (.conditional keyword condition s' s)
    | whileBody keyword condition => exact ih (.loop keyword condition s)
    | forBody clauses =>
      simp only [List.map_cons, Outer.mapLine, conclude, ForClauses.desugar_mapLine, ih]
    | forInit => rfl

/-- An `else` goes to the same conditional on any line. -/
theorem attachElse?_mapLine (s : Stmt) (outer : List Outer) :
    attachElse? (s.mapLine g) (outer.map (Outer.mapLine g)) =
      (attachElse? s outer).map (List.map (Outer.mapLine g)) := by
  induction outer generalizing s with
  | nil => rfl
  | cons o outer ih =>
    cases o with
    | elseBranch keyword condition s' => exact ih (.conditional keyword condition s' s)
    | whileBody keyword condition => exact ih (.loop keyword condition s)
    | forBody clauses =>
      simp only [List.map_cons, Outer.mapLine, attachElse?, ForClauses.desugar_mapLine, ih]
    | block | thenBranch | forInit => rfl

/-- A step is the same on any line. -/
theorem step_mapLine : (r.mapLine g).step (t.mapLine g) = (r.step t).mapLine g := by
  have hkind : (t.mapLine g).kind = t.kind := rfl
  obtain ⟨outer, mode, program, errors⟩ := r
  cases mode with
  | expecting goal => exact shift_mapLine g _ t goal
  | complete s =>
    have hconclude := conclude_mapLine g ⟨outer, .complete s, program, errors⟩ s outer
    have hattach : (if (t.mapLine g).kind = .word .else_ then
          attachElse? (s.mapLine g) (outer.map (Outer.mapLine g)) else none) =
        (if t.kind = .word .else_ then attachElse? s outer else none).map
          (List.map (Outer.mapLine g)) := by
      rw [hkind, attachElse?_mapLine]
      split <;> rfl
    simp only [mapLine, Mode.mapLine] at hconclude
    simp only [step, mapLine, Mode.mapLine, hattach, hconclude]
    cases (if t.kind = .word .else_ then attachElse? s outer else none) with
    | some outer => rfl
    | none => exact shift_mapLine g _ t _
  | skipping previous =>
    have hprevious : (previous.mapLine g).kind = previous.kind := rfl
    simp only [step, mapLine, Mode.mapLine, hkind, hprevious]
    split
    · exact shift_mapLine g ⟨outer, .skipping previous, program, errors⟩ t .declaration
    · rfl

/-- Tokens on other lines are read alike. -/
theorem run_mapLine (ts : List Token) :
    (r.mapLine g).run (ts.map (Token.mapLine g)) = (r.run ts).mapLine g := by
  induction ts generalizing r with
  | nil => rfl
  | cons t rest ih =>
    simp only [run, List.map_cons, List.foldl_cons] at ih ⊢
    rw [step_mapLine, ih]

end Reading

/-- The tokens before the end of a stream on other lines. -/
theorem beforeEnd_mapLine (ts : List Token) :
    beforeEnd (ts.map (Token.mapLine g)) = (beforeEnd ts).map (Token.mapLine g) :=
  List.takeWhile_map

/-- The end token of a stream on other lines. -/
theorem endToken_mapLine {ts : List Token} (hne : ts ≠ []) :
    endToken (ts.map (Token.mapLine g)) = (endToken ts).mapLine g := by
  have hfind : (ts.map (Token.mapLine g)).find? (fun t => t.kind = .eof) =
      (ts.find? fun t => t.kind = .eof).map (Token.mapLine g) := List.find?_map
  obtain ⟨t, ht⟩ := Option.isSome_iff_exists.mp (List.getLast?_isSome.mpr hne)
  unfold endToken
  rw [hfind]
  cases ts.find? fun t => t.kind = .eof with
  | some e => rfl
  | none =>
    simp only [Option.map_none, streamLine, List.getLast?_map, ht, Option.map_some]
    rfl

/-- A stream on other lines is parsed into the same program, or turned down for the same
reasons. -/
theorem parse_mapLine {ts : List Token} (hne : ts ≠ []) :
    parse (ts.map (Token.mapLine g)) =
      ((parse ts).map (List.map (Stmt.mapLine g))).mapError
        (List.map (GrammarError.mapLine g)) := by
  have hrun : Reading.start.run (beforeEnd (ts.map (Token.mapLine g)) ++
      [endToken (ts.map (Token.mapLine g))]) =
        (Reading.start.run (beforeEnd ts ++ [endToken ts])).mapLine g := by
    rw [← Reading.run_mapLine, List.map_append, beforeEnd_mapLine, endToken_mapLine g hne]
    rfl
  unfold parse
  rw [hrun]
  obtain ⟨outer, mode, program, errors⟩ := Reading.start.run (beforeEnd ts ++ [endToken ts])
  cases errors <;> rfl

end Lox
