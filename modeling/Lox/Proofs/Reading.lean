import Lox.Tree.Parse

/-!
# What a step of reading depends on

A token is taken by what has to come, never by the mode as such, and what was read before
is only ever added to: the statements and the errors so far stand in front of those that
further tokens bring, and have no influence on them.
-/

namespace Lox.Reading

section Mode

variable {outer : List Outer} {program : List Stmt} {errors : List GrammarError} {t : Token}

/-- A token where an operand has to come is taken alike in every mode. -/
theorem shiftOperand_mode (mode mode' : Mode) (pending : List Pending) (place : Place) :
    shiftOperand ⟨outer, mode, program, errors⟩ pending place t =
      shiftOperand ⟨outer, mode', program, errors⟩ pending place t := by
  unfold shiftOperand
  split <;> rfl

/-- A token where a statement has to come is taken alike in every mode. -/
theorem shiftStatement_mode (mode mode' : Mode) :
    shiftStatement ⟨outer, mode, program, errors⟩ t =
      shiftStatement ⟨outer, mode', program, errors⟩ t := by
  unfold shiftStatement
  split
  case h_6 => exact shiftOperand_mode _ _ _ _
  all_goals rfl

/-- A token where a declaration may come is taken alike in every mode. -/
theorem shiftDeclaration_mode (mode mode' : Mode) :
    shiftDeclaration ⟨outer, mode, program, errors⟩ t =
      shiftDeclaration ⟨outer, mode', program, errors⟩ t := by
  simp only [shiftDeclaration]
  split
  case h_5 => exact shiftStatement_mode _ _
  all_goals rfl

/-- A token after a whole expression is taken alike in every mode. -/
theorem shiftEnd_mode (mode mode' : Mode) (e : Expr) (place : Place) :
    shiftEnd ⟨outer, mode, program, errors⟩ e place t =
      shiftEnd ⟨outer, mode', program, errors⟩ e place t := by
  cases place <;> simp only [shiftEnd] <;> split <;> rfl

end Mode

/-- The reading with statements and errors in front of its own. -/
def after (program : List Stmt) (errors : List GrammarError) (r : Reading) : Reading :=
  { r with program := program ++ r.program, errors := errors ++ r.errors }

section After

variable (program : List Stmt) (errors : List GrammarError) (r : Reading) (t : Token)

/-- A failure comes after the errors before. -/
theorem fail_after (cause : GrammarCause) :
    (r.after program errors).fail t cause = (r.fail t cause).after program errors := by
  simp only [fail, after, List.append_assoc]

/-- What came before has no influence where an operand has to come. -/
theorem shiftOperand_after (pending : List Pending) (place : Place) :
    (r.after program errors).shiftOperand pending place t =
      (r.shiftOperand pending place t).after program errors := by
  unfold shiftOperand
  split
  case h_10 => exact fail_after program errors r t _
  all_goals rfl

/-- What came before has no influence after a whole expression. -/
theorem shiftEnd_after (e : Expr) (place : Place) :
    (r.after program errors).shiftEnd e place t =
      (r.shiftEnd e place t).after program errors := by
  cases place
  all_goals
    simp only [shiftEnd]
    split
    · rfl
    · exact fail_after program errors r t _

/-- What came before has no influence after an operand. -/
theorem shiftOperator_after (e : Expr) (pending : List Pending) (place : Place) :
    (r.after program errors).shiftOperator e pending place t =
      (r.shiftOperator e pending place t).after program errors := by
  have herrors (faults : List GrammarError) :
      { r.after program errors with errors := (r.after program errors).errors ++ faults } =
        { r with errors := r.errors ++ faults }.after program errors := by
    simp only [after, List.append_assoc]
  simp only [shiftOperator]
  split
  · rfl
  · split
    · rfl
    · rw [herrors]
      split
      · exact shiftEnd_after program errors _ t _ _
      · split
        · rfl
        · exact fail_after program errors _ t _

/-- What came before has no influence where a statement has to come. -/
theorem shiftStatement_after :
    (r.after program errors).shiftStatement t = (r.shiftStatement t).after program errors := by
  unfold shiftStatement
  split
  case h_6 => exact shiftOperand_after program errors r t _ _
  all_goals rfl

/-- What came before has no influence where a declaration may come. -/
theorem shiftDeclaration_after :
    (r.after program errors).shiftDeclaration t = (r.shiftDeclaration t).after program errors := by
  have houter : (r.after program errors).outer = r.outer := rfl
  unfold shiftDeclaration
  rw [houter]
  split
  case h_4 => exact fail_after program errors r t _
  case h_5 => exact shiftStatement_after program errors r t
  all_goals rfl

/-- What came before has no influence where something definite has to come. -/
theorem shift_after (goal : Goal) :
    (r.after program errors).shift goal t = (r.shift goal t).after program errors := by
  cases goal with
  | declaration => exact shiftDeclaration_after program errors r t
  | statement => exact shiftStatement_after program errors r t
  | operand pending place => exact shiftOperand_after program errors r t pending place
  | operator e pending place => exact shiftOperator_after program errors r t e pending place
  | varEnd name =>
    simp only [shift]
    split
    case h_3 => exact fail_after program errors r t _
    all_goals rfl
  | forInit k =>
    simp only [shift]
    split
    case h_3 =>
      exact shiftOperand_after program errors { r with outer := .forInit k :: r.outer } t _ _
    all_goals rfl
  | forCondition | forStep =>
    simp only [shift]
    split
    · rfl
    · exact shiftOperand_after program errors r t _ _
  | varName | ifParen | whileParen | forParen =>
    simp only [shift]
    split
    · rfl
    · exact fail_after program errors r t _

/-- A statement goes to the same construct whatever came before. -/
theorem conclude_after (s : Stmt) (outer : List Outer) :
    (r.after program errors).conclude s outer =
      ((r.conclude s outer).1.after program errors, (r.conclude s outer).2) := by
  fun_induction conclude r s outer with
  | case1 => simp only [conclude, after, List.append_assoc]
  | case2 | case7 => rfl
  | case3 _ _ _ _ ih | case4 _ _ _ _ _ ih | case5 _ _ _ _ ih | case6 _ _ _ ih => exact ih

/-- What came before has no influence on a step. -/
theorem step_after :
    (r.after program errors).step t = (r.step t).after program errors := by
  have houter : (r.after program errors).outer = r.outer := rfl
  have hmode : (r.after program errors).mode = r.mode := rfl
  unfold step
  rw [houter, hmode]
  split
  · exact shift_after program errors r t _
  · split
    · rfl
    · rw [conclude_after]
      exact shift_after program errors _ t _
  · split
    · exact shift_after program errors r t _
    · rfl

/-- What came before has no influence on further reading. -/
theorem run_after (ts : List Token) :
    (r.after program errors).run ts = (r.run ts).after program errors := by
  induction ts generalizing r with
  | nil => rfl
  | cons t rest ih =>
    simp only [run, List.foldl_cons] at ih ⊢
    rw [step_after, ih]

end After

/-- A statement goes to its construct without an error. -/
theorem errors_conclude (r : Reading) (s : Stmt) (outer : List Outer) :
    (r.conclude s outer).1.errors = r.errors := by
  fun_induction conclude r s outer with
  | case1 | case2 | case7 => rfl
  | case3 _ _ _ _ ih | case4 _ _ _ _ _ ih | case5 _ _ _ _ ih | case6 _ _ _ ih => exact ih

/-- A reading is one without statements and errors after what came before. -/
theorem eq_after (r : Reading) :
    r = (⟨r.outer, r.mode, [], []⟩ : Reading).after r.program r.errors := by
  simp only [after, List.append_nil]

/-- Reading never takes an error back. -/
theorem errors_prefix_run (r : Reading) (ts : List Token) : r.errors <+: (r.run ts).errors := by
  have hrun := run_after r.program r.errors ⟨r.outer, r.mode, [], []⟩ ts
  rw [← eq_after] at hrun
  rw [hrun]
  exact List.prefix_append _ _

end Lox.Reading
