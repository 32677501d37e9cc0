import Lox.Proofs.Grammar
import Lox.Proofs.Reading

/-!
# What the grammar derives is read

Every derivation can be followed by reading its tokens. An operand that is read may
stand for a larger expression together with the operators that wait for it, and a
complete statement for a larger one together with the constructs around it; both are
joined only when a later token asks for it. The lemmas here say what such a pair
stands for, and that a derived stretch of tokens leads to a pair that stands for its
tree, with the errors of its faults and no others.
-/

namespace Lox.Grammar

open Reading

/-- How tightly a category binds. -/
def Category.rank : Category → Nat
  | assignment => 0
  | logicOr => 1
  | logicAnd => 2
  | equality => 3
  | comparison => 4
  | term => 5
  | factor => 6
  | unary => 7
  | primary => 8

/-- The operators of a category have its rank as their level. -/
theorem Category.level_of_mem {c : Category} {k : Kind} (h : k ∈ c.operators) :
    k.level = c.rank := by
  cases c <;> simp only [operators, List.mem_cons, List.not_mem_nil, or_false] at h
  all_goals rcases h with rfl | rfl | rfl | rfl <;> rfl

/-- Only the categories between assignments and operators in front have operators. -/
theorem Category.rank_of_mem {c : Category} {k : Kind} (h : k ∈ c.operators) :
    0 < c.rank ∧ c.rank ≤ 6 := by
  cases c <;> simp only [operators, List.not_mem_nil] at h <;> decide

/-- The next tighter category has the next rank, up to the last. -/
theorem Category.rank_tighter (c : Category) : c.tighter.rank = min (c.rank + 1) 8 := by
  cases c <;> rfl

/-- The node of an operator is the one that reading builds. -/
theorem Category.node_eq_infixNode {c : Category} {op : Token} (h : op.kind ∈ c.operators)
    (e e' : Expr) : c.node e op e' = e.infixNode op e' := by
  obtain ⟨kind, lexeme, literal, line⟩ := op
  cases c <;> simp only [operators, List.mem_cons, List.not_mem_nil, or_false] at h
  all_goals rcases h with rfl | rfl | rfl | rfl <;> rfl

/-- The desugaring of a `for` is the tree that its rule builds. -/
theorem desugar_eq_forTree (k : Token) (init : Option Stmt) (condition step : Option Expr)
    (body : Stmt) :
    (ForClauses.mk k init condition step).desugar body = forTree k init condition step body := by
  cases init <;> cases step <;> rfl

/-- The error of an equals sign that follows something other than a variable. -/
def invalidTarget (equals : Token) : GrammarError := ⟨.invalidTarget, equals.line⟩

/-- What waits for an operand binds less tightly than a level. -/
def Loose (level : Nat) : List Pending → Prop
  | .unary _ :: _ => False
  | .binary _ op :: _ => op.kind.level < level
  | _ => True

/-- Nothing is joined to what binds less tightly. -/
theorem reduce_of_loose {level : Nat} {pending : List Pending} (h : Loose level pending)
    (e : Expr) : reduce level e pending = (e, pending) := by
  match pending with
  | [] | .group :: _ | .assign _ _ :: _ => simp only [reduce]
  | .binary l op :: rest =>
    have hl : ¬level ≤ op.kind.level := Nat.not_le.mpr h
    simp only [reduce, if_neg hl]

/-- What binds less tightly than a level does so for every higher one. -/
theorem Loose.mono {m n : Nat} {pending : List Pending} (h : Loose m pending) (hmn : m ≤ n) :
    Loose n pending := by
  match pending with
  | [] | .group :: _ | .assign _ _ :: _ => trivial
  | .binary l op :: rest => exact Nat.lt_of_lt_of_le h hmn

/-- A whole expression with further errors in front of those it has. -/
def withErrors (errors : List GrammarError) (closed : Expr × List Pending × List GrammarError) :
    Expr × List Pending × List GrammarError :=
  (closed.1, closed.2.1, errors ++ closed.2.2)

/-- An operand `v` with what waits for it, `pending'`, stands for the expression `e` of a
category with `pending`: the two become the same whole expression, the first with the
errors of some faults that are not yet reported, and up to the rank of the category the
same operators join them. -/
structure Stands (c : Category) (e : Expr) (pending : List Pending) (faults : List Token)
    (v : Expr) (pending' : List Pending) : Prop where
  /-- The whole expressions agree. -/
  close_eq : close v pending' = withErrors (faults.map invalidTarget) (close e pending)
  /-- Faults outside parentheses are left only by assignments. -/
  faults_eq : 0 < c.rank → faults = []
  /-- Operators join the two in the same way. -/
  reduce_eq : 0 < c.rank → ∀ m, m ≤ c.rank → reduce m v pending' = reduce m e pending

/-- An expression stands for itself. -/
theorem Stands.refl (c : Category) (e : Expr) (pending : List Pending) :
    Stands c e pending [] e pending :=
  ⟨rfl, fun _ => rfl, fun _ _ _ => rfl⟩

/-- An assignment to something that is no variable closes with its error and without its
value. -/
theorem close_misassign {target : Expr} (h : ∀ n, target ≠ .name n) (e : Expr) (eq : Token)
    (pending : List Pending) :
    close e (.assign target eq :: pending) =
      withErrors [invalidTarget eq] (close target pending) := by
  cases target with
  | name n => exact absurd rfl (h n)
  | _ => rfl

/-- Where an operand of a category may come, reading tokens leads to an operand that stands
for a tree; the faults are reported or still to be reported. -/
def Reads (c : Category) (ts : List Token) (e : Expr) (f : List Token) : Prop :=
  ∀ (outer : List Outer) (pending : List Pending) (place : Place) (program : List Stmt)
    (errors : List GrammarError), (c.rank ≤ 6 → Loose c.rank pending) →
    ∃ v pending' f₁ f₂, f = f₁ ++ f₂ ∧ Stands c e pending f₂ v pending' ∧
      run ⟨outer, .expecting (.operand pending place), program, errors⟩ ts =
        ⟨outer, .expecting (.operator v pending' place), program, errors ++ f₁.map invalidTarget⟩

/-- A token that is an operand of its own is read as that operand. -/
theorem Reads.of_token {t : Token} {e : Expr}
    (h : ∀ (r : Reading) (pending : List Pending) (place : Place),
      r.shiftOperand pending place t = r.expect (.operator e pending place)) :
    Reads .primary [t] e [] := by
  intro outer pending place program errors _
  refine ⟨e, pending, [], [], rfl, .refl _ _ _, ?_⟩
  simp only [run, List.foldl_cons, List.foldl_nil, step, shift, h, expect, List.map_nil,
    List.append_nil]

/-- Parentheses are read if what they hold is. -/
theorem Reads.grouping {l r : Token} {ts : List Token} {e : Expr} {f : List Token}
    (hl : l.kind = .sign .leftParen) (h : Reads .assignment ts e f)
    (hr : r.kind = .sign .rightParen) : Reads .primary (l :: ts ++ [r]) (.grouping e) f := by
  intro outer pending place program errors _
  obtain ⟨v, pending', f₁, f₂, rfl, hs, hrun⟩ :=
    h outer (.group :: pending) place program errors fun _ => trivial
  have hclose : close v pending' = (e, .group :: pending, f₂.map invalidTarget) := by
    simp only [hs.close_eq, withErrors, close, List.append_nil]
  have hopen : step ⟨outer, .expecting (.operand pending place), program, errors⟩ l =
      ⟨outer, .expecting (.operand (.group :: pending) place), program, errors⟩ := by
    simp only [step, shift, shiftOperand, hl, expect]
  refine ⟨.grouping e, pending, f₁ ++ f₂, [], by rw [List.append_nil], .refl _ _ _, ?_⟩
  rw [List.cons_append, run, List.foldl_cons, hopen, ← run, run_append, hrun]
  simp only [run, List.foldl_cons, List.foldl_nil, step, shift, shiftOperator, hr, hclose,
    Kind.level, expect, Nat.lt_irrefl, if_false, if_true, reduceCtorEq, Kind.sign.injEq,
    List.map_append, List.append_assoc]

/-- An operator in front is read if its operand is. -/
theorem Reads.unary {op : Token} {ts : List Token} {e : Expr} {f : List Token}
    (hop : op.kind = .sign .bang ∨ op.kind = .sign .minus) (h : Reads .unary ts e f) :
    Reads .unary (op :: ts) (.unary op e) f := by
  intro outer pending place program errors _
  obtain ⟨v, pending', f₁, f₂, rfl, hs, hrun⟩ :=
    h outer (.unary op :: pending) place program errors fun h => absurd h (by decide)
  have hopen : step ⟨outer, .expecting (.operand pending place), program, errors⟩ op =
      ⟨outer, .expecting (.operand (.unary op :: pending) place), program, errors⟩ := by
    rcases hop with hop | hop <;> simp only [step, shift, shiftOperand, hop, expect]
  refine ⟨v, pending', f₁, f₂, rfl, ⟨hs.close_eq, hs.faults_eq, hs.reduce_eq⟩, ?_⟩
  rw [run, List.foldl_cons, hopen, ← run, hrun]

/-- An operator between two operands is read if they are. What waits binds less tightly than
the operator, so that the left operand is whole when the operator comes. -/
theorem Reads.operation {c : Category} {op : Token} {ts us : List Token} {e e' : Expr}
    {f g : List Token} (hl : Reads c ts e f) (hop : op.kind ∈ c.operators)
    (hr : Reads c.tighter us e' g) : Reads c (ts ++ op :: us) (c.node e op e') (f ++ g) := by
  intro outer pending place program errors hloose
  obtain ⟨hpos, hle⟩ := Category.rank_of_mem hop
  have hlevel := Category.level_of_mem hop
  have hnode := Category.node_eq_infixNode hop e e'
  have htighter : c.tighter.rank = c.rank + 1 := by
    rw [Category.rank_tighter]
    omega
  obtain ⟨v, pending', f₁, f₂, rfl, hs, hrun⟩ := hl outer pending place program errors hloose
  obtain rfl := hs.faults_eq hpos
  have hreduce : reduce c.rank v pending' = (e, pending) := by
    rw [hs.reduce_eq hpos c.rank (Nat.le_refl _), reduce_of_loose (hloose hle)]
  have hstep : step ⟨outer, .expecting (.operator v pending' place), program,
      errors ++ f₁.map invalidTarget⟩ op =
      ⟨outer, .expecting (.operand (.binary e op :: pending) place), program,
        errors ++ f₁.map invalidTarget⟩ := by
    simp only [step, shift, shiftOperator, hlevel, if_pos hpos, hreduce, expect]
  have hloose' : Loose c.tighter.rank (.binary e op :: pending) := by
    simp only [Loose, hlevel, htighter]
    omega
  obtain ⟨v', pending'', g₁, g₂, rfl, hs', hrun'⟩ :=
    hr outer (.binary e op :: pending) place program (errors ++ f₁.map invalidTarget)
      fun _ => hloose'
  refine ⟨v', pending'', f₁ ++ g₁, g₂, by simp only [List.append_nil, List.append_assoc],
    ⟨?_, ?_, ?_⟩, ?_⟩
  · rw [hs'.close_eq, close, hnode]
  · intro _
    exact hs'.faults_eq (by omega)
  · intro _ m hm
    rw [hs'.reduce_eq (by omega) m (by omega), reduce, if_pos (by omega), hnode]
  · rw [run_append, hrun, run, List.foldl_cons, hstep, ← run, hrun', List.map_append,
      List.append_assoc]

/-- What is read as an expression of a category is read as one of the looser. -/
theorem Reads.single {c : Category} {ts : List Token} {e : Expr} {f : List Token}
    (h : Reads c.tighter ts e f) : Reads c ts e f := by
  intro outer pending place program errors hloose
  have htighter := Category.rank_tighter c
  have hle : c.rank ≤ c.tighter.rank := by cases c <;> decide
  obtain ⟨v, pending', f₁, f₂, hf, hs, hrun⟩ := h outer pending place program errors fun _ =>
    (hloose (by omega)).mono hle
  exact ⟨v, pending', f₁, f₂, hf, ⟨hs.close_eq, fun h => hs.faults_eq (by omega),
    fun h m hm => hs.reduce_eq (by omega) m (by omega)⟩, hrun⟩

/-- An assignment to a variable is read if its value is. -/
theorem Reads.assign {n eq : Token} {ts : List Token} {e : Expr} {f : List Token}
    (hn : n.kind = .identifier) (heq : eq.kind = .sign .equal) (h : Reads .assignment ts e f) :
    Reads .assignment (n :: eq :: ts) (.assign n e) f := by
  intro outer pending place program errors hloose
  obtain ⟨v, pending', f₁, f₂, hf, hs, hrun⟩ :=
    h outer (.assign (.name n) eq :: pending) place program errors fun _ => trivial
  have hreduce : reduce 0 (.name n) pending = (.name n, pending) :=
    reduce_of_loose (hloose (by decide)) (.name n)
  have hopen : run ⟨outer, .expecting (.operand pending place), program, errors⟩ [n, eq] =
      ⟨outer, .expecting (.operand (.assign (.name n) eq :: pending) place), program, errors⟩ := by
    simp only [run, List.foldl_cons, List.foldl_nil, step, shift, shiftOperand, shiftOperator, hn,
      heq, Kind.level, Nat.lt_irrefl, if_false, if_true, expect, hreduce]
  refine ⟨v, pending', f₁, f₂, hf, ⟨hs.close_eq, fun h => absurd h (by decide),
    fun h => absurd h (by decide)⟩, ?_⟩
  rw [show n :: eq :: ts = [n, eq] ++ ts from rfl, run_append, hopen, hrun]

/-- An assignment to something else is read too; its own fault comes last. -/
theorem Reads.misassign {eq : Token} {ts us : List Token} {e e' : Expr} {f g : List Token}
    (hl : Reads .logicOr ts e f) (hn : ∀ n, e ≠ .name n) (heq : eq.kind = .sign .equal)
    (hr : Reads .assignment us e' g) :
    Reads .assignment (ts ++ eq :: us) e (f ++ g ++ [eq]) := by
  intro outer pending place program errors hloose
  have hloose' : Loose 0 pending := hloose (by decide)
  obtain ⟨v, pending', f₁, f₂, rfl, hs, hrun⟩ := hl outer pending place program errors fun _ =>
    hloose'.mono (Nat.zero_le _)
  obtain rfl := hs.faults_eq (by decide)
  have hreduce : reduce 0 v pending' = (e, pending) := by
    rw [hs.reduce_eq (by decide) 0 (Nat.zero_le _), reduce_of_loose hloose']
  have hstep : step ⟨outer, .expecting (.operator v pending' place), program,
      errors ++ f₁.map invalidTarget⟩ eq =
      ⟨outer, .expecting (.operand (.assign e eq :: pending) place), program,
        errors ++ f₁.map invalidTarget⟩ := by
    simp only [step, shift, shiftOperator, heq, Kind.level, Nat.lt_irrefl, if_false, if_true,
      hreduce, expect]
  obtain ⟨v', pending'', g₁, g₂, rfl, hs', hrun'⟩ :=
    hr outer (.assign e eq :: pending) place program (errors ++ f₁.map invalidTarget) fun _ =>
      trivial
  refine ⟨v', pending'', f₁ ++ g₁, g₂ ++ [eq], by simp only [List.append_nil, List.append_assoc],
    ⟨?_, fun h => absurd h (by decide), fun h => absurd h (by decide)⟩, ?_⟩
  · rw [hs'.close_eq, close_misassign hn]
    simp only [withErrors, List.map_append, List.map_cons, List.map_nil, List.append_assoc]
  · rw [run_append, hrun, run, List.foldl_cons, hstep, ← run, hrun', List.map_append,
      List.append_assoc]

/-- Every derived expression is read. -/
theorem Expression.reads {c : Category} {ts : List Token} {e : Expr} {f : List Token}
    (h : Expression c ts e f) : Reads c ts e f := by
  induction h with
  | literal ht =>
    apply Reads.of_token
    intro r pending place
    rcases ht with ht | ht <;> simp only [shiftOperand, ht]
  | trueWord ht | falseWord ht | nilWord ht | «variable» ht =>
    apply Reads.of_token
    intro r pending place
    simp only [shiftOperand, ht]
  | grouping hl _ hr ih => exact ih.grouping hl hr
  | unary hop _ ih => exact ih.unary hop
  | operation _ hop _ ihl ihr => exact ihl.operation hop ihr
  | single _ ih => exact ih.single
  | assign hn heq _ ih => exact ih.assign hn heq
  | misassign _ hn heq _ ihl ihr => exact ihl.misassign hn heq ihr

/-- The kinds at which an expression starts. -/
def operandKinds : List Kind :=
  [.number, .string, .word .true_, .word .false_, .word .nil, .identifier, .sign .leftParen,
    .sign .bang, .sign .minus]

/-- The kinds at which a statement starts. -/
def statementKinds : List Kind :=
  operandKinds ++ [.word .print, .sign .leftBrace, .word .if_, .word .while_, .word .for_]

/-- An expression starts at a token of such a kind. -/
theorem Expression.exists_head {c : Category} {ts : List Token} {e : Expr} {f : List Token}
    (h : Expression c ts e f) : ∃ t rest, ts = t :: rest ∧ t.kind ∈ operandKinds := by
  induction h with
  | literal ht => exact ⟨_, _, rfl, by rcases ht with ht | ht <;> rw [ht] <;> decide⟩
  | trueWord ht | falseWord ht | nilWord ht | «variable» ht =>
    exact ⟨_, _, rfl, by rw [ht]; decide⟩
  | grouping hl => exact ⟨_, _, rfl, by rw [hl]; decide⟩
  | unary hop => exact ⟨_, _, rfl, by rcases hop with hop | hop <;> rw [hop] <;> decide⟩
  | assign hn => exact ⟨_, _, rfl, by rw [hn]; decide⟩
  | single _ ih => exact ih
  | operation _ _ _ ih | misassign _ _ _ _ ih =>
    obtain ⟨t, rest, rfl, ht⟩ := ih
    exact ⟨t, _, rfl, ht⟩

/-- A statement starts at a token of such a kind, a declaration at one or at `var`. -/
theorem Phrase.exists_head {rule : ElseRule} {form : Form} {ts : List Token} {s : Stmt}
    {f : List Token} (h : Phrase rule form ts s f) :
    ∃ t rest, ts = t :: rest ∧ (t.kind ∈ statementKinds ∨
      form = .declaration ∧ t.kind = .word .var) := by
  induction h with
  | var h => cases h with
    | bare hv | initialized hv => exact ⟨_, _, rfl, .inr ⟨rfl, hv⟩⟩
  | statement _ ih =>
    obtain ⟨t, rest, rfl, ht | ⟨hf, -⟩⟩ := ih
    · exact ⟨t, rest, rfl, .inl ht⟩
    · cases hf
  | expression h =>
    obtain ⟨he, -⟩ := h
    obtain ⟨t, rest, rfl, ht⟩ := he.exists_head
    exact ⟨t, _, rfl, .inl (List.mem_append_left _ ht)⟩
  | print hk | block hk | ifThen hk | ifElse hk | whileLoop hk | forLoop hk =>
    exact ⟨_, _, rfl, .inl (by rw [hk]; decide)⟩

/-- Two readings that agree on the first token agree on the whole. -/
theorem run_congr_head {r r' : Reading} {t : Token} {rest : List Token}
    (h : r.step t = r'.step t) : r.run (t :: rest) = r'.run (t :: rest) := by
  simp only [run, List.foldl_cons, h]

section Ends

variable {outer : List Outer} {program : List Stmt} {errors : List GrammarError} {t : Token}

/-- Where a statement has to come, a token that starts an expression starts an expression
statement. -/
theorem step_statement_of_operand (ht : t.kind ∈ operandKinds) :
    step ⟨outer, .expecting .statement, program, errors⟩ t =
      step ⟨outer, .expecting (.operand [] .statement), program, errors⟩ t := by
  simp only [operandKinds, List.mem_cons, List.not_mem_nil, or_false] at ht
  simp only [step, shift]
  rw [shiftOperand_mode (.expecting (.operand [] .statement)) (.expecting .statement)]
  rcases ht with ht | ht | ht | ht | ht | ht | ht | ht | ht <;> simp only [shiftStatement, ht]

/-- Where a declaration may come, a token that starts a statement does so. -/
theorem step_declaration_of_statement (ht : t.kind ∈ statementKinds) :
    step ⟨outer, .expecting .declaration, program, errors⟩ t =
      step ⟨outer, .expecting .statement, program, errors⟩ t := by
  simp only [statementKinds, operandKinds, List.cons_append, List.nil_append, List.mem_cons,
    List.not_mem_nil, or_false] at ht
  simp only [step, shift]
  rw [shiftStatement_mode (.expecting .statement) (.expecting .declaration)]
  rcases ht with ht | ht | ht | ht | ht | ht | ht | ht | ht | ht | ht | ht | ht | ht <;>
    simp only [shiftDeclaration, ht]

/-- Where the first clause of a `for` has to come, a token that starts an expression starts
that clause. -/
theorem step_forInit_of_operand (k : Token) (ht : t.kind ∈ operandKinds) :
    step ⟨outer, .expecting (.forInit k), program, errors⟩ t =
      step ⟨.forInit k :: outer, .expecting (.operand [] .statement), program, errors⟩ t := by
  simp only [operandKinds, List.mem_cons, List.not_mem_nil, or_false] at ht
  simp only [step, shift]
  rw [shiftOperand_mode (.expecting (.operand [] .statement)) (.expecting (.forInit k))]
  rcases ht with ht | ht | ht | ht | ht | ht | ht | ht | ht <;> simp only [ht]

/-- Where the second clause of a `for` may come, so does its expression. -/
theorem step_forCondition_of_operand (k : Token) (init : Option Stmt)
    (ht : t.kind ∈ operandKinds) :
    step ⟨outer, .expecting (.forCondition k init), program, errors⟩ t =
      step ⟨outer, .expecting (.operand [] (.forCondition k init)), program, errors⟩ t := by
  have hn : t.kind ≠ .sign .semicolon := by
    intro h
    rw [h] at ht
    exact absurd ht (by decide)
  simp only [step, shift, if_neg hn]
  exact shiftOperand_mode _ _ _ _

/-- Where the last clause of a `for` may come, so does its expression. -/
theorem step_forStep_of_operand (k : Token) (init : Option Stmt) (condition : Option Expr)
    (ht : t.kind ∈ operandKinds) :
    step ⟨outer, .expecting (.forStep k init condition), program, errors⟩ t =
      step ⟨outer, .expecting (.operand [] (.forStep k init condition)), program, errors⟩ t := by
  have hn : t.kind ≠ .sign .rightParen := by
    intro h
    rw [h] at ht
    exact absurd ht (by decide)
  simp only [step, shift, if_neg hn]
  exact shiftOperand_mode _ _ _ _

/-- A whole expression and the token that ends it are read, and its faults reported. -/
theorem Expression.run_end {ts : List Token} {e : Expr} {f : List Token}
    (h : Expression .assignment ts e f) (place : Place)
    (ht : t.kind = .sign .semicolon ∨ t.kind = .sign .rightParen) :
    run ⟨outer, .expecting (.operand [] place), program, errors⟩ (ts ++ [t]) =
      shiftEnd ⟨outer, .expecting (.operand [] place), program, errors ++ f.map invalidTarget⟩
        e place t := by
  obtain ⟨v, pending', f₁, f₂, rfl, hs, hrun⟩ :=
    h.reads outer [] place program errors fun _ => trivial
  have hclose : close v pending' = (e, [], f₂.map invalidTarget) := by
    simp only [hs.close_eq, withErrors, close, List.append_nil]
  have hlevel : t.kind.level = 0 := by rcases ht with ht | ht <;> rw [ht] <;> rfl
  have hequal : t.kind ≠ .sign .equal := by rcases ht with ht | ht <;> rw [ht] <;> decide
  rw [run_append, hrun, shiftEnd_mode (.expecting (.operand [] place))
    (.expecting (.operator v pending' place))]
  simp only [run, List.foldl_cons, List.foldl_nil, step, shift, shiftOperator, hlevel,
    Nat.lt_irrefl, if_false, if_neg hequal, hclose, List.map_append, List.append_assoc]

end Ends

/-- A complete statement `s` inside `outer` stands for the statement `s'` inside `outer'`:
the constructs between them end with it. The flag tells whether one of them is a conditional
that could still take an alternative. -/
inductive Unwinds : Bool → Stmt → List Outer → Stmt → List Outer → Prop
  | refl {s : Stmt} {outer : List Outer} : Unwinds false s outer s outer
  | thenBranch {d : Bool} {k : Token} {c : Expr} {s s' : Stmt} {outer outer' : List Outer}
      (h : Unwinds d (.conditional k c s .absent) outer s' outer') :
      Unwinds true s (.thenBranch k c :: outer) s' outer'
  | elseBranch {d : Bool} {k : Token} {c : Expr} {s s' t : Stmt} {outer outer' : List Outer}
      (h : Unwinds d (.conditional k c t s) outer s' outer') :
      Unwinds d s (.elseBranch k c t :: outer) s' outer'
  | whileBody {d : Bool} {k : Token} {c : Expr} {s s' : Stmt} {outer outer' : List Outer}
      (h : Unwinds d (.loop k c s) outer s' outer') :
      Unwinds d s (.whileBody k c :: outer) s' outer'
  | forBody {d : Bool} {clauses : ForClauses} {s s' : Stmt} {outer outer' : List Outer}
      (h : Unwinds d (clauses.desugar s) outer s' outer') :
      Unwinds d s (.forBody clauses :: outer) s' outer'

namespace Unwinds

variable {d d' : Bool} {s s' s'' : Stmt} {outer outer' outer'' : List Outer}

/-- What stands for a statement that stands for a third stands for the third. -/
theorem trans (h : Unwinds d s outer s' outer') (h' : Unwinds d' s' outer' s'' outer'') :
    Unwinds (d || d') s outer s'' outer'' := by
  induction h with
  | refl => exact h'
  | thenBranch _ ih => exact .thenBranch (ih h')
  | elseBranch _ ih => exact .elseBranch (ih h')
  | whileBody _ ih => exact .whileBody (ih h')
  | forBody _ ih => exact .forBody (ih h')

/-- Both go to the same construct. -/
theorem conclude_eq (h : Unwinds d s outer s' outer') (r : Reading) :
    r.conclude s outer = r.conclude s' outer' := by
  induction h with
  | refl => rfl
  | thenBranch _ ih | elseBranch _ ih | whileBody _ ih | forBody _ ih => rw [conclude, ih]

/-- If no conditional between them waits for it, an `else` belongs to the same one. -/
theorem attachElse?_eq (h : Unwinds false s outer s' outer') :
    attachElse? s outer = attachElse? s' outer' := by
  generalize hd : false = d at h
  induction h with
  | refl => rfl
  | thenBranch => cases hd
  | elseBranch _ ih | whileBody _ ih | forBody _ ih => rw [attachElse?, ih hd]

end Unwinds

/-- Two readings agree on every token but an `else`. -/
def Settles (r r' : Reading) : Prop := ∀ t, t.kind ≠ .word .else_ → r.step t = r'.step t

/-- Declarations in a row, of a block inside the given constructs or at the top level: the
constructs around the next one and the statements of the program so far. -/
def row (enclosing : Option (List Outer)) (before here : List Stmt) : List Outer × List Stmt :=
  match enclosing with
  | none => ([], here)
  | some outer => (.block here :: outer, before)

/-- The reading between two declarations of a row. -/
def rowReading (enclosing : Option (List Outer)) (before here : List Stmt)
    (errors : List GrammarError) : Reading :=
  ⟨(row enclosing before here).1, .expecting .declaration, (row enclosing before here).2, errors⟩

/-- A complete statement that stands for the next declaration of a row settles into the
reading after it. -/
theorem Unwinds.settles_row {d : Bool} {s s' : Stmt} {outer : List Outer}
    {enclosing : Option (List Outer)} {before here : List Stmt} (errors : List GrammarError)
    (h : Unwinds d s outer s' (row enclosing before here).1) :
    Settles ⟨outer, .complete s, (row enclosing before here).2, errors⟩
      (rowReading enclosing before (here ++ [s']) errors) := by
  intro t ht
  simp only [step, if_neg ht, h.conclude_eq, rowReading]
  cases enclosing with
  | none | some => exact shiftDeclaration_mode _ _

/-- Readings that agree but on an `else` agree after tokens that do not start with one. -/
theorem Settles.run {r r' : Reading} (h : Settles r r') {ts : List Token}
    (ht : ∀ t ∈ ts.head?, t.kind ≠ .word .else_) : Settles (r.run ts) (r'.run ts) := by
  cases ts with
  | nil => exact h
  | cons t rest =>
    rw [run_congr_head (h t (ht t rfl))]
    exact fun _ _ => rfl

/-- Where a statement has to come, reading tokens leads to a complete statement that stands
for a tree, with the errors of the faults. -/
def ReadsStatement (d : Bool) (ts : List Token) (s : Stmt) (f : List Token) : Prop :=
  ∀ (outer : List Outer) (program : List Stmt) (errors : List GrammarError),
    ∃ s' outer', Unwinds d s' outer' s outer ∧
      run ⟨outer, .expecting .statement, program, errors⟩ ts =
        ⟨outer', .complete s', program, errors ++ f.map invalidTarget⟩

/-- The same where a declaration has to come. -/
def ReadsDeclaration (ts : List Token) (s : Stmt) (f : List Token) : Prop :=
  ∀ (outer : List Outer) (program : List Stmt) (errors : List GrammarError),
    ∃ d s' outer', Unwinds d s' outer' s outer ∧
      run ⟨outer, .expecting .declaration, program, errors⟩ ts =
        ⟨outer', .complete s', program, errors ++ f.map invalidTarget⟩

section Statements

variable (outer : List Outer) (program : List Stmt) (errors : List GrammarError)

/-- After its first word a declaration of a variable is read to its end. -/
theorem VarDeclaration.run_tail {ts : List Token} {s : Stmt} {f : List Token}
    (h : VarDeclaration ts s f) :
    run ⟨outer, .expecting .varName, program, errors⟩ ts.tail =
      ⟨outer, .complete s, program, errors ++ f.map invalidTarget⟩ := by
  cases h with
  | bare _ hn hs =>
    simp only [List.tail_cons, run, List.foldl_cons, List.foldl_nil, step, shift, hn, if_true,
      expect, hs, finish, List.map_nil, List.append_nil]
  | @initialized v n eq semi ts e f _ hn heq he hs =>
    have hopen : run ⟨outer, .expecting .varName, program, errors⟩ [n, eq] =
        ⟨outer, .expecting (.operand [] (.initializer n)), program, errors⟩ := by
      simp only [run, List.foldl_cons, List.foldl_nil, step, shift, hn, if_true, expect, heq]
    rw [show (v :: n :: eq :: ts ++ [semi]).tail = [n, eq] ++ (ts ++ [semi]) from rfl, run_append,
      hopen, he.run_end _ (.inl hs)]
    simp only [shiftEnd, hs, if_true, finish]

/-- A declaration of a variable starts with its word. -/
theorem VarDeclaration.exists_head {ts : List Token} {s : Stmt} {f : List Token}
    (h : VarDeclaration ts s f) : ∃ v, ts = v :: ts.tail ∧ v.kind = .word .var := by
  cases h with
  | bare hv | initialized hv => exact ⟨_, rfl, hv⟩

/-- An expression statement is read to its end where its operand has to come. -/
theorem ExpressionStatement.run_operand {ts : List Token} {s : Stmt} {f : List Token}
    (h : ExpressionStatement ts s f) :
    run ⟨outer, .expecting (.operand [] .statement), program, errors⟩ ts =
      ⟨outer, .complete s, program, errors ++ f.map invalidTarget⟩ := by
  obtain ⟨he, hs⟩ := h
  rw [he.run_end _ (.inl hs)]
  simp only [shiftEnd, hs, if_true, finish]

/-- An expression statement starts as an expression does. -/
theorem ExpressionStatement.exists_head {ts : List Token} {s : Stmt} {f : List Token}
    (h : ExpressionStatement ts s f) : ∃ t rest, ts = t :: rest ∧ t.kind ∈ operandKinds := by
  obtain ⟨he, -⟩ := h
  obtain ⟨t, rest, rfl, ht⟩ := he.exists_head
  exact ⟨t, _, rfl, ht⟩

/-- A complete first clause of a `for` gives way to the second clause. -/
theorem step_complete_forInit (k t : Token) (s : Stmt) :
    step ⟨.forInit k :: outer, .complete s, program, errors⟩ t =
      step ⟨outer, .expecting (.forCondition k (some s)), program, errors⟩ t := by
  simp only [step, attachElse?, ite_self, conclude, shift]
  split
  · rfl
  · exact shiftOperand_mode _ _ _ _

/-- The first clause of a `for` is read, and its second clause is next. -/
theorem FirstClause.run_forInit {ts cs : List Token} {init : Option Stmt} {f : List Token}
    (h : FirstClause ts init f) (k : Token) (hcs : cs ≠ []) :
    run ⟨outer, .expecting (.forInit k), program, errors⟩ (ts ++ cs) =
      run ⟨outer, .expecting (.forCondition k init), program, errors ++ f.map invalidTarget⟩
        cs := by
  obtain ⟨t, rest, rfl⟩ := List.exists_cons_of_ne_nil hcs
  rw [run_append]
  apply run_congr_head
  cases h with
  | none hs =>
    simp only [run, List.foldl_cons, List.foldl_nil, List.map_nil, List.append_nil]
    congr 1
    simp only [step, shift, hs, expect]
  | var h =>
    obtain ⟨v, hts, hv⟩ := h.exists_head
    have hopen : step ⟨outer, .expecting (.forInit k), program, errors⟩ v =
        ⟨.forInit k :: outer, .expecting .varName, program, errors⟩ := by
      simp only [step, shift, hv, enter]
    rw [hts, run, List.foldl_cons, hopen, ← run, h.run_tail, step_complete_forInit]
  | expression h =>
    obtain ⟨t', rest', hts, ht'⟩ := h.exists_head
    rw [hts, run_congr_head (step_forInit_of_operand k ht'), ← hts, h.run_operand,
      step_complete_forInit]

/-- The second clause of a `for` is read with its semicolon, and its last clause is next. -/
theorem OptionalExpression.run_forCondition {ts : List Token} {condition : Option Expr}
    {f : List Token} {semi : Token} (h : OptionalExpression ts condition f)
    (hs : semi.kind = .sign .semicolon) (k : Token) (init : Option Stmt) :
    run ⟨outer, .expecting (.forCondition k init), program, errors⟩ (ts ++ [semi]) =
      ⟨outer, .expecting (.forStep k init condition), program, errors ++ f.map invalidTarget⟩ := by
  cases h with
  | none =>
    simp only [List.nil_append, run, List.foldl_cons, List.foldl_nil, step, shift, hs, if_true,
      expect, List.map_nil, List.append_nil]
  | some h =>
    obtain ⟨t, rest, hts, ht⟩ := h.exists_head
    rw [hts, List.cons_append, run_congr_head (step_forCondition_of_operand k init ht),
      ← List.cons_append, ← hts, h.run_end _ (.inl hs)]
    simp only [shiftEnd, hs, if_true, expect]

/-- The last clause of a `for` is read with the closing parenthesis, and its body is next. -/
theorem OptionalExpression.run_forStep {ts : List Token} {step : Option Expr} {f : List Token}
    {r : Token} (h : OptionalExpression ts step f) (hr : r.kind = .sign .rightParen) (k : Token)
    (init : Option Stmt) (condition : Option Expr) :
    run ⟨outer, .expecting (.forStep k init condition), program, errors⟩ (ts ++ [r]) =
      ⟨.forBody ⟨k, init, condition, step⟩ :: outer, .expecting .statement, program,
        errors ++ f.map invalidTarget⟩ := by
  cases h with
  | none =>
    simp only [List.nil_append, run, List.foldl_cons, List.foldl_nil, Reading.step, shift, hr,
      if_true, enter, List.map_nil, List.append_nil]
  | some h =>
    obtain ⟨t, rest, hts, ht⟩ := h.exists_head
    rw [hts, List.cons_append, run_congr_head (step_forStep_of_operand k init condition ht),
      ← List.cons_append, ← hts, h.run_end _ (.inr hr)]
    simp only [shiftEnd, hr, if_true, enter]

/-- A word that takes a condition in parentheses is read with it, and a statement is next. -/
theorem run_conditionHead {place : Place} {construct : Outer} {k l r : Token} {ts : List Token}
    {c : Expr} {f : List Token}
    (hopen : run ⟨outer, .expecting .statement, program, errors⟩ [k, l] =
      ⟨outer, .expecting (.operand [] place), program, errors⟩)
    (hc : Expression .assignment ts c f) (hr : r.kind = .sign .rightParen)
    (hclose : ∀ reading, shiftEnd reading c place r = reading.enter construct .statement) :
    run ⟨outer, .expecting .statement, program, errors⟩ (k :: l :: ts ++ [r]) =
      ⟨construct :: outer, .expecting .statement, program, errors ++ f.map invalidTarget⟩ := by
  rw [show k :: l :: ts ++ [r] = [k, l] ++ (ts ++ [r]) from rfl, run_append, hopen,
    hc.run_end _ (.inr hr), hclose, enter]

/-- The head of a conditional is read, and its first branch is next. -/
theorem run_ifHead {k l r : Token} {ts : List Token} {c : Expr} {f : List Token}
    (hk : k.kind = .word .if_) (hl : l.kind = .sign .leftParen)
    (hc : Expression .assignment ts c f) (hr : r.kind = .sign .rightParen) :
    run ⟨outer, .expecting .statement, program, errors⟩ (k :: l :: ts ++ [r]) =
      ⟨.thenBranch k c :: outer, .expecting .statement, program,
        errors ++ f.map invalidTarget⟩ := by
  have hopen : run ⟨outer, .expecting .statement, program, errors⟩ [k, l] =
      ⟨outer, .expecting (.operand [] (.ifCondition k)), program, errors⟩ := by
    simp only [run, List.foldl_cons, List.foldl_nil, step, shift, shiftStatement, hk, hl, if_true,
      expect]
  exact run_conditionHead _ _ _ hopen hc hr fun reading => if_pos hr

/-- The head of a loop is read, and its body is next. -/
theorem run_whileHead {k l r : Token} {ts : List Token} {c : Expr} {f : List Token}
    (hk : k.kind = .word .while_) (hl : l.kind = .sign .leftParen)
    (hc : Expression .assignment ts c f) (hr : r.kind = .sign .rightParen) :
    run ⟨outer, .expecting .statement, program, errors⟩ (k :: l :: ts ++ [r]) =
      ⟨.whileBody k c :: outer, .expecting .statement, program,
        errors ++ f.map invalidTarget⟩ := by
  have hopen : run ⟨outer, .expecting .statement, program, errors⟩ [k, l] =
      ⟨outer, .expecting (.operand [] (.whileCondition k)), program, errors⟩ := by
    simp only [run, List.foldl_cons, List.foldl_nil, step, shift, shiftStatement, hk, hl, if_true,
      expect]
  exact run_conditionHead _ _ _ hopen hc hr fun reading => if_pos hr

/-- The head of a `for` is read with its clauses, and its body is next. -/
theorem run_forHead {k l semi r : Token} {is cs ss : List Token} {init : Option Stmt}
    {condition step : Option Expr} {f g h : List Token} (hk : k.kind = .word .for_)
    (hl : l.kind = .sign .leftParen) (hi : FirstClause is init f)
    (hc : OptionalExpression cs condition g) (hs : semi.kind = .sign .semicolon)
    (hst : OptionalExpression ss step h) (hr : r.kind = .sign .rightParen) :
    run ⟨outer, .expecting .statement, program, errors⟩
        (k :: l :: is ++ cs ++ semi :: ss ++ [r]) =
      ⟨.forBody ⟨k, init, condition, step⟩ :: outer, .expecting .statement, program,
        errors ++ (f ++ g ++ h).map invalidTarget⟩ := by
  have hopen : run ⟨outer, .expecting .statement, program, errors⟩ [k, l] =
      ⟨outer, .expecting (.forInit k), program, errors⟩ := by
    simp only [run, List.foldl_cons, List.foldl_nil, Reading.step, shift, shiftStatement, hk, hl,
      if_true, expect]
  have hsplit : k :: l :: is ++ cs ++ semi :: ss ++ [r] =
      [k, l] ++ (is ++ ((cs ++ [semi]) ++ (ss ++ [r]))) := by
    simp only [List.cons_append, List.nil_append, List.append_assoc]
  rw [hsplit, run_append, hopen, hi.run_forInit _ _ _ k (by simp), run_append,
    hc.run_forCondition _ _ _ hs, hst.run_forStep _ _ _ hr]
  simp only [List.map_append, List.append_assoc]

end Statements

/-- No declaration in a row starts with an `else`. -/
theorem head_ne_else {rule : ElseRule} {pieces : List Piece}
    (h : ∀ p ∈ pieces, Phrase rule .declaration p.tokens p.tree p.faults) :
    ∀ t ∈ (pieces.flatMap Piece.tokens).head?, t.kind ≠ .word .else_ := by
  cases pieces with
  | nil => simp only [List.flatMap_nil, List.head?_nil, Option.mem_def, reduceCtorEq,
      false_implies, implies_true]
  | cons p rest =>
    obtain ⟨t, ts, hts, ht⟩ := (h p List.mem_cons_self).exists_head
    intro t' ht'
    rw [List.flatMap_cons, hts, List.cons_append, List.head?_cons, Option.mem_some] at ht'
    subst ht'
    rcases ht with ht | ⟨-, ht⟩
    · intro helse
      rw [helse] at ht
      exact absurd ht (by decide)
    · rw [ht]
      decide

/-- Declarations in a row are read one after the other, if each is. -/
theorem run_row {rule : ElseRule} {pieces : List Piece}
    (h : ∀ p ∈ pieces, Phrase rule .declaration p.tokens p.tree p.faults)
    (hr : ∀ p ∈ pieces, ReadsDeclaration p.tokens p.tree p.faults)
    (enclosing : Option (List Outer)) (before here : List Stmt) (errors : List GrammarError) :
    Settles ((rowReading enclosing before here errors).run (pieces.flatMap Piece.tokens))
      (rowReading enclosing before (here ++ pieces.map Piece.tree)
        (errors ++ (pieces.flatMap Piece.faults).map invalidTarget)) := by
  induction pieces generalizing here errors with
  | nil =>
    intro t _
    simp only [run, List.flatMap_nil, List.foldl_nil, List.map_nil, List.append_nil]
  | cons p rest ih =>
    have hrest := fun q hq => h q (List.mem_cons_of_mem p hq)
    obtain ⟨d, s', outer', hu, hrun⟩ := hr p List.mem_cons_self (row enclosing before here).1
      (row enclosing before here).2 errors
    have hsettles := (hu.settles_row (errors ++ p.faults.map invalidTarget)).run
      (head_ne_else hrest)
    have hih := ih hrest (fun q hq => hr q (List.mem_cons_of_mem p hq)) (here ++ [p.tree])
      (errors ++ p.faults.map invalidTarget)
    intro t ht
    rw [List.flatMap_cons, run_append, rowReading, hrun, hsettles t ht, hih t ht]
    simp only [List.map_cons, List.flatMap_cons, List.map_append, List.append_assoc,
      List.singleton_append]

/-- A block is read if its declarations are. -/
theorem readsStatement_block {rule : ElseRule} {l r : Token} {pieces : List Piece}
    (hl : l.kind = .sign .leftBrace)
    (h : ∀ p ∈ pieces, Phrase rule .declaration p.tokens p.tree p.faults)
    (hp : ∀ p ∈ pieces, ReadsDeclaration p.tokens p.tree p.faults)
    (hr : r.kind = .sign .rightBrace) :
    ReadsStatement false (l :: pieces.flatMap Piece.tokens ++ [r])
      (.block (pieces.map Piece.tree)) (pieces.flatMap Piece.faults) := by
  intro outer program errors
  have hopen : step ⟨outer, .expecting .statement, program, errors⟩ l =
      rowReading (some outer) program [] errors := by
    simp only [step, shift, shiftStatement, hl, enter, rowReading, row]
  have hrow := run_row h hp (some outer) program [] errors r (by rw [hr]; decide)
  refine ⟨_, outer, .refl, ?_⟩
  rw [List.cons_append, run, List.foldl_cons, hopen, ← run, run_append, run, List.foldl_cons,
    List.foldl_nil, hrow]
  simp only [rowReading, row, step, shift, shiftDeclaration, hr, finish, List.nil_append]

/-- Every derived statement and declaration is read. -/
theorem Phrase.reads {form : Form} {ts : List Token} {s : Stmt} {f : List Token}
    (h : Phrase .nearest form ts s f) :
    match form with
    | .declaration => ReadsDeclaration ts s f
    | .statement d => ReadsStatement d ts s f := by
  induction h with
  | var h =>
    intro outer program errors
    obtain ⟨v, hts, hv⟩ := h.exists_head
    have hopen : step ⟨outer, .expecting .declaration, program, errors⟩ v =
        ⟨outer, .expecting .varName, program, errors⟩ := by
      simp only [step, shift, shiftDeclaration, hv, expect]
    refine ⟨false, _, outer, .refl, ?_⟩
    rw [hts, run, List.foldl_cons, hopen, ← run, h.run_tail]
  | statement h ih =>
    intro outer program errors
    obtain ⟨t, rest, hts, ht | ⟨hform, -⟩⟩ := h.exists_head
    · obtain ⟨s', outer', hu, hrun⟩ := ih outer program errors
      refine ⟨_, s', outer', hu, ?_⟩
      rw [hts, run_congr_head (step_declaration_of_statement ht), ← hts, hrun]
    · cases hform
  | expression h =>
    intro outer program errors
    obtain ⟨t, rest, hts, ht⟩ := h.exists_head
    refine ⟨_, outer, .refl, ?_⟩
    rw [hts, run_congr_head (step_statement_of_operand ht), ← hts, h.run_operand]
  | @print k semi ts e f hk he hs =>
    intro outer program errors
    have hopen : step ⟨outer, .expecting .statement, program, errors⟩ k =
        ⟨outer, .expecting (.operand [] (.printed k)), program, errors⟩ := by
      simp only [step, shift, shiftStatement, hk, expect]
    refine ⟨_, outer, .refl, ?_⟩
    rw [List.cons_append, run, List.foldl_cons, hopen, ← run, he.run_end _ (.inl hs)]
    simp only [shiftEnd, hs, if_true, finish]
  | block hl hp hr ih => exact readsStatement_block hl hp ih hr
  | @ifThen k l r d ts us c s f g hk hl hc hr _ ih =>
    intro outer program errors
    obtain ⟨s', outer', hu, hrun⟩ := ih (.thenBranch k c :: outer) program
      (errors ++ f.map invalidTarget)
    refine ⟨s', outer', Bool.or_true d ▸ hu.trans (.thenBranch .refl), ?_⟩
    rw [List.append_cons, run_append, run_ifHead _ _ _ hk hl hc hr, hrun, List.map_append,
      List.append_assoc]
  | @ifElse k l r el d d' ts us vs c s t f g h hk hl hc hr _ hd hel _ ihs iht =>
    intro outer program errors
    obtain rfl := hd rfl
    obtain ⟨s', outer', hu, hrun⟩ := ihs (.thenBranch k c :: outer) program
      (errors ++ f.map invalidTarget)
    obtain ⟨t', outer'', hu', hrun'⟩ := iht (.elseBranch k c s :: outer) program
      (errors ++ f.map invalidTarget ++ g.map invalidTarget)
    have hstep : step ⟨outer', .complete s', program,
        errors ++ f.map invalidTarget ++ g.map invalidTarget⟩ el =
        ⟨.elseBranch k c s :: outer, .expecting .statement, program,
          errors ++ f.map invalidTarget ++ g.map invalidTarget⟩ := by
      simp only [step, hel, if_true, hu.attachElse?_eq, attachElse?]
    refine ⟨t', outer'', Bool.or_false d' ▸ hu'.trans (.elseBranch .refl), ?_⟩
    rw [List.append_cons (k :: l :: ts), List.append_assoc, run_append,
      run_ifHead _ _ _ hk hl hc hr, run_append, hrun, run, List.foldl_cons, hstep, ← run, hrun']
    simp only [List.map_append, List.append_assoc]
  | @whileLoop k l r d ts us c s f g hk hl hc hr _ ih =>
    intro outer program errors
    obtain ⟨s', outer', hu, hrun⟩ := ih (.whileBody k c :: outer) program
      (errors ++ f.map invalidTarget)
    refine ⟨s', outer', Bool.or_false d ▸ hu.trans (.whileBody .refl), ?_⟩
    rw [List.append_cons, run_append, run_whileHead _ _ _ hk hl hc hr, hrun, List.map_append,
      List.append_assoc]
  | @forLoop k l semi r d is cs ss us init condition step s f g h j hk hl hi hc hsemi hst hr _ ih =>
    intro outer program errors
    obtain ⟨s', outer', hu, hrun⟩ := ih (.forBody ⟨k, init, condition, step⟩ :: outer) program
      (errors ++ (f ++ g ++ h).map invalidTarget)
    have hw := hu.trans (.forBody .refl)
    rw [desugar_eq_forTree, Bool.or_false] at hw
    refine ⟨s', outer', hw, ?_⟩
    rw [List.append_cons, run_append, run_forHead _ _ _ hk hl hi hc hsemi hst hr, hrun]
    simp only [List.map_append, List.append_assoc]

/-- A derived program is read to its end with the errors of its faults and no others. -/
theorem Program.run_end {ts faults : List Token} {program : List Stmt} {t : Token}
    (h : Program .nearest ts program faults) (ht : t.kind = .eof) :
    start.run (ts ++ [t]) =
      ⟨[], .expecting .declaration, program, faults.map invalidTarget⟩ := by
  obtain ⟨pieces, hp, rfl, rfl, rfl⟩ := h
  have hrow := run_row hp (fun p hm => (hp p hm).reads) none [] [] [] t (by rw [ht]; decide)
  have hstart : start = rowReading none [] [] [] := rfl
  rw [run_append, run, List.foldl_cons, List.foldl_nil, hstart, hrow]
  simp only [rowReading, row, step, shift, shiftDeclaration, ht, expect, List.nil_append]

/-- The token that ends a stream is an end token. -/
theorem endToken_kind (ts : List Token) : (endToken ts).kind = .eof := by
  unfold endToken
  split
  · next t h => simpa only [decide_eq_true_eq] using List.find?_some h
  · rfl

/-- A stream is read as the program derived from the tokens before its end. -/
theorem Program.parse_eq {ts : List Token} {program : List Stmt}
    (h : Program .nearest (beforeEnd ts) program []) : parse ts = .ok program := by
  unfold parse
  rw [h.run_end (endToken_kind ts)]
  rfl

end Lox.Grammar
