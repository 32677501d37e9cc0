import Lox.Tree

/-!
# Induction over trees

Expressions hold lists of expressions and statements hold lists of statements. These are the
principles by which a fact about all trees follows from one case for each kind of node.
-/

namespace Lox

/-- A fact holds of every expression if it holds of a node as soon as it holds of its parts. -/
@[induction_eliminator]
theorem Expr.induction {P : Expr → Prop} (absent : P .absent)
    (assign : ∀ n value, P value → P (.assign n value))
    (binary : ∀ left op right, P left → P right → P (.binary left op right))
    (call : ∀ callee paren arguments, P callee → (∀ a ∈ arguments, P a) →
      P (.call callee paren arguments))
    (get : ∀ object n, P object → P (.get object n))
    (grouping : ∀ inner, P inner → P (.grouping inner))
    (literal : ∀ value, P (.literal value))
    (logical : ∀ left op right, P left → P right → P (.logical left op right))
    (set : ∀ object n value, P object → P value → P (.set object n value))
    (super : ∀ keyword method, P (.super keyword method))
    (receiver : ∀ keyword, P (.receiver keyword))
    (unary : ∀ op right, P right → P (.unary op right))
    (name : ∀ n, P (.name n)) (e : Expr) : P e := by
  have ih (e' : Expr) (_ : sizeOf e' < sizeOf e) : P e' :=
    Expr.induction absent assign binary call get grouping literal logical set super receiver unary
      name e'
  cases e with
  | absent => exact absent
  | assign n value => exact assign n value (ih value (by decreasing_tactic))
  | binary left op right =>
    exact binary left op right (ih left (by decreasing_tactic)) (ih right (by decreasing_tactic))
  | call callee paren arguments =>
    exact call callee paren arguments (ih callee (by decreasing_tactic))
      fun a ha => ih a (by decreasing_tactic)
  | get object n => exact get object n (ih object (by decreasing_tactic))
  | grouping inner => exact grouping inner (ih inner (by decreasing_tactic))
  | literal value => exact literal value
  | logical left op right =>
    exact logical left op right (ih left (by decreasing_tactic)) (ih right (by decreasing_tactic))
  | set object n value =>
    exact set object n value (ih object (by decreasing_tactic)) (ih value (by decreasing_tactic))
  | super keyword method => exact super keyword method
  | receiver keyword => exact receiver keyword
  | unary op right => exact unary op right (ih right (by decreasing_tactic))
  | name n => exact name n
termination_by sizeOf e

/-- An expression is there unless it is absent. -/
theorem Expr.isPresent_iff (e : Expr) : e.isPresent = true ↔ e ≠ .absent := by
  cases e with
  | absent => simp only [isPresent, Bool.false_eq_true, ne_eq, not_true]
  | _ => simp only [isPresent, ne_eq, reduceCtorEq, not_false_eq_true]

/-- A statement is there unless it is absent. -/
theorem Stmt.isPresent_iff (s : Stmt) : s.isPresent = true ↔ s ≠ .absent := by
  cases s with
  | absent => simp only [isPresent, Bool.false_eq_true, ne_eq, not_true]
  | _ => simp only [isPresent, ne_eq, reduceCtorEq, not_false_eq_true]

/-- Code to carry out: a statement, or several in a row. -/
inductive Code where
  | statement (s : Stmt)
  | row (body : List Stmt)

/-- A fact holds of every piece of code if it holds of a node as soon as it holds of its parts. -/
@[induction_eliminator]
theorem Code.induction {P : Code → Prop} (absent : P (.statement .absent))
    (block : ∀ body, P (.row body) → P (.statement (.block body)))
    (classDecl : ∀ n superclass methods, P (.row methods) →
      P (.statement (.classDecl n superclass methods)))
    (expression : ∀ value, P (.statement (.expression value)))
    (functionDecl : ∀ n params body, P (.row body) →
      P (.statement (.functionDecl n params body)))
    (conditional : ∀ keyword condition thenBranch elseBranch, P (.statement thenBranch) →
      P (.statement elseBranch) →
      P (.statement (.conditional keyword condition thenBranch elseBranch)))
    (print : ∀ keyword value, P (.statement (.print keyword value)))
    (returning : ∀ keyword value, P (.statement (.returning keyword value)))
    (var : ∀ n initializer, P (.statement (.var n initializer)))
    (loop : ∀ keyword condition body, P (.statement body) →
      P (.statement (.loop keyword condition body)))
    (nil : P (.row [])) (cons : ∀ s rest, P (.statement s) → P (.row rest) → P (.row (s :: rest)))
    (c : Code) : P c := by
  have ih (c' : Code) (_ : sizeOf c' < sizeOf c) : P c' :=
    Code.induction absent block classDecl expression functionDecl conditional print returning
      var loop nil cons c'
  match c with
  | .statement .absent => exact absent
  | .statement (.block body) => exact block body (ih _ (by decreasing_tactic))
  | .statement (.classDecl n superclass methods) =>
    exact classDecl n superclass methods (ih _ (by decreasing_tactic))
  | .statement (.expression value) => exact expression value
  | .statement (.functionDecl n params body) =>
    exact functionDecl n params body (ih _ (by decreasing_tactic))
  | .statement (.conditional keyword condition thenBranch elseBranch) =>
    exact conditional keyword condition thenBranch elseBranch (ih _ (by decreasing_tactic))
      (ih _ (by decreasing_tactic))
  | .statement (.print keyword value) => exact print keyword value
  | .statement (.returning keyword value) => exact returning keyword value
  | .statement (.var n initializer) => exact var n initializer
  | .statement (.loop keyword condition body) =>
    exact loop keyword condition body (ih _ (by decreasing_tactic))
  | .row [] => exact nil
  | .row (s :: rest) =>
    exact cons s rest (ih _ (by decreasing_tactic)) (ih _ (by decreasing_tactic))
termination_by sizeOf c

end Lox
