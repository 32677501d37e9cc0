import Lox.Token

/-!
# Trees

Expressions and statements of the language. A child that is missing is an
`absent` node: a declaration without initializer and a conditional without
alternative have one by rule, and a tree built by hand may have one anywhere.
Calls, properties, classes, functions and returns are part of the trees even
though no statement that holds one can be carried out.
-/

namespace Lox

/-- An expression. -/
inductive Expr where
  /-- No expression at all. -/
  | absent
  /-- Assignment to a variable. -/
  | assign (name : Token) (value : Expr)
  /-- An operator between two operands that are both evaluated. -/
  | binary (left : Expr) (operator : Token) (right : Expr)
  /-- A call. -/
  | call (callee : Expr) (paren : Token) (arguments : List Expr)
  /-- A property of an object. -/
  | get (object : Expr) (name : Token)
  /-- A parenthesised expression. -/
  | grouping (inner : Expr)
  /-- A value written out. -/
  | literal (value : Option Value)
  /-- A short-circuit operator between two operands. -/
  | logical (left : Expr) (operator : Token) (right : Expr)
  /-- Assignment to a property. -/
  | set (object : Expr) (name : Token) (value : Expr)
  /-- A method of the superclass. -/
  | super (keyword : Token) (method : Token)
  /-- The receiver of a method. -/
  | receiver (keyword : Token)
  /-- An operator in front of its operand. -/
  | unary (operator : Token) (right : Expr)
  /-- A variable. -/
  | name (name : Token)

instance : Inhabited Expr := ⟨.absent⟩

/-- Whether there is an expression at all. -/
def Expr.isPresent : Expr → Bool
  | absent => false
  | _ => true

/-- A statement. -/
inductive Stmt where
  /-- No statement at all. -/
  | absent
  /-- Statements in a scope of their own. -/
  | block (body : List Stmt)
  /-- A class with its superclass, if any, and its methods. -/
  | classDecl (name : Token) (superclass : Option Token) (methods : List Stmt)
  /-- An expression evaluated for its effect. -/
  | expression (value : Expr)
  /-- A function. -/
  | functionDecl (name : Token) (params : List Token) (body : List Stmt)
  /-- A conditional; the alternative may be absent. -/
  | conditional (keyword : Token) (condition : Expr) (thenBranch elseBranch : Stmt)
  /-- Printing of a value. -/
  | print (keyword : Token) (value : Expr)
  /-- A return; the value may be absent. -/
  | returning (keyword : Token) (value : Expr)
  /-- A declaration; the initializer may be absent. -/
  | var (name : Token) (initializer : Expr)
  /-- A loop that runs as long as its condition holds. -/
  | loop (keyword : Token) (condition : Expr) (body : Stmt)

instance : Inhabited Stmt := ⟨.absent⟩

/-- Whether there is a statement at all. -/
def Stmt.isPresent : Stmt → Bool
  | absent => false
  | _ => true

end Lox
