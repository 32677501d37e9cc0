import Lox.Tree
import Lox.Report

/-!
# Positions inside a program

Reading a program token by token needs to remember what has been opened and not
yet closed. This module holds that memory: the operators that wait for an
operand, the statements that wait for a part, and the single thing that may come
next. Binary operators have six levels, a higher one binding more tightly.
-/

namespace Lox

/-- Why a token cannot continue a program. -/
inductive GrammarCause where
  | expectExpression
  | expectVariableName
  | semicolonAfterVariable
  | semicolonAfterValue
  | semicolonAfterExpression
  | semicolonAfterCondition
  | parenAfterExpression
  | braceAfterBlock
  | parenAfterIf
  | parenAfterCondition
  | parenAfterWhile
  | parenAfterFor
  | parenAfterClauses
  | invalidTarget
  deriving DecidableEq, Repr

/-- The message of a cause. -/
def GrammarCause.message : GrammarCause → Text
  | expectExpression => utf8 "Expect expression."
  | expectVariableName => utf8 "Expect variable name."
  | semicolonAfterVariable => utf8 "Expect ';' after variable declaration."
  | semicolonAfterValue => utf8 "Expect ';' after value."
  | semicolonAfterExpression => utf8 "Expect ';' after expression."
  | semicolonAfterCondition => utf8 "Expect ';' after loop condition."
  | parenAfterExpression => utf8 "Expect ')' after expression."
  | braceAfterBlock => utf8 "Expect '\x7d' after block."
  | parenAfterIf => utf8 "Expect '(' after 'if'."
  | parenAfterCondition => utf8 "Expect ')' after condition."
  | parenAfterWhile => utf8 "Expect '(' after 'while'."
  | parenAfterFor => utf8 "Expect '(' after 'for'."
  | parenAfterClauses => utf8 "Expect ')' after for clauses."
  | invalidTarget => utf8 "Invalid assignment target."

/-- An error of grammar and its line. -/
structure GrammarError where
  /-- What is wrong. -/
  cause : GrammarCause
  /-- The line of the token at fault. -/
  line : Int
  deriving DecidableEq, Repr

/-- An error of grammar as it is shown. -/
def GrammarError.report (e : GrammarError) : Report := .grammatical e.cause.message e.line

/-- The level of a binary operator, from `or` up to products; zero for a kind
that is none. -/
def Kind.level : Kind → Nat
  | .word .or => 1
  | .word .and => 2
  | .sign .bangEqual | .sign .equalEqual => 3
  | .sign .greater | .sign .greaterEqual | .sign .less | .sign .lessEqual => 4
  | .sign .minus | .sign .plus => 5
  | .sign .slash | .sign .star => 6
  | _ => 0

/-- Whether a statement may start at a kind where reading resumes after an
error. -/
def Kind.startsStatement : Kind → Bool
  | .word .class_ | .word .fun_ | .word .var | .word .for_ | .word .if_ | .word .while_
  | .word .print | .word .return_ => true
  | _ => false

/-- The node of a binary operator with its operands: `or` and `and` short-circuit. -/
def Expr.infixNode (left : Expr) (operator : Token) (right : Expr) : Expr :=
  match operator.kind with
  | .word .or | .word .and => .logical left operator right
  | _ => .binary left operator right

/-- Something inside an expression that waits for the operand to its right. -/
inductive Pending where
  /-- An operator in front of its operand. -/
  | unary (operator : Token)
  /-- A left operand and its operator. -/
  | binary (left : Expr) (operator : Token)
  /-- A target and its equals sign. -/
  | assign (target : Expr) (equals : Token)
  /-- An opening parenthesis. -/
  | group

/-- What a whole expression is for, and so what has to follow it. -/
inductive Place where
  /-- A statement of its own. -/
  | statement
  /-- The value of a print statement. -/
  | printed (keyword : Token)
  /-- The initializer of a declaration. -/
  | initializer (name : Token)
  /-- The condition of a conditional. -/
  | ifCondition (keyword : Token)
  /-- The condition of a loop. -/
  | whileCondition (keyword : Token)
  /-- The condition of a `for` with its first clause. -/
  | forCondition (keyword : Token) (init : Option Stmt)
  /-- The last clause of a `for` with the two before it. -/
  | forStep (keyword : Token) (init : Option Stmt) (condition : Option Expr)

/-- The clauses of a `for`. -/
structure ForClauses where
  /-- The word `for`. -/
  keyword : Token
  /-- What runs once at the start. -/
  init : Option Stmt
  /-- What decides before each round; true if left out. -/
  condition : Option Expr
  /-- What is evaluated after each round. -/
  step : Option Expr

/-- The `for` with the given clauses and body, in terms of blocks and a loop. -/
def ForClauses.desugar (clauses : ForClauses) (body : Stmt) : Stmt :=
  let round := match clauses.step with
    | some e => .block [body, .expression e]
    | none => body
  let loop := .loop clauses.keyword
    (clauses.condition.getD (.literal (some (.bool true)))) round
  match clauses.init with
  | some s => .block [s, loop]
  | none => loop

/-- A construct that waits for a statement. -/
inductive Outer where
  /-- A block with the statements it has so far. -/
  | block (body : List Stmt)
  /-- A conditional before its first branch. -/
  | thenBranch (keyword : Token) (condition : Expr)
  /-- A conditional before its alternative. -/
  | elseBranch (keyword : Token) (condition : Expr) (thenBranch : Stmt)
  /-- A loop before its body. -/
  | whileBody (keyword : Token) (condition : Expr)
  /-- A `for` before its first clause. -/
  | forInit (keyword : Token)
  /-- A `for` before its body. -/
  | forBody (clauses : ForClauses)

/-- What has to come next. -/
inductive Goal where
  /-- A declaration, or the end of what encloses it. -/
  | declaration
  /-- A statement. -/
  | statement
  /-- An operand. -/
  | operand (pending : List Pending) (place : Place)
  /-- An operator after an operand, or the end of the expression. -/
  | operator (value : Expr) (pending : List Pending) (place : Place)
  /-- The name of a variable. -/
  | varName
  /-- An initializer or the end of a declaration. -/
  | varEnd (name : Token)
  /-- The parenthesis after `if`. -/
  | ifParen (keyword : Token)
  /-- The parenthesis after `while`. -/
  | whileParen (keyword : Token)
  /-- The parenthesis after `for`. -/
  | forParen (keyword : Token)
  /-- The first clause of a `for`. -/
  | forInit (keyword : Token)
  /-- The second clause of a `for`. -/
  | forCondition (keyword : Token) (init : Option Stmt)
  /-- The third clause of a `for`. -/
  | forStep (keyword : Token) (init : Option Stmt) (condition : Option Expr)

/-- The mode of reading. -/
inductive Mode where
  /-- Something definite has to come next. -/
  | expecting (goal : Goal)
  /-- A statement is complete, unless an `else` follows that belongs to it. -/
  | complete (statement : Stmt)
  /-- Tokens are dropped after an error; the last one dropped is kept. -/
  | skipping (previous : Token)

end Lox
