import Lox.Proofs.Grammar
import Lox.Proofs.Procedure
import Lox.Tree.Parse

/-!
# Reading by descent

A program can be read by procedures that call one another, one for each rule of the grammar, over
a cursor into the stream. A procedure looks at the token under the cursor and at the one before
it, and both look-ups may miss the stream; it may also never come back. Here such procedures are
written down so that both can be told: a token at an index that the stream does not have
interrupts a procedure, and a procedure without a result is one that does not end.

An error of grammar interrupts the procedures up to the outermost one. There the cursor is moved
on to where a statement may start, and the next declaration is read.
-/

namespace Lox

/-- Where a descent is, and the errors it has reported. -/
structure Cursor where
  /-- The index of the token to come. -/
  position : Nat
  /-- The errors reported so far. -/
  errors : List GrammarError

/-- What interrupts a procedure. -/
inductive Interrupt where
  /-- A token that cannot continue the program. -/
  | raised (error : GrammarError)
  /-- A token was asked for at an index that the stream does not have. -/
  | outside

/-- A procedure over a cursor. -/
abbrev Descent (α : Type) : Type := Procedure Cursor Interrupt α

namespace Descent

section Procedures

variable (ts : List Token)

/-- The token at an index. -/
def tokenAt (index : Nat) : Descent Token :=
  match ts[index]? with
  | some t => pure t
  | none => throw .outside

/-- The token to come. -/
def peek : Descent Token := do tokenAt ts (← get).position

/-- The token before the one to come. -/
def previous : Descent Token := do
  match (← get).position with
  | 0 => throw .outside
  | index + 1 => tokenAt ts index

/-- Whether the end token is to come. -/
def isAtEnd : Descent Bool := return (← peek ts).kind = .eof

/-- Whether a token of a kind is to come; the end token is none. -/
def check (kind : Kind) : Descent Bool := do
  if ← isAtEnd ts then return false
  return (← peek ts).kind = kind

/-- Moves on by a token, but not past the end token. -/
def advance : Descent Token := do
  unless ← isAtEnd ts do
    modify fun c => { c with position := c.position + 1 }
  previous ts

/-- Moves on if a token of one of the kinds is to come, and tells whether one was. -/
def accept : List Kind → Descent Bool
  | [] => return false
  | kind :: kinds => do
    if ← check ts kind then
      let _ ← advance ts
      return true
    accept kinds

/-- Interrupts with an error at a token. -/
def raise {α : Type} (cause : GrammarCause) (t : Token) : Descent α :=
  throw (.raised ⟨cause, t.line⟩)

/-- Moves on over a token of a kind that has to come. -/
def consume (kind : Kind) (cause : GrammarCause) : Descent Token := do
  if ← check ts kind then advance ts
  else raise cause (← peek ts)

/-- Whether a closing brace or the end token is to come. -/
def isAtBlockEnd : Descent Bool := check ts (.sign .rightBrace) <||> isAtEnd ts

/-- Reports an error and goes on. -/
def report (error : GrammarError) : Descent Unit :=
  modify fun c => { c with errors := c.errors ++ [error] }

open Grammar

mutual

/-- Reads an expression of a category. -/
def expression (c : Category) : Descent Expr :=
  match c with
  | .assignment => do
    let target ← expression.call .logicOr
    if ← accept ts [.sign .equal] then
      let equals ← previous ts
      let value ← expression.call .assignment
      match target with
      | .name n => return .assign n value
      | _ =>
        report ⟨.invalidTarget, equals.line⟩
        return target
    return target
  | .unary => do
    if ← accept ts [.sign .bang, .sign .minus] then
      let operator ← previous ts
      let right ← expression.call .unary
      return .unary operator right
    expression.call .primary
  | .primary => do
    if ← accept ts [.number, .string] then
      let t ← previous ts
      return .literal t.literal
    if ← accept ts [.word .false_] then return .literal (some (.bool false))
    if ← accept ts [.word .true_] then return .literal (some (.bool true))
    if ← accept ts [.word .nil] then return .literal (some .nil)
    if ← accept ts [.identifier] then
      let t ← previous ts
      return .name t
    if ← accept ts [.sign .leftParen] then
      let inner ← expression.call .assignment
      let _ ← consume ts (.sign .rightParen) .parenAfterExpression
      return .grouping inner
    raise .expectExpression (← peek ts)
  | c => do
    let left ← expression.call c.tighter
    operations.call₂ c left
partial_fixpoint

/-- Reads further operators of a category and their right operands. -/
def operations (c : Category) (left : Expr) : Descent Expr := do
  if ← accept ts c.operators then
    let operator ← previous ts
    let right ← expression.call c.tighter
    operations.call₂ c (c.node left operator right)
  else return left
partial_fixpoint

end

/-- Reads the declaration of a variable after its word. -/
def varDeclaration : Descent Stmt := do
  let name ← consume ts .identifier .expectVariableName
  if ← accept ts [.sign .equal] then
    let value ← expression ts .assignment
    let _ ← consume ts (.sign .semicolon) .semicolonAfterVariable
    return .var name value
  let _ ← consume ts (.sign .semicolon) .semicolonAfterVariable
  return .var name .absent

/-- Reads an expression as a statement. -/
def expressionStatement : Descent Stmt := do
  let value ← expression ts .assignment
  let _ ← consume ts (.sign .semicolon) .semicolonAfterExpression
  return .expression value

/-- Reads the value of a print statement after its word. -/
def printStatement (keyword : Token) : Descent Stmt := do
  let value ← expression ts .assignment
  let _ ← consume ts (.sign .semicolon) .semicolonAfterValue
  return .print keyword value

/-- Reads the first clause of a `for`. -/
def firstClause : Descent (Option Stmt) := do
  if ← accept ts [.sign .semicolon] then return none
  if ← accept ts [.word .var] then
    let s ← varDeclaration ts
    return some s
  let s ← expressionStatement ts
  return some s

/-- Reads an expression, unless the token that follows it is there already. -/
def expressionUnless (kind : Kind) : Descent (Option Expr) := do
  if ← check ts kind then return none
  let value ← expression ts .assignment
  return some value

mutual

/-- Reads a statement. -/
def statement : Descent Stmt := do
  if ← accept ts [.word .for_] then forStatement.call (← previous ts)
  else if ← accept ts [.word .if_] then ifStatement.call (← previous ts)
  else if ← accept ts [.word .print] then printStatement ts (← previous ts)
  else if ← accept ts [.word .while_] then whileStatement.call (← previous ts)
  else if ← accept ts [.sign .leftBrace] then
    let body ← block.call []
    return .block body
  else expressionStatement ts
partial_fixpoint

/-- Reads a `for` after its word. -/
def forStatement (keyword : Token) : Descent Stmt := do
  let _ ← consume ts (.sign .leftParen) .parenAfterFor
  let init ← firstClause ts
  let condition ← expressionUnless ts (.sign .semicolon)
  let _ ← consume ts (.sign .semicolon) .semicolonAfterCondition
  let step ← expressionUnless ts (.sign .rightParen)
  let _ ← consume ts (.sign .rightParen) .parenAfterClauses
  let body ← statement.call
  return (ForClauses.mk keyword init condition step).desugar body
partial_fixpoint

/-- Reads a conditional after its word. -/
def ifStatement (keyword : Token) : Descent Stmt := do
  let _ ← consume ts (.sign .leftParen) .parenAfterIf
  let condition ← expression ts .assignment
  let _ ← consume ts (.sign .rightParen) .parenAfterCondition
  let thenBranch ← statement.call
  if ← accept ts [.word .else_] then
    let elseBranch ← statement.call
    return .conditional keyword condition thenBranch elseBranch
  return .conditional keyword condition thenBranch .absent
partial_fixpoint

/-- Reads a loop after its word. -/
def whileStatement (keyword : Token) : Descent Stmt := do
  let _ ← consume ts (.sign .leftParen) .parenAfterWhile
  let condition ← expression ts .assignment
  let _ ← consume ts (.sign .rightParen) .parenAfterCondition
  let body ← statement.call
  return .loop keyword condition body
partial_fixpoint

/-- Reads the declarations of a block and its closing brace, after those read already. -/
def block (body : List Stmt) : Descent (List Stmt) := do
  if ← isAtBlockEnd ts then
    let _ ← consume ts (.sign .rightBrace) .braceAfterBlock
    return body
  let s ← declaration.call
  block.call (body ++ [s])
partial_fixpoint

/-- Reads a declaration. -/
def declaration : Descent Stmt := do
  if ← accept ts [.word .var] then varDeclaration ts
  else statement.call
partial_fixpoint

end

/-- Moves on to where a statement may start: behind a semicolon, or at a word that starts one. -/
def skip : Descent Unit := do
  if ← isAtEnd ts then return
  if (← previous ts).kind = .sign .semicolon then return
  if (← peek ts).kind.startsStatement then return
  skip.after (advance ts)
partial_fixpoint

/-- Moves on over the token of an error to where a statement may start. -/
def synchronize : Descent Unit := do
  let _ ← advance ts
  skip ts

/-- Reads a declaration; one with an error is reported and dropped. -/
def recovering : Descent (Option Stmt) :=
  tryCatch (do
    let s ← declaration ts
    return some s) fun
  | .raised error => do
    report error
    synchronize ts
    return none
  | .outside => throw .outside

/-- Reads declarations up to the end token, after those read already. -/
def declarations (program : List Stmt) : Descent (List Stmt) := do
  if ← isAtEnd ts then return program
  match ← recovering ts with
  | some s => declarations.call (program ++ [s])
  | none => declarations.call program
partial_fixpoint

end Procedures

/-- A stream that ends in an end token. One that does not gets it, on its last line. -/
def ended (tokens : List Token) : List Token :=
  match tokens.getLast? with
  | some t => if t.kind = .eof then tokens else tokens ++ [Token.eof (streamLine tokens)]
  | none => [Token.eof (streamLine tokens)]

/-- The statements of a stream or all its errors, read by descent. -/
def parse (tokens : List Token) :
    Option (Except Interrupt (Except (List GrammarError) (List Stmt))) :=
  ((declarations (ended tokens) []).runAt ⟨0, []⟩).map fun (result, cursor) =>
    result.map fun program =>
      match cursor.errors with
      | [] => .ok program
      | errors => .error errors

end Descent

end Lox
