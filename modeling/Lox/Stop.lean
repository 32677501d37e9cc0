import Lox.Token
import Lox.Report

/-!
# Why a run stops

A statement that cannot be carried out stops the run with a runtime error. Two
further ways to stop are no errors of the program: a fault of the run itself,
which only a tree built by hand can cause, and a loop that is still going when
its rounds are used up.
-/

namespace Lox

/-- What trees can express and a run does not support. -/
inductive Feature where
  | classDeclarations
  | functionDeclarations
  | returnStatements
  | functionCalls
  | propertyAccesses
  | propertyAssignments
  | superExpressions
  | thisExpressions
  deriving DecidableEq, Repr

/-- The name of a feature in messages. -/
def Feature.text : Feature → Text
  | classDeclarations => utf8 "Class declarations"
  | functionDeclarations => utf8 "Function declarations"
  | returnStatements => utf8 "Return statements"
  | functionCalls => utf8 "Function calls"
  | propertyAccesses => utf8 "Property accesses"
  | propertyAssignments => utf8 "Property assignments"
  | superExpressions => utf8 "Super expressions"
  | thisExpressions => utf8 "This expressions"

/-- Why a statement cannot be carried out. -/
inductive RuntimeCause where
  /-- No scope in reach binds the name. -/
  | undefinedVariable (name : Text)
  /-- The operand of a negation is no number. -/
  | notNumber (right : Option Value)
  /-- The operands of an arithmetic or ordering operator are not both numbers. -/
  | notNumbers (left right : Option Value)
  /-- The operands of a plus sign are neither two numbers nor two strings. -/
  | notAddable (left right : Option Value)
  /-- The token in front of an operand is no operator. -/
  | unknownUnary (lexeme : Text)
  /-- The token between two operands is no operator. -/
  | unknownBinary (lexeme : Text)
  /-- The tree needs something that is not supported. -/
  | unsupported (feature : Feature)
  deriving DecidableEq

/-- The message of a cause. -/
def RuntimeCause.message : RuntimeCause → Text
  | undefinedVariable name => utf8 "Undefined variable '" ++ name ++ utf8 "'."
  | notNumber right => Value.shown right ++ utf8 " must be a number."
  | notNumbers left right =>
    Value.shown left ++ utf8 " and " ++ Value.shown right ++ utf8 " must be numbers."
  | notAddable left right =>
    Value.shown left ++ utf8 " and " ++ Value.shown right ++
      utf8 " must both be numbers or both be strings."
  | unknownUnary lexeme => utf8 "Unknown unary operator '" ++ lexeme ++ utf8 "'."
  | unknownBinary lexeme => utf8 "Unknown binary operator '" ++ lexeme ++ utf8 "'."
  | unsupported feature => feature.text ++ utf8 " are not supported."

/-- A runtime error and its line. -/
structure RuntimeError where
  /-- What is wrong. -/
  cause : RuntimeCause
  /-- The line of the token at fault. -/
  line : Int
  deriving DecidableEq

/-- A runtime error as it is shown. -/
def RuntimeError.report (e : RuntimeError) : Report := .runtime e.cause.message e.line

/-- The runtime error of a cause at a token. -/
def RuntimeCause.at (cause : RuntimeCause) (token : Token) : RuntimeError := ⟨cause, token.line⟩

/-- A fault of the run itself. -/
inductive Fault where
  /-- A missing statement was to be carried out. -/
  | unknownStatement
  /-- A missing expression was to be evaluated. -/
  | unknownExpression
  /-- An absent value was to be printed. -/
  | absentValue
  /-- A scope was addressed that does not exist. -/
  | noSuchScope
  deriving DecidableEq, Repr

/-- The message of a fault, if it has one. -/
def Fault.message? : Fault → Option Text
  | unknownStatement => some (utf8 "unknown statement node")
  | unknownExpression => some (utf8 "unknown expression node")
  | absentValue => none
  | noSuchScope => none

/-- Why a run stopped early. -/
inductive Stop where
  /-- A statement could not be carried out. -/
  | error (e : RuntimeError)
  /-- The run itself went wrong. -/
  | fault (f : Fault)
  /-- Rounds were used up before an end was reached. -/
  | unfinished
  deriving DecidableEq

end Lox
