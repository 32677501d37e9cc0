import Lox.Arena
import Lox.Operator
import Lox.Tree

/-!
# Evaluation

An expression is evaluated in a scope, operands from left to right. Evaluation
prints nothing and opens no scope; assignments are its only effect, and those
made before a failure stay.
-/

namespace Lox

/-- What evaluating an expression gives: a value or a reason to stop, and the
arena with the assignments made. -/
abbrev Evaluated := Except Stop (Option Value) × Arena

/-- A runtime error at a token leaves the arena as it is. -/
def unsupported (feature : Feature) (token : Token) (arena : Arena) : Evaluated :=
  (.error (.error (RuntimeCause.at (.unsupported feature) token)), arena)

/-- The value of an operator, or its runtime error. -/
def Evaluated.ofApplied (arena : Arena) : Except RuntimeError Value → Evaluated
  | .ok v => (.ok (some v), arena)
  | .error e => (.error (.error e), arena)

/-- Whether a short-circuit operator takes its left operand as the answer: `or`
takes a truthy one, any other operator a falsy one. -/
def decides (operator : Token) (left : Option Value) : Bool :=
  if operator.kind = .word .or then Value.truthy left else !Value.truthy left

/-- The value of an expression in a scope. -/
def Expr.evaluate (scope : Int) : Expr → Arena → Evaluated
  | .absent, arena => (.error (.fault .unknownExpression), arena)
  | .literal value, arena => (.ok value, arena)
  | .grouping inner, arena => inner.evaluate scope arena
  | .name n, arena => (arena.get scope n, arena)
  | .assign n value, arena =>
    match value.evaluate scope arena with
    | (.error stop, arena) => (.error stop, arena)
    | (.ok v, arena) =>
      match arena.assign scope n v with
      | .ok assigned => (.ok v, assigned)
      | .error stop => (.error stop, arena)
  | .logical left operator right, arena =>
    match left.evaluate scope arena with
    | (.error stop, arena) => (.error stop, arena)
    | (.ok v, arena) => if decides operator v then (.ok v, arena) else right.evaluate scope arena
  | .unary operator right, arena =>
    match right.evaluate scope arena with
    | (.error stop, arena) => (.error stop, arena)
    | (.ok v, arena) => .ofApplied arena (applyUnary operator v)
  | .binary left operator right, arena =>
    match left.evaluate scope arena with
    | (.error stop, arena) => (.error stop, arena)
    | (.ok l, arena) =>
      match right.evaluate scope arena with
      | (.error stop, arena) => (.error stop, arena)
      | (.ok r, arena) => .ofApplied arena (applyBinary operator l r)
  | .call _ paren _, arena => unsupported .functionCalls paren arena
  | .get _ n, arena => unsupported .propertyAccesses n arena
  | .set _ n _, arena => unsupported .propertyAssignments n arena
  | .super keyword _, arena => unsupported .superExpressions keyword arena
  | .receiver keyword, arena => unsupported .thisExpressions keyword arena

end Lox
