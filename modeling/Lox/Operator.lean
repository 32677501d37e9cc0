import Lox.Stop

/-!
# Operators

Equality compares any two values. A plus sign adds numbers and joins strings.
The other arithmetic and ordering operators need two numbers and follow binary64
arithmetic, division by zero included. The kind of the token decides; its lexeme
only serves the message for a token that is no operator.
-/

namespace Lox

/-- The number operators other than a plus sign, by kind. -/
def numberOperator? : Kind → Option (Float → Float → Value)
  | .sign .minus => some fun x y => .number (x - y)
  | .sign .star => some fun x y => .number (x * y)
  | .sign .slash => some fun x y => .number (x / y)
  | .sign .greater => some fun x y => .bool (decide (x > y))
  | .sign .greaterEqual => some fun x y => .bool (decide (x ≥ y))
  | .sign .less => some fun x y => .bool (decide (x < y))
  | .sign .lessEqual => some fun x y => .bool (decide (x ≤ y))
  | _ => none

/-- The value of a sum. -/
def add (operator : Token) : Option Value → Option Value → Except RuntimeError Value
  | some (.number x), some (.number y) => .ok (.number (x + y))
  | some (.string s), some (.string t) => .ok (.string (s ++ t))
  | left, right => .error (RuntimeCause.at (.notAddable left right) operator)

/-- The value of a number operator. -/
def applyNumbers (apply : Float → Float → Value) (operator : Token) :
    Option Value → Option Value → Except RuntimeError Value
  | some (.number x), some (.number y) => .ok (apply x y)
  | left, right => .error (RuntimeCause.at (.notNumbers left right) operator)

/-- The value of an operator in front of its operand. -/
def applyUnary (operator : Token) (right : Option Value) : Except RuntimeError Value :=
  match operator.kind with
  | .sign .bang => .ok (.bool (!Value.truthy right))
  | .sign .minus =>
    match right with
    | some (.number x) => .ok (.number (-x))
    | _ => .error (RuntimeCause.at (.notNumber right) operator)
  | _ => .error (RuntimeCause.at (.unknownUnary operator.lexeme) operator)

/-- The value of an operator between two operands. -/
def applyBinary (operator : Token) (left right : Option Value) : Except RuntimeError Value :=
  match operator.kind with
  | .sign .equalEqual => .ok (.bool (Value.equal left right))
  | .sign .bangEqual => .ok (.bool (!Value.equal left right))
  | .sign .plus => add operator left right
  | kind =>
    match numberOperator? kind with
    | some apply => applyNumbers apply operator left right
    | none => .error (RuntimeCause.at (.unknownBinary operator.lexeme) operator)

end Lox
