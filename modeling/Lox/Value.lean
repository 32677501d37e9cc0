import Lox.Number.Positional

/-!
# Values

A value is nil, a boolean, a number or a byte string. A place for a value may
also hold none: an absent value counts as true, equals nothing, not even another
absent value, and has a marker of its own in messages.
-/

namespace Lox

/-- What an expression evaluates to. -/
inductive Value where
  /-- The only value of the nil kind. -/
  | nil
  /-- A truth value. -/
  | bool (b : Bool)
  /-- A binary64 number. -/
  | number (x : Float)
  /-- A string of bytes. -/
  | string (s : Text)
  deriving DecidableEq

namespace Value

/-- The text that printing a value shows. -/
def text : Value → Text
  | nil => utf8 "nil"
  | bool true => utf8 "true"
  | bool false => utf8 "false"
  | number x => Number.text x
  | string s => s

/-- The text of a value inside a message; an absent value has a marker. -/
def shown : Option Value → Text
  | some v => v.text
  | none => utf8 "%!s(<nil>)"

/-- Nil and false are falsy; all else is truthy, an absent value too. -/
def truthy : Option Value → Bool
  | some nil => false
  | some (bool b) => b
  | _ => true

/-- Values of one kind are compared by content, numbers as binary64 compares
them; values of different kinds differ, and so does an absent value from
everything. -/
def equal : Option Value → Option Value → Bool
  | some nil, some nil => true
  | some (bool a), some (bool b) => a == b
  | some (number x), some (number y) => x == y
  | some (string s), some (string t) => s == t
  | _, _ => false

end Value

end Lox
