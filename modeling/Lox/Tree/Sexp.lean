import Lox.Text.Quoted
import Lox.Tree

/-!
# Trees as S-expressions

A tree is shown as an S-expression: an operator or a construct's name first, its
parts after it. A string stands quoted, other values as they are printed, and a
missing node has a marker. A literal without a value has no written form. How a
string is quoted is left open until the end.
-/

namespace Lox

/-- A symbol, or a list of S-expressions. -/
inductive Sexp where
  /-- A symbol, by its bytes. -/
  | atom (text : Text)
  /-- A list. -/
  | list (items : List Sexp)

namespace Sexp

/-- A symbol that is a fixed word. -/
def word (s : String) : Sexp := atom (utf8 s)

mutual

/-- The text of an S-expression: lists stand in parentheses. -/
def text : Sexp → Text
  | atom t => t
  | list items => utf8 "(" ++ texts items ++ utf8 ")"

/-- The texts of several S-expressions with one space between neighbours. -/
def texts : List Sexp → Text
  | [] => []
  | [item] => item.text
  | item :: rest => item.text ++ utf8 " " ++ texts rest

end

/-- The marker of a missing node. -/
def missing : Sexp := list [word "unknown", word "<nil>"]

end Sexp

namespace Expr

mutual

/-- The S-expression of an expression, if every literal has a value, for a given
way to quote strings. -/
def sexpWith? (quote : Text → Text) : Expr → Option Sexp
  | absent => some Sexp.missing
  | literal none => none
  | literal (some (.string s)) => some (.atom (quote s))
  | literal (some v) => some (.atom v.text)
  | grouping inner => do return .list [.word "group", ← inner.sexpWith? quote]
  | name n => some (.atom n.lexeme)
  | assign n value => do return .list [.word "=", .atom n.lexeme, ← value.sexpWith? quote]
  | unary operator right => do return .list [.atom operator.lexeme, ← right.sexpWith? quote]
  | binary left operator right => do
    return .list [.atom operator.lexeme, ← left.sexpWith? quote, ← right.sexpWith? quote]
  | logical left operator right => do
    return .list [.atom operator.lexeme, ← left.sexpWith? quote, ← right.sexpWith? quote]
  | call callee _ arguments => do
    return .list (.word "call" :: (← callee.sexpWith? quote) :: (← sexpsWith? quote arguments))
  | get object n => do return .list [.word ".", ← object.sexpWith? quote, .atom n.lexeme]
  | set object n value => do
    return .list [.word "=", .list [.word ".", ← object.sexpWith? quote, .atom n.lexeme],
      ← value.sexpWith? quote]
  | super _ method => some (.list [.word "super", .atom method.lexeme])
  | receiver _ => some (.word "this")

/-- The S-expressions of several expressions. -/
def sexpsWith? (quote : Text → Text) : List Expr → Option (List Sexp)
  | [] => some []
  | e :: rest => do return (← e.sexpWith? quote) :: (← sexpsWith? quote rest)

end

/-- The S-expression of an expression, if every literal has a value. -/
def sexp? (e : Expr) : Option Sexp := e.sexpWith? Quoted.quote

end Expr

namespace Stmt

/-- The S-expressions of a child that may be missing: none or one. -/
def optional? (quote : Text → Text) (e : Expr) : Option (List Sexp) :=
  if e.isPresent then (e.sexpWith? quote).map fun s => [s] else some []

mutual

/-- The S-expression of a statement, if every literal has a value, for a given way
to quote strings. -/
def sexpWith? (quote : Text → Text) : Stmt → Option Sexp
  | absent => some Sexp.missing
  | expression value => value.sexpWith? quote
  | print _ value => do return .list [.word "print", ← value.sexpWith? quote]
  | var n initializer => do
    return .list (.word "var" :: .atom n.lexeme :: (← optional? quote initializer))
  | block body => do return .list (.word "scope" :: (← sexpsWith? quote body))
  | conditional _ condition thenBranch elseBranch => do
    let head ← condition.sexpWith? quote
    let first ← thenBranch.sexpWith? quote
    if elseBranch.isPresent then
      return .list [.word "if", head, first, ← elseBranch.sexpWith? quote]
    else return .list [.word "if", head, first]
  | loop _ condition body => do
    return .list [.word "while", ← condition.sexpWith? quote, ← body.sexpWith? quote]
  | functionDecl n params body => do
    return .list (.word "fun" :: .atom n.lexeme ::
      .list (params.map fun p => .atom p.lexeme) :: (← sexpsWith? quote body))
  | classDecl n superclass methods => do
    let above := match superclass with
      | some s => [.word "<", .atom s.lexeme]
      | none => []
    return .list (.word "class" :: .atom n.lexeme :: above ++ (← sexpsWith? quote methods))
  | returning _ value => do return .list (.word "return" :: (← optional? quote value))

/-- The S-expressions of several statements. -/
def sexpsWith? (quote : Text → Text) : List Stmt → Option (List Sexp)
  | [] => some []
  | s :: rest => do return (← s.sexpWith? quote) :: (← sexpsWith? quote rest)

end

/-- The S-expression of a statement, if every literal has a value. -/
def sexp? (s : Stmt) : Option Sexp := s.sexpWith? Quoted.quote

/-- The S-expressions of several statements. -/
def sexps? (body : List Stmt) : Option (List Sexp) := sexpsWith? Quoted.quote body

end Stmt

/-- The text of a program: one S-expression a line, if every literal has a value,
for a given way to quote strings. -/
def treeTextWith? (quote : Text → Text) (program : List Stmt) : Option Text :=
  (Stmt.sexpsWith? quote program).map fun items => Text.unlines (items.map Sexp.text)

/-- The text of a program: one S-expression a line, if every literal has a value. -/
def treeText? (program : List Stmt) : Option Text := treeTextWith? Quoted.quote program

end Lox
