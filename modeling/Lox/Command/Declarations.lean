import Lox.Command.Console
import Lox.Text.Quoted

/-!
# Declarations of tree nodes

A command that writes out the node types of expressions or statements as
declarations: an interface with a marker method, and for each node a record of
its parts that has the method.
-/

namespace Lox

/-- A family of nodes. -/
structure NodeFamily where
  /-- The family's name. -/
  name : Text
  /-- The family's name in lower case. -/
  lowerName : Text
  /-- The nodes by name, with their parts. -/
  nodes : List (Text × List Text)

namespace NodeFamily

/-- A node by name with its parts. -/
def node (name : String) (parts : List String) : Text × List Text :=
  (utf8 name, parts.map utf8)

/-- The expressions. -/
def expressions : NodeFamily :=
  ⟨utf8 "Expr", utf8 "expr",
    [node "assign" ["name Token", "value Expr"],
      node "binary" ["left Expr", "operator Token", "right Expr"],
      node "call" ["callee Expr", "paren Token", "arguments []Expr"],
      node "get" ["object Expr", "name Token"],
      node "grouping" ["expression Expr"],
      node "literal" ["value Value"],
      node "logical" ["left Expr", "operator Token", "right Expr"],
      node "set" ["object Expr", "name Token", "value Expr"],
      node "super" ["keyword Token", "method Token"],
      node "this" ["keyword Token"],
      node "unary" ["operator Token", "right Expr"],
      node "variable" ["name Token"]]⟩

/-- The statements. -/
def statements : NodeFamily :=
  ⟨utf8 "Stmt", utf8 "stmt",
    [node "block" ["stmts []Stmt"],
      node "class" ["name Token", "superclass *variableExpr", "methods []*functionStmt"],
      node "expression" ["expression Expr"],
      node "function" ["name Token", "params []Token", "body []Stmt"],
      node "if" ["keyword Token", "condition Expr", "thenBranch Stmt", "elseBranch Stmt"],
      node "print" ["keyword Token", "expression Expr"],
      node "return" ["keyword Token", "value Expr"],
      node "var" ["name Token", "initializer Expr"],
      node "while" ["keyword Token", "condition Expr", "body Stmt"]]⟩

/-- The name of a family's marker method. -/
def marker (f : NodeFamily) : Text := f.lowerName ++ utf8 "Node"

/-- The declaration of a node. -/
def declaration (f : NodeFamily) (n : Text × List Text) : Text :=
  let name := n.1 ++ f.name
  utf8 "\ntype " ++ name ++ utf8 " struct \x7b\n" ++
    n.2.flatMap (fun part => utf8 "\t" ++ part ++ utf8 "\n") ++
    utf8 "\x7d\n\nfunc (*" ++ name ++ utf8 ") " ++ f.marker ++ utf8 "() \x7b\x7d\n"

/-- The declarations of a family. -/
def text (f : NodeFamily) : Text :=
  utf8 "// Code generated by cmd/ast; DO NOT EDIT.\n\npackage internal\n\n// " ++ f.name ++
    utf8 " is one of the " ++ f.lowerName ++ utf8 " nodes declared below\ntype " ++ f.name ++
    utf8 " interface \x7b\n\t" ++ f.marker ++ utf8 "()\n\x7d\n" ++
    f.nodes.flatMap f.declaration

/-- The command on its arguments: the name of one family. -/
def run : List Text → Ending
  | [name] =>
    if name = expressions.name then ⟨.ok, .ofOut expressions.text⟩
    else if name = statements.name then ⟨.ok, .ofOut statements.text⟩
    else ⟨.usage, .ofErr (Text.line (utf8 "unknown node kind " ++ Quoted.quote name))⟩
  | _ => ⟨.usage, .ofErr (utf8 "Usage: ast Expr|Stmt\n")⟩

end NodeFamily

end Lox
