import Lox.Proofs.Tree
import Lox.Proofs.Semantics.Environment

/-!
# The meaning of programs

Rules that say what expressions and statements come to, over frames and without indices or
bounds: a value or an outcome, the lines printed, and the frames afterwards. Operands are
evaluated from left to right, a block has a frame of its own that is dropped when it ends,
and the first error or fault stops everything. A loop that never ends comes to nothing.
-/

namespace Lox.Semantics

/-- Why a run stops before its end. -/
inductive Halt where
  /-- An error of the program. -/
  | error (e : RuntimeError)
  /-- A fault of the run, which only a tree built by hand can cause. -/
  | fault (f : Fault)

/-- What printing a value shows. -/
inductive Shows : Value → Text → Prop
  | nil : Shows .nil (utf8 "nil")
  | yes : Shows (.bool true) (utf8 "true")
  | no : Shows (.bool false) (utf8 "false")
  | number (x : Float) : Shows (.number x) (Number.text x)
  | string (s : Text) : Shows (.string s) s

/-- What a message shows for an operand; a value that is absent has a marker. -/
inductive Names : Option Value → Text → Prop
  | value {v : Value} {t : Text} (h : Shows v t) : Names (some v) t
  | absent : Names none (utf8 "%!s(<nil>)")

/-- What a message calls the things that are not supported. -/
inductive Calls : Feature → Text → Prop
  | classDeclarations : Calls .classDeclarations (utf8 "Class declarations")
  | functionDeclarations : Calls .functionDeclarations (utf8 "Function declarations")
  | returnStatements : Calls .returnStatements (utf8 "Return statements")
  | functionCalls : Calls .functionCalls (utf8 "Function calls")
  | propertyAccesses : Calls .propertyAccesses (utf8 "Property accesses")
  | propertyAssignments : Calls .propertyAssignments (utf8 "Property assignments")
  | superExpressions : Calls .superExpressions (utf8 "Super expressions")
  | thisExpressions : Calls .thisExpressions (utf8 "This expressions")

/-- The messages of errors. -/
inductive Says : RuntimeCause → Text → Prop
  | undefinedVariable (name : Text) :
      Says (.undefinedVariable name) (utf8 "Undefined variable '" ++ name ++ utf8 "'.")
  | notNumber {v : Option Value} {t : Text} (h : Names v t) :
      Says (.notNumber v) (t ++ utf8 " must be a number.")
  | notNumbers {v w : Option Value} {t u : Text} (h : Names v t) (h' : Names w u) :
      Says (.notNumbers v w) (t ++ utf8 " and " ++ u ++ utf8 " must be numbers.")
  | notAddable {v w : Option Value} {t u : Text} (h : Names v t) (h' : Names w u) :
      Says (.notAddable v w)
        (t ++ utf8 " and " ++ u ++ utf8 " must both be numbers or both be strings.")
  | unknownUnary (lexeme : Text) :
      Says (.unknownUnary lexeme) (utf8 "Unknown unary operator '" ++ lexeme ++ utf8 "'.")
  | unknownBinary (lexeme : Text) :
      Says (.unknownBinary lexeme) (utf8 "Unknown binary operator '" ++ lexeme ++ utf8 "'.")
  | unsupported {feature : Feature} {t : Text} (h : Calls feature t) :
      Says (.unsupported feature) (t ++ utf8 " are not supported.")

/-- Nil and false are falsy; all else is truthy. -/
def Falsy (v : Option Value) : Prop := v = some .nil ∨ v = some (.bool false)

/-- Values of one kind with the same content, numbers as binary64 compares them. -/
inductive Same : Option Value → Option Value → Prop
  | nil : Same (some .nil) (some .nil)
  | bool (b : Bool) : Same (some (.bool b)) (some (.bool b))
  | number {x y : Float} (h : (x == y) = true) : Same (some (.number x)) (some (.number y))
  | string (s : Text) : Same (some (.string s)) (some (.string s))

/-- Two numbers. -/
def BothNumbers (left right : Option Value) : Prop :=
  ∃ x y, left = some (.number x) ∧ right = some (.number y)

/-- Two strings. -/
def BothStrings (left right : Option Value) : Prop :=
  ∃ s t, left = some (.string s) ∧ right = some (.string t)

/-- The operators that need two numbers, with what they make of them. -/
inductive Numeric (x y : Float) : Kind → Value → Prop
  | difference : Numeric x y (.sign .minus) (.number (x - y))
  | quotient : Numeric x y (.sign .slash) (.number (x / y))
  | product : Numeric x y (.sign .star) (.number (x * y))
  | greater : Numeric x y (.sign .greater) (.bool (decide (x > y)))
  | greaterEqual : Numeric x y (.sign .greaterEqual) (.bool (decide (x ≥ y)))
  | less : Numeric x y (.sign .less) (.bool (decide (x < y)))
  | lessEqual : Numeric x y (.sign .lessEqual) (.bool (decide (x ≤ y)))

/-- The kinds of the operators that need two numbers. -/
def numericKinds : List Kind :=
  [.sign .minus, .sign .slash, .sign .star, .sign .greater, .sign .greaterEqual, .sign .less,
    .sign .lessEqual]

/-- The kinds of the other operators between two operands. -/
def generalKinds : List Kind := [.sign .equalEqual, .sign .bangEqual, .sign .plus]

/-- What an operator makes of the operand after it. -/
inductive Prefixed (op : Token) (right : Option Value) : Except RuntimeError Value → Prop
  | not {b : Bool} (hop : op.kind = .sign .bang) (hb : b = true ↔ Falsy right) :
      Prefixed op right (.ok (.bool b))
  | negative {x : Float} (hop : op.kind = .sign .minus) (h : right = some (.number x)) :
      Prefixed op right (.ok (.number (-x)))
  | notNumber (hop : op.kind = .sign .minus) (h : ∀ x, right ≠ some (.number x)) :
      Prefixed op right (.error ⟨.notNumber right, op.line⟩)
  | unknown (hbang : op.kind ≠ .sign .bang) (hminus : op.kind ≠ .sign .minus) :
      Prefixed op right (.error ⟨.unknownUnary op.lexeme, op.line⟩)

/-- What an operator makes of the operands on its two sides. -/
inductive Combined (op : Token) (left right : Option Value) : Except RuntimeError Value → Prop
  | equal {b : Bool} (hop : op.kind = .sign .equalEqual) (hb : b = true ↔ Same left right) :
      Combined op left right (.ok (.bool b))
  | unequal {b : Bool} (hop : op.kind = .sign .bangEqual) (hb : b = true ↔ ¬ Same left right) :
      Combined op left right (.ok (.bool b))
  | sum {x y : Float} (hop : op.kind = .sign .plus) (hl : left = some (.number x))
      (hr : right = some (.number y)) : Combined op left right (.ok (.number (x + y)))
  | joined {s t : Text} (hop : op.kind = .sign .plus) (hl : left = some (.string s))
      (hr : right = some (.string t)) : Combined op left right (.ok (.string (s ++ t)))
  | notAddable (hop : op.kind = .sign .plus) (hn : ¬ BothNumbers left right)
      (hs : ¬ BothStrings left right) :
      Combined op left right (.error ⟨.notAddable left right, op.line⟩)
  | numeric {x y : Float} {v : Value} (hop : Numeric x y op.kind v)
      (hl : left = some (.number x)) (hr : right = some (.number y)) :
      Combined op left right (.ok v)
  | notNumbers (hop : op.kind ∈ numericKinds) (hn : ¬ BothNumbers left right) :
      Combined op left right (.error ⟨.notNumbers left right, op.line⟩)
  | unknown (hg : op.kind ∉ generalKinds) (hn : op.kind ∉ numericKinds) :
      Combined op left right (.error ⟨.unknownBinary op.lexeme, op.line⟩)

/-- Whether a left operand decides: a truthy one before `or`, a falsy one before any other
operator. -/
def Decides (op : Token) (v : Option Value) : Prop :=
  (op.kind = .word .or ∧ ¬ Falsy v) ∨ (op.kind ≠ .word .or ∧ Falsy v)

/-- The expressions that are not supported, each with its feature and the token at fault. -/
inductive Unsupported : Expr → Feature → Token → Prop
  | call (callee : Expr) (paren : Token) (arguments : List Expr) :
      Unsupported (.call callee paren arguments) .functionCalls paren
  | get (object : Expr) (n : Token) : Unsupported (.get object n) .propertyAccesses n
  | set (object : Expr) (n : Token) (value : Expr) :
      Unsupported (.set object n value) .propertyAssignments n
  | super (keyword method : Token) : Unsupported (.super keyword method) .superExpressions keyword
  | receiver (keyword : Token) : Unsupported (.receiver keyword) .thisExpressions keyword

/-- The result of an operator as that of the expression it stands in. -/
def applied : Except RuntimeError Value → Except Halt (Option Value)
  | .ok v => .ok (some v)
  | .error e => .error (.error e)

/-- What an expression comes to in some frames, and the frames afterwards. -/
inductive Evaluates : Expr → Environment → Except Halt (Option Value) → Environment → Prop
  | absent {g : Environment} : Evaluates .absent g (.error (.fault .unknownExpression)) g
  | literal {v : Option Value} {g : Environment} : Evaluates (.literal v) g (.ok v) g
  | grouping {e : Expr} {g g' : Environment} {r : Except Halt (Option Value)}
      (h : Evaluates e g r g') : Evaluates (.grouping e) g r g'
  | name {n : Token} {g : Environment} {v : Option Value} (h : g.lookup n.lexeme = some v) :
      Evaluates (.name n) g (.ok v) g
  | unbound {n : Token} {g : Environment} (h : g.lookup n.lexeme = none) :
      Evaluates (.name n) g (.error (.error ⟨.undefinedVariable n.lexeme, n.line⟩)) g
  | assign {n : Token} {e : Expr} {g g' g'' : Environment} {v : Option Value}
      (h : Evaluates e g (.ok v) g') (ha : g'.assign? n.lexeme v = some g'') :
      Evaluates (.assign n e) g (.ok v) g''
  | assignUnbound {n : Token} {e : Expr} {g g' : Environment} {v : Option Value}
      (h : Evaluates e g (.ok v) g') (ha : g'.assign? n.lexeme v = none) :
      Evaluates (.assign n e) g (.error (.error ⟨.undefinedVariable n.lexeme, n.line⟩)) g'
  | assignHalt {n : Token} {e : Expr} {g g' : Environment} {s : Halt}
      (h : Evaluates e g (.error s) g') : Evaluates (.assign n e) g (.error s) g'
  /-- The deciding operand is the result and the other one is not evaluated. -/
  | logicalLeft {left right : Expr} {op : Token} {g g' : Environment} {v : Option Value}
      (h : Evaluates left g (.ok v) g') (hd : Decides op v) :
      Evaluates (.logical left op right) g (.ok v) g'
  | logicalRight {left right : Expr} {op : Token} {g g' g'' : Environment} {v : Option Value}
      {r : Except Halt (Option Value)} (h : Evaluates left g (.ok v) g') (hd : ¬ Decides op v)
      (hr : Evaluates right g' r g'') : Evaluates (.logical left op right) g r g''
  | logicalHalt {left right : Expr} {op : Token} {g g' : Environment} {s : Halt}
      (h : Evaluates left g (.error s) g') : Evaluates (.logical left op right) g (.error s) g'
  | unary {op : Token} {e : Expr} {g g' : Environment} {v : Option Value}
      {r : Except RuntimeError Value} (h : Evaluates e g (.ok v) g') (ho : Prefixed op v r) :
      Evaluates (.unary op e) g (applied r) g'
  | unaryHalt {op : Token} {e : Expr} {g g' : Environment} {s : Halt}
      (h : Evaluates e g (.error s) g') : Evaluates (.unary op e) g (.error s) g'
  | binary {left right : Expr} {op : Token} {g g' g'' : Environment} {v w : Option Value}
      {r : Except RuntimeError Value} (h : Evaluates left g (.ok v) g')
      (hr : Evaluates right g' (.ok w) g'') (ho : Combined op v w r) :
      Evaluates (.binary left op right) g (applied r) g''
  | binaryLeftHalt {left right : Expr} {op : Token} {g g' : Environment} {s : Halt}
      (h : Evaluates left g (.error s) g') : Evaluates (.binary left op right) g (.error s) g'
  | binaryRightHalt {left right : Expr} {op : Token} {g g' g'' : Environment} {v : Option Value}
      {s : Halt} (h : Evaluates left g (.ok v) g') (hr : Evaluates right g' (.error s) g'') :
      Evaluates (.binary left op right) g (.error s) g''
  | unsupported {e : Expr} {feature : Feature} {t : Token} {g : Environment}
      (h : Unsupported e feature t) :
      Evaluates e g (.error (.error ⟨.unsupported feature, t.line⟩)) g

/-- How code ends: at its end, or before it. -/
inductive Ending where
  | done
  | halted (h : Halt)

/-- The expression that a statement evaluates first. -/
inductive Subject : Stmt → Expr → Prop
  | expression (e : Expr) : Subject (.expression e) e
  | print (keyword : Token) (e : Expr) : Subject (.print keyword e) e
  | var (n : Token) {e : Expr} (h : e ≠ .absent) : Subject (.var n e) e
  | conditional (keyword : Token) (e : Expr) (s t : Stmt) : Subject (.conditional keyword e s t) e
  | loop (keyword : Token) (e : Expr) (s : Stmt) : Subject (.loop keyword e s) e

/-- The statements that are not supported, each with its feature and the token at fault. -/
inductive UnsupportedStatement : Stmt → Feature → Token → Prop
  | classDecl (n : Token) (superclass : Option Token) (methods : List Stmt) :
      UnsupportedStatement (.classDecl n superclass methods) .classDeclarations n
  | functionDecl (n : Token) (params : List Token) (body : List Stmt) :
      UnsupportedStatement (.functionDecl n params body) .functionDeclarations n
  | returning (keyword : Token) (value : Expr) :
      UnsupportedStatement (.returning keyword value) .returnStatements keyword

/-- How code ends in some frames, the lines it prints, and the frames afterwards. -/
inductive Runs : Code → Environment → Ending → List Text → Environment → Prop
  | nil {g : Environment} : Runs (.row []) g .done [] g
  | cons {s : Stmt} {rest : List Stmt} {g g' g'' : Environment} {p q : List Text} {r : Ending}
      (hs : Runs (.statement s) g .done p g') (hr : Runs (.row rest) g' r q g'') :
      Runs (.row (s :: rest)) g r (p ++ q) g''
  | consHalt {s : Stmt} {rest : List Stmt} {g g' : Environment} {p : List Text} {h : Halt}
      (hs : Runs (.statement s) g (.halted h) p g') : Runs (.row (s :: rest)) g (.halted h) p g'
  | absent {g : Environment} : Runs (.statement .absent) g (.halted (.fault .unknownStatement)) [] g
  | unsupported {s : Stmt} {feature : Feature} {t : Token} {g : Environment}
      (hs : UnsupportedStatement s feature t) :
      Runs (.statement s) g (.halted (.error ⟨.unsupported feature, t.line⟩)) [] g
  /-- A statement whose first expression does not come to a value stops there. -/
  | subjectHalt {s : Stmt} {e : Expr} {g g' : Environment} {h : Halt} (hs : Subject s e)
      (he : Evaluates e g (.error h) g') : Runs (.statement s) g (.halted h) [] g'
  | expression {e : Expr} {g g' : Environment} {v : Option Value} (he : Evaluates e g (.ok v) g') :
      Runs (.statement (.expression e)) g .done [] g'
  | print {k : Token} {e : Expr} {g g' : Environment} {v : Value} {t : Text}
      (he : Evaluates e g (.ok (some v)) g') (ht : Shows v t) :
      Runs (.statement (.print k e)) g .done [t] g'
  | printAbsent {k : Token} {e : Expr} {g g' : Environment} (he : Evaluates e g (.ok none) g') :
      Runs (.statement (.print k e)) g (.halted (.fault .absentValue)) [] g'
  | var {n : Token} {e : Expr} {g g' : Environment} {v : Option Value} (hp : e ≠ .absent)
      (he : Evaluates e g (.ok v) g') :
      Runs (.statement (.var n e)) g .done [] (g'.define n.lexeme v)
  | varAbsent {n : Token} {g : Environment} : Runs (.statement (.var n .absent)) g .done [] g
  /-- A block has a fresh frame, which is dropped however the block ends. -/
  | block {body : List Stmt} {g g' : Environment} {b : Frame} {p : List Text} {r : Ending}
      (hb : Runs (.row body) (.inner ∅ g) r p (.inner b g')) :
      Runs (.statement (.block body)) g r p g'
  | ifTrue {k : Token} {c : Expr} {s t : Stmt} {g g' g'' : Environment} {v : Option Value}
      {p : List Text} {r : Ending} (hc : Evaluates c g (.ok v) g') (hv : ¬ Falsy v)
      (hs : Runs (.statement s) g' r p g'') : Runs (.statement (.conditional k c s t)) g r p g''
  | ifFalse {k : Token} {c : Expr} {s t : Stmt} {g g' g'' : Environment} {v : Option Value}
      {p : List Text} {r : Ending} (hc : Evaluates c g (.ok v) g') (hv : Falsy v)
      (hp : t ≠ .absent) (ht : Runs (.statement t) g' r p g'') :
      Runs (.statement (.conditional k c s t)) g r p g''
  | ifNeither {k : Token} {c : Expr} {s : Stmt} {g g' : Environment} {v : Option Value}
      (hc : Evaluates c g (.ok v) g') (hv : Falsy v) :
      Runs (.statement (.conditional k c s .absent)) g .done [] g'
  | loopEnd {k : Token} {c : Expr} {s : Stmt} {g g' : Environment} {v : Option Value}
      (hc : Evaluates c g (.ok v) g') (hv : Falsy v) : Runs (.statement (.loop k c s)) g .done [] g'
  | loopNext {k : Token} {c : Expr} {s : Stmt} {g g' g'' last : Environment} {v : Option Value}
      {p q : List Text} {r : Ending} (hc : Evaluates c g (.ok v) g') (hv : ¬ Falsy v)
      (hs : Runs (.statement s) g' .done p g'')
      (hl : Runs (.statement (.loop k c s)) g'' r q last) :
      Runs (.statement (.loop k c s)) g r (p ++ q) last
  | loopHalt {k : Token} {c : Expr} {s : Stmt} {g g' g'' : Environment} {v : Option Value}
      {p : List Text} {h : Halt} (hc : Evaluates c g (.ok v) g') (hv : ¬ Falsy v)
      (hs : Runs (.statement s) g' (.halted h) p g'') :
      Runs (.statement (.loop k c s)) g (.halted h) p g''

end Lox.Semantics
