import Lox.Tree.Position

/-!
# Reading a program

A program is read in one pass, one step a token. A token that cannot continue
the program is an error: whatever was open is given up, the token and those after
it are dropped up to a semicolon or a word that starts a statement, and reading
resumes there. An assignment to something that is no variable is an error too,
but nothing is given up for it. A program with errors has no statements.
-/

namespace Lox

/-- How far a program has been read. -/
structure Reading where
  /-- The constructs that wait for a statement, the innermost first. -/
  outer : List Outer
  /-- What may come next. -/
  mode : Mode
  /-- The statements read so far at the top level. -/
  program : List Stmt
  /-- The errors found so far. -/
  errors : List GrammarError

namespace Reading

/-- Nothing has been read yet. -/
def start : Reading := ⟨[], .expecting .declaration, [], []⟩

/-- The reading with something definite to come next. -/
def expect (r : Reading) (goal : Goal) : Reading := { r with mode := .expecting goal }

/-- The reading inside one more construct. -/
def enter (r : Reading) (construct : Outer) (goal : Goal) : Reading :=
  { r with outer := construct :: r.outer, mode := .expecting goal }

/-- The reading after a complete statement. -/
def finish (r : Reading) (s : Stmt) : Reading := { r with mode := .complete s }

/-- The reading after a token that cannot continue the program. -/
def fail (r : Reading) (t : Token) (cause : GrammarCause) : Reading :=
  { r with outer := [], mode := .skipping t, errors := r.errors ++ [⟨cause, t.line⟩] }

/-- An operand together with the operators of at least the given level that wait
for it, and what is left waiting. -/
def reduce (level : Nat) (value : Expr) : List Pending → Expr × List Pending
  | .unary operator :: rest => reduce level (.unary operator value) rest
  | .binary left operator :: rest =>
    if level ≤ operator.kind.level then reduce level (left.infixNode operator value) rest
    else (value, .binary left operator :: rest)
  | rest => (value, rest)

/-- A whole expression: all that waits for an operand up to a parenthesis, what
is left waiting, and an error for each target that is no variable. -/
def close (value : Expr) : List Pending → Expr × List Pending × List GrammarError
  | .unary operator :: rest => close (.unary operator value) rest
  | .binary left operator :: rest => close (left.infixNode operator value) rest
  | .assign (.name n) _ :: rest => close (.assign n value) rest
  | .assign target equals :: rest =>
    let (e, left, errors) := close target rest
    (e, left, ⟨.invalidTarget, equals.line⟩ :: errors)
  | rest => (value, rest, [])

/-- A complete statement goes to the construct that waits for it, which says what
comes next; a conditional that could still take an alternative goes without. -/
def conclude (r : Reading) (s : Stmt) : List Outer → Reading × Goal
  | [] => ({ r with outer := [], program := r.program ++ [s] }, .declaration)
  | .block body :: outer => ({ r with outer := .block (body ++ [s]) :: outer }, .declaration)
  | .thenBranch keyword condition :: outer =>
    conclude r (.conditional keyword condition s .absent) outer
  | .elseBranch keyword condition thenBranch :: outer =>
    conclude r (.conditional keyword condition thenBranch s) outer
  | .whileBody keyword condition :: outer => conclude r (.loop keyword condition s) outer
  | .forBody clauses :: outer => conclude r (clauses.desugar s) outer
  | .forInit keyword :: outer => ({ r with outer := outer }, .forCondition keyword (some s))

/-- The constructs that are open when an `else` follows a complete statement: the
nearest conditional without an alternative waits for it. There may be none. -/
def attachElse? (s : Stmt) : List Outer → Option (List Outer)
  | .thenBranch keyword condition :: outer => some (.elseBranch keyword condition s :: outer)
  | .elseBranch keyword condition thenBranch :: outer =>
    attachElse? (.conditional keyword condition thenBranch s) outer
  | .whileBody keyword condition :: outer => attachElse? (.loop keyword condition s) outer
  | .forBody clauses :: outer => attachElse? (clauses.desugar s) outer
  | .block _ :: _ | .forInit _ :: _ | [] => none

/-- A token where an operand has to come. -/
def shiftOperand (r : Reading) (pending : List Pending) (place : Place) (t : Token) : Reading :=
  match t.kind with
  | .sign .bang | .sign .minus => r.expect (.operand (.unary t :: pending) place)
  | .number | .string => r.expect (.operator (.literal t.literal) pending place)
  | .word .false_ => r.expect (.operator (.literal (some (.bool false))) pending place)
  | .word .true_ => r.expect (.operator (.literal (some (.bool true))) pending place)
  | .word .nil => r.expect (.operator (.literal (some .nil)) pending place)
  | .identifier => r.expect (.operator (.name t) pending place)
  | .sign .leftParen => r.expect (.operand (.group :: pending) place)
  | _ => r.fail t .expectExpression

/-- A token after a whole expression that is in no parentheses. -/
def shiftEnd (r : Reading) (value : Expr) (place : Place) (t : Token) : Reading :=
  match place with
  | .statement =>
    if t.kind = .sign .semicolon then r.finish (.expression value)
    else r.fail t .semicolonAfterExpression
  | .printed keyword =>
    if t.kind = .sign .semicolon then r.finish (.print keyword value)
    else r.fail t .semicolonAfterValue
  | .initializer name =>
    if t.kind = .sign .semicolon then r.finish (.var name value)
    else r.fail t .semicolonAfterVariable
  | .ifCondition keyword =>
    if t.kind = .sign .rightParen then r.enter (.thenBranch keyword value) .statement
    else r.fail t .parenAfterCondition
  | .whileCondition keyword =>
    if t.kind = .sign .rightParen then r.enter (.whileBody keyword value) .statement
    else r.fail t .parenAfterCondition
  | .forCondition keyword init =>
    if t.kind = .sign .semicolon then r.expect (.forStep keyword init (some value))
    else r.fail t .semicolonAfterCondition
  | .forStep keyword init condition =>
    if t.kind = .sign .rightParen then
      r.enter (.forBody ⟨keyword, init, condition, some value⟩) .statement
    else r.fail t .parenAfterClauses

/-- A token after an operand. -/
def shiftOperator (r : Reading) (value : Expr) (pending : List Pending) (place : Place)
    (t : Token) : Reading :=
  if 0 < t.kind.level then
    let (left, rest) := reduce t.kind.level value pending
    r.expect (.operand (.binary left t :: rest) place)
  else if t.kind = .sign .equal then
    let (target, rest) := reduce 0 value pending
    r.expect (.operand (.assign target t :: rest) place)
  else
    let (whole, rest, errors) := close value pending
    let r := { r with errors := r.errors ++ errors }
    match rest with
    | [] => r.shiftEnd whole place t
    | _ :: rest =>
      if t.kind = .sign .rightParen then r.expect (.operator (.grouping whole) rest place)
      else r.fail t .parenAfterExpression

/-- A token where a statement has to come. -/
def shiftStatement (r : Reading) (t : Token) : Reading :=
  match t.kind with
  | .word .for_ => r.expect (.forParen t)
  | .word .if_ => r.expect (.ifParen t)
  | .word .print => r.expect (.operand [] (.printed t))
  | .word .while_ => r.expect (.whileParen t)
  | .sign .leftBrace => r.enter (.block []) .declaration
  | _ => r.shiftOperand [] .statement t

/-- A token where a declaration may come: a closing brace ends the innermost
block, and the end token ends the program but no block. -/
def shiftDeclaration (r : Reading) (t : Token) : Reading :=
  match t.kind, r.outer with
  | .word .var, _ => r.expect .varName
  | .sign .rightBrace, .block body :: outer => { r with outer := outer }.finish (.block body)
  | .eof, [] => r.expect .declaration
  | .eof, _ => r.fail t .braceAfterBlock
  | _, _ => r.shiftStatement t

/-- A token where something definite has to come. -/
def shift (r : Reading) (goal : Goal) (t : Token) : Reading :=
  match goal with
  | .declaration => r.shiftDeclaration t
  | .statement => r.shiftStatement t
  | .operand pending place => r.shiftOperand pending place t
  | .operator value pending place => r.shiftOperator value pending place t
  | .varName =>
    if t.kind = .identifier then r.expect (.varEnd t) else r.fail t .expectVariableName
  | .varEnd name =>
    match t.kind with
    | .sign .equal => r.expect (.operand [] (.initializer name))
    | .sign .semicolon => r.finish (.var name .absent)
    | _ => r.fail t .semicolonAfterVariable
  | .ifParen keyword =>
    if t.kind = .sign .leftParen then r.expect (.operand [] (.ifCondition keyword))
    else r.fail t .parenAfterIf
  | .whileParen keyword =>
    if t.kind = .sign .leftParen then r.expect (.operand [] (.whileCondition keyword))
    else r.fail t .parenAfterWhile
  | .forParen keyword =>
    if t.kind = .sign .leftParen then r.expect (.forInit keyword)
    else r.fail t .parenAfterFor
  | .forInit keyword =>
    match t.kind with
    | .sign .semicolon => r.expect (.forCondition keyword none)
    | .word .var => r.enter (.forInit keyword) .varName
    | _ => { r with outer := .forInit keyword :: r.outer }.shiftOperand [] .statement t
  | .forCondition keyword init =>
    if t.kind = .sign .semicolon then r.expect (.forStep keyword init none)
    else r.shiftOperand [] (.forCondition keyword init) t
  | .forStep keyword init condition =>
    if t.kind = .sign .rightParen then
      r.enter (.forBody ⟨keyword, init, condition, none⟩) .statement
    else r.shiftOperand [] (.forStep keyword init condition) t

/-- One step of reading. -/
def step (r : Reading) (t : Token) : Reading :=
  match r.mode with
  | .expecting goal => r.shift goal t
  | .complete s =>
    match (if t.kind = .word .else_ then attachElse? s r.outer else none) with
    | some outer => { r with outer := outer, mode := .expecting .statement }
    | none =>
      let (concluded, goal) := r.conclude s r.outer
      concluded.shift goal t
  | .skipping previous =>
    if previous.kind = .sign .semicolon || t.kind.startsStatement then
      r.shift .declaration t
    else { r with mode := .skipping t }

/-- Reading of several tokens. -/
def run (r : Reading) (tokens : List Token) : Reading := tokens.foldl step r

/-- Reading goes on where it stopped. -/
theorem run_append (r : Reading) (a b : List Token) : r.run (a ++ b) = (r.run a).run b :=
  List.foldl_append

end Reading

/-- The line of the end of a stream that has no end token: its last token's. -/
def streamLine (tokens : List Token) : Int :=
  match tokens.getLast? with
  | some t => t.line
  | none => 1

/-- The tokens of a stream before its first end token. -/
def beforeEnd (tokens : List Token) : List Token :=
  tokens.takeWhile fun t => t.kind ≠ .eof

/-- The first end token of a stream, or one on its last line. -/
def endToken (tokens : List Token) : Token :=
  match tokens.find? fun t => t.kind = .eof with
  | some t => t
  | none => Token.eof (streamLine tokens)

/-- The statements of a stream up to its first end token, or all its errors. -/
def parse (tokens : List Token) : Except (List GrammarError) (List Stmt) :=
  let r := Reading.start.run (beforeEnd tokens ++ [endToken tokens])
  match r.errors with
  | [] => .ok r.program
  | errors => .error errors

end Lox
