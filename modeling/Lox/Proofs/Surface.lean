import Lox.Proofs.Execution
import Lox.Proofs.Grammar.Soundness

/-!
# Programs as they are written

Trees that keep the `for`s of a program, and what they mean by themselves. A `for` with a first
clause opens one scope for the whole loop and runs the clause there; without one it stays in the
current scope. Then it runs rounds as long as its condition holds: the body and the last clause, in
the scope of the loop. Branches and bodies are statements; declarations stand in rows only. Every
stream that is read as a program spells such a tree, and its program is the tree with every `for`
put in terms of blocks and loops.
-/

namespace Lox

/-- What follows the value of an expression, if it comes to one. -/
def Machine.valued (m : Machine) (e : Expr) (next : Option Value → Machine → Ran) : Ran :=
  match m.evaluate e with
  | (.error stop, m) => m.halt stop
  | (.ok v, m) => next v m

/-- What follows a condition, by whether it holds. -/
def Machine.branch (m : Machine) (condition : Expr) (yes no : Machine → Ran) : Ran :=
  m.valued condition fun v m => if Value.truthy v then yes m else no m

namespace Surface

/-- The first clause of a `for`. -/
inductive Opening where
  /-- A variable is declared; the initializer may be absent. -/
  | var (name : Token) (initializer : Expr)
  /-- An expression is evaluated. -/
  | expression (value : Expr)

/-- The first clause as a statement. -/
def Opening.statement : Opening → Stmt
  | var n e => .var n e
  | expression e => .expression e

mutual

/-- A statement as it is written. -/
inductive Statement where
  | expression (value : Expr)
  | print (keyword : Token) (value : Expr)
  | block (body : Row)
  | ifThen (keyword : Token) (condition : Expr) (thenBranch : Statement)
  | ifElse (keyword : Token) (condition : Expr) (thenBranch elseBranch : Statement)
  | whileLoop (keyword : Token) (condition : Expr) (body : Statement)
  | forLoop (keyword : Token) (init : Option Opening) (condition step : Option Expr)
      (body : Statement)

/-- Declarations and statements in a row. -/
inductive Row where
  | nil
  | var (name : Token) (initializer : Expr) (rest : Row)
  | statement (s : Statement) (rest : Row)

end

mutual

/-- The statement with every `for` put in terms of blocks and loops. -/
def Statement.desugar : Statement → Stmt
  | .expression e => .expression e
  | .print k e => .print k e
  | .block body => .block body.desugar
  | .ifThen k c s => .conditional k c s.desugar .absent
  | .ifElse k c s t => .conditional k c s.desugar t.desugar
  | .whileLoop k c s => .loop k c s.desugar
  | .forLoop k init c step s =>
    (ForClauses.mk k (init.map Opening.statement) c step).desugar s.desugar
termination_by structural s => s

/-- The row with every `for` put in terms of blocks and loops. -/
def Row.desugar : Row → List Stmt
  | .nil => []
  | .var n e rest => .var n e :: rest.desugar
  | .statement s rest => s.desugar :: rest.desugar
termination_by structural row => row

end

/-- The last clause of a `for` is evaluated. -/
def advance : Option Expr → Machine → Ran
  | none, m => m.idle
  | some e, m => m.valued e fun _ m => m.idle

/-- The rounds of a `for`, over a bounded count: as long as the condition holds, which one that is
left out does, the body and the last clause. -/
def forRounds (condition step : Option Expr) (body : Machine → Ran) : Nat → Machine → Ran
  | 0, m => m.halt .unfinished
  | rounds + 1, m =>
    let round (m : Machine) : Ran :=
      ((body m).andThen (advance step)).andThen (forRounds condition step body rounds)
    match condition with
    | none => round m
    | some c => m.branch c round Machine.idle

/-- A `for` is carried out: with a first clause in one scope for the whole loop, else in the
current scope. -/
def executeFor (settings : Settings) (init : Option Opening) (condition step : Option Expr)
    (body : Machine → Ran) (m : Machine) : Ran :=
  match init with
  | none => forRounds condition step body settings.rounds m
  | some first =>
    inScope settings (fun m => (first.statement.execute settings m).andThen
      (forRounds condition step body settings.rounds)) m

mutual

/-- A statement is carried out as it is written. -/
def Statement.execute (settings : Settings) : Statement → Machine → Ran
  | .expression e, m => (Stmt.expression e).execute settings m
  | .print k e, m => (Stmt.print k e).execute settings m
  | .block body, m => inScope settings (fun m => body.execute settings m) m
  | .ifThen _ c s, m => m.branch c (fun m => s.execute settings m) Machine.idle
  | .ifElse _ c s t, m => m.branch c (fun m => s.execute settings m) fun m => t.execute settings m
  | .whileLoop _ c s, m => repeatWhile c (fun m => s.execute settings m) settings.rounds m
  | .forLoop _ init c step s, m =>
    executeFor settings init c step (fun m => s.execute settings m) m
termination_by structural s => s

/-- A row is carried out as it is written, in order until something stops. -/
def Row.execute (settings : Settings) : Row → Machine → Ran
  | .nil, m => m.idle
  | .var n e rest, m =>
    ((Stmt.var n e).execute settings m).andThen fun m => rest.execute settings m
  | .statement s rest, m => (s.execute settings m).andThen fun m => rest.execute settings m
termination_by structural row => row

end

open Grammar

mutual

/-- The tokens that spell a statement. -/
inductive Statement.Spelled : Statement → List Token → Prop
  | expression {ts : List Token} {e : Expr} (h : ExpressionStatement ts (.expression e) []) :
      Statement.Spelled (.expression e) ts
  | print {k semi : Token} {ts : List Token} {e : Expr} (hk : k.kind = .word .print)
      (he : Expression .assignment ts e []) (hs : semi.kind = .sign .semicolon) :
      Statement.Spelled (.print k e) (k :: ts ++ [semi])
  | block {l r : Token} {ts : List Token} {body : Row} (hl : l.kind = .sign .leftBrace)
      (hb : Row.Spelled body ts) (hr : r.kind = .sign .rightBrace) :
      Statement.Spelled (.block body) (l :: ts ++ [r])
  | ifThen {k l r : Token} {ts us : List Token} {c : Expr} {s : Statement}
      (hk : k.kind = .word .if_) (hl : l.kind = .sign .leftParen)
      (hc : Expression .assignment ts c []) (hr : r.kind = .sign .rightParen)
      (hs : Statement.Spelled s us) :
      Statement.Spelled (.ifThen k c s) (k :: l :: ts ++ r :: us)
  | ifElse {k l r el : Token} {ts us vs : List Token} {c : Expr} {s t : Statement}
      (hk : k.kind = .word .if_) (hl : l.kind = .sign .leftParen)
      (hc : Expression .assignment ts c []) (hr : r.kind = .sign .rightParen)
      (hs : Statement.Spelled s us) (hel : el.kind = .word .else_)
      (ht : Statement.Spelled t vs) :
      Statement.Spelled (.ifElse k c s t) (k :: l :: ts ++ r :: us ++ el :: vs)
  | whileLoop {k l r : Token} {ts us : List Token} {c : Expr} {s : Statement}
      (hk : k.kind = .word .while_) (hl : l.kind = .sign .leftParen)
      (hc : Expression .assignment ts c []) (hr : r.kind = .sign .rightParen)
      (hs : Statement.Spelled s us) :
      Statement.Spelled (.whileLoop k c s) (k :: l :: ts ++ r :: us)
  | forLoop {k l semi r : Token} {is cs ss us : List Token} {init : Option Opening}
      {condition step : Option Expr} {s : Statement} (hk : k.kind = .word .for_)
      (hl : l.kind = .sign .leftParen) (hi : FirstClause is (init.map Opening.statement) [])
      (hc : OptionalExpression cs condition []) (hsemi : semi.kind = .sign .semicolon)
      (hst : OptionalExpression ss step []) (hr : r.kind = .sign .rightParen)
      (hs : Statement.Spelled s us) :
      Statement.Spelled (.forLoop k init condition step s)
        (k :: l :: is ++ cs ++ semi :: ss ++ r :: us)

/-- The tokens that spell a row. -/
inductive Row.Spelled : Row → List Token → Prop
  | nil : Row.Spelled .nil []
  | var {ts us : List Token} {n : Token} {e : Expr} {rest : Row}
      (h : VarDeclaration ts (.var n e) []) (hr : Row.Spelled rest us) :
      Row.Spelled (.var n e rest) (ts ++ us)
  | statement {ts us : List Token} {s : Statement} {rest : Row} (hs : Statement.Spelled s ts)
      (hr : Row.Spelled rest us) : Row.Spelled (.statement s rest) (ts ++ us)

end

/-- A first clause is spelled as one of its two kinds. -/
theorem exists_opening {ts : List Token} {init : Option Stmt} {f : List Token}
    (h : FirstClause ts init f) : ∃ o : Option Opening, o.map Opening.statement = init := by
  cases h with
  | none => exact ⟨none, rfl⟩
  | var h => cases h <;> exact ⟨some (.var _ _), rfl⟩
  | expression h =>
    cases h
    exact ⟨some (.expression _), rfl⟩

/-- The tokens of a form spell a tree that is put in terms of the given one; a declaration does so
in front of any row. -/
def HasSurface (ts : List Token) (s : Stmt) : Form → Prop
  | .statement _ => ∃ w : Statement, w.Spelled ts ∧ w.desugar = s
  | .declaration => ∀ (rest : Row) (us : List Token), rest.Spelled us →
      ∃ row : Row, row.Spelled (ts ++ us) ∧ row.desugar = s :: rest.desugar

/-- Pieces in a row spell a row. -/
theorem exists_row {pieces : List Piece}
    (h : ∀ p ∈ pieces, HasSurface p.tokens p.tree .declaration) :
    ∃ row : Row, row.Spelled (pieces.flatMap Piece.tokens) ∧
      row.desugar = pieces.map Piece.tree := by
  induction pieces with
  | nil => exact ⟨.nil, .nil, rfl⟩
  | cons p rest ih =>
    obtain ⟨hp, hrest⟩ := List.forall_mem_cons.mp h
    obtain ⟨row, hspelled, hdesugar⟩ := ih hrest
    obtain ⟨row', hspelled', hdesugar'⟩ := hp row _ hspelled
    exact ⟨row', hspelled', by rw [hdesugar', hdesugar, List.map_cons]⟩

/-- What is derived without faults is spelled by its tokens. -/
theorem hasSurface_of_phrase {rule : ElseRule} {form : Form} {ts f : List Token} {s : Stmt}
    (h : Phrase rule form ts s f) (hf : f = []) : HasSurface ts s form := by
  induction h with
  | var h =>
    intro rest us hrest
    subst hf
    cases h with
    | bare hv hn hs => exact ⟨.var _ _ rest, .var (.bare hv hn hs) hrest, rfl⟩
    | initialized hv hn heq he hs =>
      exact ⟨.var _ _ rest, .var (.initialized hv hn heq he hs) hrest, rfl⟩
  | statement _ ih =>
    intro rest us hrest
    obtain ⟨w, hspelled, rfl⟩ := ih hf
    exact ⟨.statement w rest, .statement hspelled hrest, rfl⟩
  | expression h =>
    subst hf
    cases h with
    | intro he hs => exact ⟨.expression _, .expression (.intro he hs), rfl⟩
  | print hk he hs =>
    subst hf
    exact ⟨.print _ _, .print hk he hs, rfl⟩
  | block hl _ hr ih =>
    rw [List.flatMap_eq_nil_iff] at hf
    obtain ⟨row, hspelled, hdesugar⟩ := exists_row fun p hp => ih p hp (hf p hp)
    exact ⟨.block row, .block hl hspelled hr, by rw [Statement.desugar, hdesugar]⟩
  | ifThen hk hl hc hr _ ih =>
    obtain ⟨rfl, hg⟩ := List.append_eq_nil_iff.mp hf
    obtain ⟨w, hspelled, rfl⟩ := ih hg
    exact ⟨.ifThen _ _ w, .ifThen hk hl hc hr hspelled, rfl⟩
  | ifElse hk hl hc hr _ _ hel _ ihs iht =>
    obtain ⟨hfg, hh⟩ := List.append_eq_nil_iff.mp hf
    obtain ⟨rfl, hg⟩ := List.append_eq_nil_iff.mp hfg
    obtain ⟨w, hspelled, rfl⟩ := ihs hg
    obtain ⟨w', hspelled', rfl⟩ := iht hh
    exact ⟨.ifElse _ _ w w', .ifElse hk hl hc hr hspelled hel hspelled', rfl⟩
  | whileLoop hk hl hc hr _ ih =>
    obtain ⟨rfl, hg⟩ := List.append_eq_nil_iff.mp hf
    obtain ⟨w, hspelled, rfl⟩ := ih hg
    exact ⟨.whileLoop _ _ w, .whileLoop hk hl hc hr hspelled, rfl⟩
  | forLoop hk hl hi hc hsemi hst hr _ ih =>
    obtain ⟨hfgh, hj⟩ := List.append_eq_nil_iff.mp hf
    obtain ⟨hfg, rfl⟩ := List.append_eq_nil_iff.mp hfgh
    obtain ⟨rfl, rfl⟩ := List.append_eq_nil_iff.mp hfg
    obtain ⟨w, hspelled, rfl⟩ := ih hj
    obtain ⟨init, rfl⟩ := exists_opening hi
    refine ⟨.forLoop _ init _ _ w, .forLoop hk hl hi hc hsemi hst hr hspelled, ?_⟩
    rw [Statement.desugar, desugar_eq_forTree]

/-- A stream that is read as a program spells a row, and the program is that row with every `for`
put in terms of blocks and loops. -/
theorem exists_row_of_parse {ts : List Token} {program : List Stmt}
    (h : parse ts = .ok program) :
    ∃ row : Row, row.Spelled (beforeEnd ts) ∧ row.desugar = program := by
  obtain ⟨pieces, hp, hts, rfl, hfaults⟩ := program_of_parse h
  rw [hts]
  have hnone := List.flatMap_eq_nil_iff.mp hfaults.symm
  exact exists_row fun p hmem => hasSurface_of_phrase (hp p hmem) (hnone p hmem)

end Surface

end Lox
