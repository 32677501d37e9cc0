import Lox.Tree.Position

/-!
# The grammar of programs

The rules by which tokens make up a program, with the tree that each rule builds.
Operators of one category associate to the left, operators in front of an operand
and assignments to the right. A relation also records its faults: the equals signs
that follow something other than a variable. A stretch of tokens belongs to the
language when it is derived without faults; the rule that admits faults is there
because reading does not stop at them.

The rules for conditionals leave open to which conditional an `else` belongs. The
stricter rule, under which it belongs to the nearest one that has none, derives the
same stretches of tokens, each with one tree.
-/

namespace Lox.Grammar

/-- The categories of expressions, the loosest first. -/
inductive Category where
  | assignment | logicOr | logicAnd | equality | comparison | term | factor | unary | primary
  deriving DecidableEq

namespace Category

/-- The operators that stand between two operands in a category. -/
def operators : Category → List Kind
  | logicOr => [.word .or]
  | logicAnd => [.word .and]
  | equality => [.sign .bangEqual, .sign .equalEqual]
  | comparison => [.sign .greater, .sign .greaterEqual, .sign .less, .sign .lessEqual]
  | term => [.sign .minus, .sign .plus]
  | factor => [.sign .slash, .sign .star]
  | assignment | unary | primary => []

/-- The category that binds the next more tightly. -/
def tighter : Category → Category
  | assignment => logicOr
  | logicOr => logicAnd
  | logicAnd => equality
  | equality => comparison
  | comparison => term
  | term => factor
  | factor => unary
  | unary | primary => primary

/-- The node of an operator between two operands. -/
def node : Category → Expr → Token → Expr → Expr
  | logicOr | logicAnd => .logical
  | _ => .binary

end Category

/-- The tokens that make up an expression of a category, its tree and its faults. -/
inductive Expression : Category → List Token → Expr → List Token → Prop
  /-- A numeral or a string stands for its literal. -/
  | literal {t : Token} (ht : t.kind = .number ∨ t.kind = .string) :
      Expression .primary [t] (.literal t.literal) []
  | trueWord {t : Token} (ht : t.kind = .word .true_) :
      Expression .primary [t] (.literal (some (.bool true))) []
  | falseWord {t : Token} (ht : t.kind = .word .false_) :
      Expression .primary [t] (.literal (some (.bool false))) []
  | nilWord {t : Token} (ht : t.kind = .word .nil) :
      Expression .primary [t] (.literal (some .nil)) []
  | variable {t : Token} (ht : t.kind = .identifier) : Expression .primary [t] (.name t) []
  | grouping {l r : Token} {ts : List Token} {e : Expr} {f : List Token}
      (hl : l.kind = .sign .leftParen) (he : Expression .assignment ts e f)
      (hr : r.kind = .sign .rightParen) : Expression .primary (l :: ts ++ [r]) (.grouping e) f
  | unary {op : Token} {ts : List Token} {e : Expr} {f : List Token}
      (hop : op.kind = .sign .bang ∨ op.kind = .sign .minus) (he : Expression .unary ts e f) :
      Expression .unary (op :: ts) (.unary op e) f
  /-- A further operand joins what stands to its left. -/
  | operation {c : Category} {op : Token} {ts us : List Token} {e e' : Expr} {f g : List Token}
      (hl : Expression c ts e f) (hop : op.kind ∈ c.operators)
      (hr : Expression c.tighter us e' g) :
      Expression c (ts ++ op :: us) (c.node e op e') (f ++ g)
  /-- An expression of the next tighter category is one of the looser. -/
  | single {c : Category} {ts : List Token} {e : Expr} {f : List Token}
      (he : Expression c.tighter ts e f) : Expression c ts e f
  | assign {n eq : Token} {ts : List Token} {e : Expr} {f : List Token}
      (hn : n.kind = .identifier) (heq : eq.kind = .sign .equal)
      (he : Expression .assignment ts e f) : Expression .assignment (n :: eq :: ts) (.assign n e) f
  /-- An assignment to something that is no variable is a fault; its value is dropped. -/
  | misassign {eq : Token} {ts us : List Token} {e e' : Expr} {f g : List Token}
      (hl : Expression .logicOr ts e f) (hn : ∀ n, e ≠ .name n) (heq : eq.kind = .sign .equal)
      (hr : Expression .assignment us e' g) :
      Expression .assignment (ts ++ eq :: us) e (f ++ g ++ [eq])

/-- The declaration of a variable, with an initializer or without. -/
inductive VarDeclaration : List Token → Stmt → List Token → Prop
  | bare {v n semi : Token} (hv : v.kind = .word .var) (hn : n.kind = .identifier)
      (hs : semi.kind = .sign .semicolon) : VarDeclaration [v, n, semi] (.var n .absent) []
  | initialized {v n eq semi : Token} {ts : List Token} {e : Expr} {f : List Token}
      (hv : v.kind = .word .var) (hn : n.kind = .identifier) (heq : eq.kind = .sign .equal)
      (he : Expression .assignment ts e f) (hs : semi.kind = .sign .semicolon) :
      VarDeclaration (v :: n :: eq :: ts ++ [semi]) (.var n e) f

/-- An expression as a statement. -/
inductive ExpressionStatement : List Token → Stmt → List Token → Prop
  | intro {semi : Token} {ts : List Token} {e : Expr} {f : List Token}
      (he : Expression .assignment ts e f) (hs : semi.kind = .sign .semicolon) :
      ExpressionStatement (ts ++ [semi]) (.expression e) f

/-- The first clause of a `for`, with the semicolon that ends it. -/
inductive FirstClause : List Token → Option Stmt → List Token → Prop
  | none {semi : Token} (hs : semi.kind = .sign .semicolon) : FirstClause [semi] none []
  | var {ts : List Token} {s : Stmt} {f : List Token} (h : VarDeclaration ts s f) :
      FirstClause ts (some s) f
  | expression {ts : List Token} {s : Stmt} {f : List Token} (h : ExpressionStatement ts s f) :
      FirstClause ts (some s) f

/-- An expression that may be left out. -/
inductive OptionalExpression : List Token → Option Expr → List Token → Prop
  | none : OptionalExpression [] none []
  | some {ts : List Token} {e : Expr} {f : List Token} (h : Expression .assignment ts e f) :
      OptionalExpression ts (some e) f

/-- One round of a `for`: the body, and then the last clause if there is one. -/
def round (body : Stmt) : Option Expr → Stmt
  | none => body
  | some e => .block [body, .expression e]

/-- A loop behind the first clause of a `for`: the two share a block. -/
def behind (loop : Stmt) : Option Stmt → Stmt
  | none => loop
  | some s => .block [s, loop]

/-- A `for` in terms of blocks and a loop; a condition left out is true. -/
def forTree (keyword : Token) (init : Option Stmt) (condition step : Option Expr) (body : Stmt) :
    Stmt :=
  behind (.loop keyword (condition.getD (.literal (some (.bool true)))) (round body step)) init

/-- To which conditional an `else` may belong. -/
inductive ElseRule where
  /-- To any conditional before it. -/
  | any
  /-- To the nearest conditional before it that has none. -/
  | nearest
  deriving DecidableEq

/-- What a stretch of tokens is derived as. A statement is dangling when it ends in a
conditional without alternative, to which an `else` right after it would belong. -/
inductive Form where
  | declaration
  | statement (dangling : Bool)
  deriving DecidableEq

/-- A stretch of tokens with the tree it makes and its faults. -/
structure Piece where
  /-- The tokens. -/
  tokens : List Token
  /-- The tree they make. -/
  tree : Stmt
  /-- The equals signs that follow something other than a variable. -/
  faults : List Token

/-- The tokens that make up a declaration or a statement, its tree and its faults. -/
inductive Phrase (rule : ElseRule) : Form → List Token → Stmt → List Token → Prop
  | var {ts : List Token} {s : Stmt} {f : List Token} (h : VarDeclaration ts s f) :
      Phrase rule .declaration ts s f
  | statement {d : Bool} {ts : List Token} {s : Stmt} {f : List Token}
      (h : Phrase rule (.statement d) ts s f) : Phrase rule .declaration ts s f
  | expression {ts : List Token} {s : Stmt} {f : List Token} (h : ExpressionStatement ts s f) :
      Phrase rule (.statement false) ts s f
  | print {k semi : Token} {ts : List Token} {e : Expr} {f : List Token}
      (hk : k.kind = .word .print) (he : Expression .assignment ts e f)
      (hs : semi.kind = .sign .semicolon) :
      Phrase rule (.statement false) (k :: ts ++ [semi]) (.print k e) f
  | block {l r : Token} {pieces : List Piece} (hl : l.kind = .sign .leftBrace)
      (hp : ∀ p ∈ pieces, Phrase rule .declaration p.tokens p.tree p.faults)
      (hr : r.kind = .sign .rightBrace) :
      Phrase rule (.statement false) (l :: pieces.flatMap Piece.tokens ++ [r])
        (.block (pieces.map Piece.tree)) (pieces.flatMap Piece.faults)
  | ifThen {k l r : Token} {d : Bool} {ts us : List Token} {c : Expr} {s : Stmt} {f g : List Token}
      (hk : k.kind = .word .if_) (hl : l.kind = .sign .leftParen)
      (hc : Expression .assignment ts c f) (hr : r.kind = .sign .rightParen)
      (hs : Phrase rule (.statement d) us s g) :
      Phrase rule (.statement true) (k :: l :: ts ++ r :: us) (.conditional k c s .absent) (f ++ g)
  /-- Under the stricter rule the first branch has no conditional that waits for the `else`. -/
  | ifElse {k l r el : Token} {d d' : Bool} {ts us vs : List Token} {c : Expr} {s t : Stmt}
      {f g h : List Token} (hk : k.kind = .word .if_) (hl : l.kind = .sign .leftParen)
      (hc : Expression .assignment ts c f) (hr : r.kind = .sign .rightParen)
      (hs : Phrase rule (.statement d) us s g) (hd : rule = .nearest → d = false)
      (hel : el.kind = .word .else_) (ht : Phrase rule (.statement d') vs t h) :
      Phrase rule (.statement d') (k :: l :: ts ++ r :: us ++ el :: vs) (.conditional k c s t)
        (f ++ g ++ h)
  | whileLoop {k l r : Token} {d : Bool} {ts us : List Token} {c : Expr} {s : Stmt}
      {f g : List Token} (hk : k.kind = .word .while_) (hl : l.kind = .sign .leftParen)
      (hc : Expression .assignment ts c f) (hr : r.kind = .sign .rightParen)
      (hs : Phrase rule (.statement d) us s g) :
      Phrase rule (.statement d) (k :: l :: ts ++ r :: us) (.loop k c s) (f ++ g)
  | forLoop {k l semi r : Token} {d : Bool} {is cs ss us : List Token} {init : Option Stmt}
      {condition step : Option Expr} {s : Stmt} {f g h j : List Token}
      (hk : k.kind = .word .for_) (hl : l.kind = .sign .leftParen) (hi : FirstClause is init f)
      (hc : OptionalExpression cs condition g) (hsemi : semi.kind = .sign .semicolon)
      (hst : OptionalExpression ss step h) (hr : r.kind = .sign .rightParen)
      (hs : Phrase rule (.statement d) us s j) :
      Phrase rule (.statement d) (k :: l :: is ++ cs ++ semi :: ss ++ r :: us)
        (forTree k init condition step s) (f ++ g ++ h ++ j)

/-- The tokens of a program before its end, its trees and its faults: declarations in a row. -/
def Program (rule : ElseRule) (ts : List Token) (program : List Stmt) (faults : List Token) :
    Prop :=
  ∃ pieces : List Piece, (∀ p ∈ pieces, Phrase rule .declaration p.tokens p.tree p.faults) ∧
    ts = pieces.flatMap Piece.tokens ∧ program = pieces.map Piece.tree ∧
    faults = pieces.flatMap Piece.faults

/-- Two programs in a row are a program. -/
theorem Program.append {rule : ElseRule} {ts us f g : List Token} {program program' : List Stmt}
    (h : Program rule ts program f) (h' : Program rule us program' g) :
    Program rule (ts ++ us) (program ++ program') (f ++ g) := by
  obtain ⟨pieces, hp, rfl, rfl, rfl⟩ := h
  obtain ⟨pieces', hp', rfl, rfl, rfl⟩ := h'
  exact ⟨pieces ++ pieces', List.forall_mem_append.mpr ⟨hp, hp'⟩, List.flatMap_append.symm,
    List.map_append.symm, List.flatMap_append.symm⟩

/-- A node of an operator between operands is no variable. -/
theorem Category.node_ne_name (c : Category) (e e' : Expr) (op n : Token) :
    c.node e op e' ≠ .name n := by
  cases c <;> simp only [Category.node, ne_eq, reduceCtorEq, not_false_eq_true]

/-- Only an identifier is derived as a variable. -/
theorem Expression.of_name {c : Category} {ts : List Token} {n : Token} {f : List Token}
    (h : Expression c ts (.name n) f) : ts = [n] ∧ n.kind = .identifier ∧ f = [] := by
  generalize he : Expr.name n = e at h
  induction h with
  | literal | trueWord | falseWord | nilWord | grouping | unary | assign => cases he
  | «variable» ht =>
    cases he
    exact ⟨rfl, ht, rfl⟩
  | operation => exact absurd he.symm (Category.node_ne_name _ _ _ _ _)
  | single _ ih => exact ih he
  | misassign _ hn => exact absurd he.symm (hn n)

/-- An `else` after a dangling statement belongs to the innermost conditional that waits
for it, and the whole is a statement. -/
theorem Phrase.attachElse {ts us : List Token} {s t : Stmt} {f g : List Token} {el : Token}
    {d : Bool} (h : Phrase .nearest (.statement true) ts s f) (hel : el.kind = .word .else_)
    (ht : Phrase .nearest (.statement d) us t g) :
    ∃ d' s', Phrase .nearest (.statement d') (ts ++ el :: us) s' (f ++ g) := by
  generalize hF : Form.statement true = form at h
  induction h with
  | var | statement | expression | print | block => cases hF
  | @ifThen k l r d' ts us c s f g hk hl hc hr hs ih =>
    cases d' with
    | false =>
      have hw := Phrase.ifElse hk hl hc hr hs (fun _ => rfl) hel ht
      refine ⟨d, .conditional k c s t, ?_⟩
      simpa only [List.cons_append, List.append_assoc] using hw
    | true =>
      obtain ⟨d', s', hs'⟩ := ih rfl
      have hw := Phrase.ifThen hk hl hc hr hs'
      refine ⟨true, .conditional k c s' .absent, ?_⟩
      simpa only [List.cons_append, List.append_assoc] using hw
  | @ifElse k l r el' _ _ ts us vs c s _ f g h hk hl hc hr hs hd hel' _ _ ih =>
    obtain ⟨d', t', ht'⟩ := ih hF
    have hw := Phrase.ifElse hk hl hc hr hs hd hel' ht'
    refine ⟨d', .conditional k c s t', ?_⟩
    simpa only [List.cons_append, List.append_assoc] using hw
  | @whileLoop k l r _ ts us c _ f g hk hl hc hr _ ih =>
    obtain ⟨d', s', hs'⟩ := ih hF
    have hw := Phrase.whileLoop hk hl hc hr hs'
    refine ⟨d', .loop k c s', ?_⟩
    simpa only [List.cons_append, List.append_assoc] using hw
  | @forLoop k l semi r _ is cs ss us init condition step _ f g h j hk hl hi hc hsemi hst hr _ ih =>
    obtain ⟨d', s', hs'⟩ := ih hF
    have hw := Phrase.forLoop hk hl hi hc hsemi hst hr hs'
    refine ⟨d', forTree k init condition step s', ?_⟩
    simpa only [List.cons_append, List.append_assoc] using hw

/-- The stricter rule derives the tokens too, as a declaration or as some statement. -/
def Form.HasNearest : Form → List Token → List Token → Prop
  | declaration, ts, f => ∃ s, Phrase .nearest .declaration ts s f
  | statement _, ts, f => ∃ d s, Phrase .nearest (.statement d) ts s f

/-- Pieces that each have a tree under the stricter rule have such trees together. -/
theorem exists_nearest_pieces (pieces : List Piece)
    (h : ∀ p ∈ pieces, Form.declaration.HasNearest p.tokens p.faults) :
    ∃ pieces' : List Piece, (∀ p ∈ pieces', Phrase .nearest .declaration p.tokens p.tree p.faults) ∧
      pieces.flatMap Piece.tokens = pieces'.flatMap Piece.tokens ∧
      pieces.flatMap Piece.faults = pieces'.flatMap Piece.faults := by
  induction pieces with
  | nil => exact ⟨[], by simp only [List.not_mem_nil, false_implies, implies_true], rfl, rfl⟩
  | cons p rest ih =>
    obtain ⟨s, hs⟩ := h p List.mem_cons_self
    obtain ⟨rest', hrest, htokens, hfaults⟩ := ih fun q hq => h q (List.mem_cons_of_mem p hq)
    refine ⟨⟨p.tokens, s, p.faults⟩ :: rest', ?_, ?_, ?_⟩
    · intro q hq
      rcases List.mem_cons.mp hq with rfl | hq
      · exact hs
      · exact hrest q hq
    · rw [List.flatMap_cons, List.flatMap_cons, htokens]
    · rw [List.flatMap_cons, List.flatMap_cons, hfaults]

/-- Whatever the rules derive, the stricter rule derives with the same faults. -/
theorem Phrase.hasNearest {rule : ElseRule} {form : Form} {ts : List Token} {s : Stmt}
    {f : List Token} (h : Phrase rule form ts s f) : form.HasNearest ts f := by
  induction h with
  | var h => exact ⟨_, .var h⟩
  | statement _ ih =>
    obtain ⟨d, s, hs⟩ := ih
    exact ⟨s, .statement hs⟩
  | expression h => exact ⟨false, _, .expression h⟩
  | print hk he hs => exact ⟨false, _, .print hk he hs⟩
  | block hl _ hr ih =>
    obtain ⟨pieces', hp, htokens, hfaults⟩ := exists_nearest_pieces _ ih
    rw [htokens, hfaults]
    exact ⟨false, _, .block hl hp hr⟩
  | ifThen hk hl hc hr _ ih =>
    obtain ⟨d, s, hs⟩ := ih
    exact ⟨true, _, .ifThen hk hl hc hr hs⟩
  | @ifElse k l r el _ _ ts us vs c _ _ f g h hk hl hc hr _ _ hel _ ihs iht =>
    obtain ⟨d, s, hs⟩ := ihs
    obtain ⟨d', t, ht⟩ := iht
    cases d with
    | false => exact ⟨d', _, .ifElse hk hl hc hr hs (fun _ => rfl) hel ht⟩
    | true =>
      obtain ⟨d'', s', hs'⟩ := hs.attachElse hel ht
      have hw := Phrase.ifThen hk hl hc hr hs'
      refine ⟨true, .conditional k c s' .absent, ?_⟩
      simpa only [List.cons_append, List.append_assoc] using hw
  | whileLoop hk hl hc hr _ ih =>
    obtain ⟨d, s, hs⟩ := ih
    exact ⟨d, _, .whileLoop hk hl hc hr hs⟩
  | forLoop hk hl hi hc hsemi hst hr _ ih =>
    obtain ⟨d, s, hs⟩ := ih
    exact ⟨d, _, .forLoop hk hl hi hc hsemi hst hr hs⟩

/-- A derivation in which every `else` belongs to the nearest conditional is one in which
it belongs to any. -/
theorem Phrase.weaken {form : Form} {ts : List Token} {s : Stmt} {f : List Token}
    (h : Phrase .nearest form ts s f) : Phrase .any form ts s f := by
  induction h with
  | var h => exact .var h
  | statement _ ih => exact .statement ih
  | expression h => exact .expression h
  | print hk he hs => exact .print hk he hs
  | block hl _ hr ih => exact .block hl ih hr
  | ifThen hk hl hc hr _ ih => exact .ifThen hk hl hc hr ih
  | ifElse hk hl hc hr _ _ hel _ ihs iht =>
    exact .ifElse hk hl hc hr ihs (fun h => nomatch h) hel iht
  | whileLoop hk hl hc hr _ ih => exact .whileLoop hk hl hc hr ih
  | forLoop hk hl hi hc hsemi hst hr _ ih => exact .forLoop hk hl hi hc hsemi hst hr ih

/-- The two rules for `else` derive the same programs, if not the same trees. -/
theorem exists_program_iff {ts faults : List Token} :
    (∃ p, Program .any ts p faults) ↔ ∃ p, Program .nearest ts p faults := by
  constructor
  · rintro ⟨p, pieces, hp, rfl, rfl, rfl⟩
    obtain ⟨pieces', hp', htokens, hfaults⟩ :=
      exists_nearest_pieces pieces fun q hq => (hp q hq).hasNearest
    exact ⟨_, pieces', hp', htokens, rfl, hfaults⟩
  · rintro ⟨p, pieces, hp, rfl, rfl, rfl⟩
    exact ⟨_, pieces, fun q hq => (hp q hq).weaken, rfl, rfl, rfl⟩

end Lox.Grammar
