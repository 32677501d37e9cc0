import Lox.Proofs.Grammar.Completeness

/-!
# What a reading accounts for

A reading that has not failed accounts for every token read so far: they fall into
derivations of the statements it holds and of the operands that wait in it, and the words
and signs between them. This module says so for each part of a reading. Joining operators
to their operands moves tokens from what waits to an expression and loses none.
-/

namespace Lox.Grammar

open Reading

/-- An expression of a category is one of every looser category. -/
theorem Expression.loosen {c c' : Category} {ts : List Token} {e : Expr} {f : List Token}
    (h : Expression c ts e f) (hle : c'.rank ≤ c.rank) : Expression c' ts e f := by
  generalize hn : c.rank - c'.rank = n
  induction n generalizing c' with
  | zero =>
    have heq : c'.rank = c.rank := by omega
    have hc : c' = c := by
      revert heq
      cases c <;> cases c' <;> decide
    exact hc ▸ h
  | succ n ih =>
    have htighter := c'.rank_tighter
    have hbound : c.rank ≤ 8 := by cases c <;> decide
    exact .single (ih (by omega) (by omega))

/-- The rank of the operand that what waits asks for. -/
def slot : List Pending → Nat
  | .unary _ :: _ => Category.unary.rank
  | .binary _ op :: _ => op.kind.level + 1
  | _ => 0

/-- The tokens behind what waits for an operand, and their faults as far as they are
reported. Each left operand is derived in the category of its operator, and what it stands
in asks for no tighter one. -/
inductive Waits : List Pending → List Token → List Token → Prop
  | nil : Waits [] [] []
  | group {l : Token} {pending : List Pending} {ts f : List Token} (h : Waits pending ts f)
      (hl : l.kind = .sign .leftParen) : Waits (.group :: pending) (ts ++ [l]) f
  | unary {op : Token} {pending : List Pending} {ts f : List Token} (h : Waits pending ts f)
      (hop : op.kind = .sign .bang ∨ op.kind = .sign .minus) :
      Waits (.unary op :: pending) (ts ++ [op]) f
  | binary {c : Category} {op : Token} {e : Expr} {pending : List Pending}
      {ts us f g : List Token} (h : Waits pending ts f) (hslot : slot pending ≤ c.rank)
      (he : Expression c us e g) (hop : op.kind ∈ c.operators) :
      Waits (.binary e op :: pending) (ts ++ us ++ [op]) (f ++ g)
  | assign {eq : Token} {e : Expr} {pending : List Pending} {ts us f g : List Token}
      (h : Waits pending ts f) (hslot : slot pending = 0) (he : Expression .logicOr us e g)
      (heq : eq.kind = .sign .equal) :
      Waits (.assign e eq :: pending) (ts ++ us ++ [eq]) (f ++ g)

/-- No operator has a level above products. -/
theorem level_le (k : Kind) : k.level ≤ 6 := by
  unfold Kind.level
  split <;> decide

/-- What waits asks for nothing tighter than an operator in front. -/
theorem slot_le (pending : List Pending) : slot pending ≤ Category.unary.rank := by
  unfold slot
  split
  · exact Nat.le_refl _
  · exact Nat.succ_le_succ (level_le _)
  · exact Nat.zero_le _

/-- Tokens and reported faults that fall into those behind `pending` and those of an
expression `e`, which is derived in a category of at least the given rank and as tight as
`pending` asks for. -/
structure Carries (rank : Nat) (e : Expr) (pending : List Pending) (ts f : List Token) : Prop where
  /-- The parts into which the tokens and the faults fall. -/
  parts : ∃ (c : Category) (ts₁ ts₂ f₁ f₂ : List Token), ts = ts₁ ++ ts₂ ∧ f = f₁ ++ f₂ ∧
    Waits pending ts₁ f₁ ∧ Expression c ts₂ e f₂ ∧ slot pending ≤ c.rank ∧ rank ≤ c.rank

/-- Joining an operator in front to its operand keeps the account. -/
theorem Carries.unary {rank : Nat} {e : Expr} {op : Token} {pending : List Pending}
    {ts f : List Token} (h : Carries rank e (.unary op :: pending) ts f)
    (hrank : rank ≤ Category.unary.rank) : Carries rank (.unary op e) pending ts f := by
  obtain ⟨c, ts₁, ts₂, f₁, f₂, rfl, rfl, hw, he, hslot, -⟩ := h
  cases hw with
  | @unary _ _ ts _ hw hop =>
    refine ⟨.unary, ts, op :: ts₂, f₁, f₂, ?_, rfl, hw, .unary hop (he.loosen hslot),
      slot_le pending, hrank⟩
    rw [List.append_assoc, List.singleton_append]

/-- Joining an operator to its second operand keeps the account. -/
theorem Carries.binary {rank : Nat} {e l : Expr} {op : Token} {pending : List Pending}
    {ts f : List Token} (h : Carries rank e (.binary l op :: pending) ts f)
    (hrank : rank ≤ op.kind.level ∨ rank ≤ 1) : Carries rank (l.infixNode op e) pending ts f := by
  obtain ⟨c, ts₁, ts₂, f₁, f₂, rfl, rfl, hw, he, hslot, -⟩ := h
  cases hw with
  | @binary c' _ _ _ ts us f g hw hslot' hl hop =>
    have hlevel := Category.level_of_mem hop
    obtain ⟨hpos, hle⟩ := Category.rank_of_mem hop
    have htighter := c'.rank_tighter
    simp only [slot] at hslot
    have hr : Expression c'.tighter ts₂ e f₂ := he.loosen (by omega)
    have ho := Expression.operation hl hop hr
    rw [Category.node_eq_infixNode hop] at ho
    refine ⟨c', ts, us ++ op :: ts₂, f, g ++ f₂, ?_, List.append_assoc _ _ _, hw, ho, hslot',
      by omega⟩
    simp only [List.append_assoc, List.singleton_append]

/-- Joining operators of at least a level keeps the account, and what is left waiting asks
for nothing tighter than the level. -/
theorem Carries.reduce {level rank : Nat} (hrank : rank = max level 1) (hlevel : level ≤ 6)
    {e : Expr} {pending : List Pending} {ts f : List Token} (h : Carries rank e pending ts f) :
    Carries rank (reduce level e pending).1 (reduce level e pending).2 ts f ∧
      slot (reduce level e pending).2 ≤ level := by
  fun_induction Reading.reduce level e pending with
  | case1 e op rest ih => exact ih (h.unary (by simp only [Category.rank]; omega))
  | case2 e l op rest hle ih => exact ih (h.binary (by omega))
  | case3 e l op rest hle =>
    refine ⟨h, ?_⟩
    simp only [slot]
    omega
  | case4 e rest hu hb =>
    refine ⟨h, ?_⟩
    unfold slot
    split
    · next heq => exact (hu _ _ heq).elim
    · next heq => exact (hb _ _ _ heq).elim
    · exact Nat.zero_le _

/-- A whole expression together with what is left waiting accounts for the same tokens; the
errors given for it are those of its faults that were not yet reported. -/
theorem Carries.close {e : Expr} {pending : List Pending} {ts f : List Token}
    (h : Carries 0 e pending ts f) :
    ∃ ts₁ ts₂ f₁ f₂ g, ts = ts₁ ++ ts₂ ∧ f ++ g = f₁ ++ f₂ ∧
      (close e pending).2.2 = g.map invalidTarget ∧ Waits (close e pending).2.1 ts₁ f₁ ∧
      Expression .assignment ts₂ (close e pending).1 f₂ ∧
      ((close e pending).2.1 = [] ∨ ∃ rest, (close e pending).2.1 = .group :: rest) := by
  fun_induction Reading.close e pending generalizing f with
  | case1 e op rest ih => exact ih (h.unary (Nat.zero_le _))
  | case2 e l op rest ih => exact ih (h.binary (.inl (Nat.zero_le _)))
  | case3 e n eq rest ih =>
    obtain ⟨c, ts₁, ts₂, f₁, f₂, rfl, rfl, hw, he, -, -⟩ := h
    cases hw with
    | @assign _ _ _ ts us f g hw hslot ht heq =>
      obtain ⟨rfl, hn, rfl⟩ := ht.of_name
      apply ih
      refine ⟨.assignment, ts, n :: eq :: ts₂, f, f₂, ?_, ?_, hw,
        .assign hn heq (he.loosen (Nat.zero_le _)), Nat.le_of_eq hslot, Nat.zero_le _⟩
      · simp only [List.append_assoc, List.cons_append, List.nil_append]
      · rw [List.append_nil]
  | case4 e target eq rest hname e' left errors hclose ih =>
    obtain ⟨c, ts₁, ts₂, f₁, f₂, rfl, rfl, hw, he, -, -⟩ := h
    cases hw with
    | @assign _ _ _ ts us f g hw hslot ht heq =>
      have hm := Expression.misassign ht (fun n hn => hname n hn) heq (he.loosen (Nat.zero_le _))
      have hc : Carries 0 target rest (ts ++ us ++ [eq] ++ ts₂) (f ++ (g ++ f₂ ++ [eq])) := by
        refine ⟨.assignment, ts, us ++ eq :: ts₂, f, g ++ f₂ ++ [eq], ?_, rfl, hw, hm,
          Nat.le_of_eq hslot, Nat.zero_le _⟩
        simp only [List.append_assoc, List.singleton_append]
      obtain ⟨ts₁, us₁, f₁, g₁, h₁, hts, hfaults, herrors, hwaits, hexpr, hrest⟩ := ih hc
      rw [hclose] at herrors hwaits hexpr hrest
      refine ⟨ts₁, us₁, f₁, g₁, eq :: h₁, hts, ?_, ?_, hwaits, hexpr, hrest⟩
      · rw [← hfaults]
        simp only [List.append_assoc, List.singleton_append]
      · exact congrArg (invalidTarget eq :: ·) herrors
  | case5 e rest hu hb hn ha =>
    obtain ⟨c, ts₁, ts₂, f₁, f₂, rfl, rfl, hw, he, -, -⟩ := h
    refine ⟨ts₁, ts₂, f₁, f₂, [], rfl, List.append_nil _, rfl, hw, he.loosen (Nat.zero_le _), ?_⟩
    cases hw with
    | nil => exact .inl rfl
    | group => exact .inr ⟨_, rfl⟩
    | unary => exact absurd rfl (hu _ _)
    | binary => exact absurd rfl (hb _ _ _)
    | assign => exact absurd rfl (ha _ _ _)

/-- No first clause of a `for` is open, so that any statement may end here. -/
def Open (outer : List Outer) : Prop := ∀ k outer', outer ≠ .forInit k :: outer'

/-- A row of declarations goes on here: the top level or a block. -/
def InRow (outer : List Outer) : Prop := outer = [] ∨ ∃ body outer', outer = .block body :: outer'

/-- A declaration may end here: in a row, or as the first clause of a `for`. -/
def Declares (outer : List Outer) : Prop := InRow outer ∨ ∃ k outer', outer = .forInit k :: outer'

/-- The tokens behind the constructs that wait for a statement and the statements read
before them at the top level, and their faults. -/
inductive Context : List Outer → List Stmt → List Token → List Token → Prop
  | top {program : List Stmt} {ts f : List Token} (h : Program .nearest ts program f) :
      Context [] program ts f
  | block {outer : List Outer} {program : List Stmt} {ts f : List Token} {l : Token}
      {pieces : List Piece} (h : Context outer program ts f) (ho : Open outer)
      (hl : l.kind = .sign .leftBrace)
      (hp : ∀ p ∈ pieces, Phrase .nearest .declaration p.tokens p.tree p.faults) :
      Context (.block (pieces.map Piece.tree) :: outer) program
        (ts ++ l :: pieces.flatMap Piece.tokens) (f ++ pieces.flatMap Piece.faults)
  | thenBranch {outer : List Outer} {program : List Stmt} {ts f us g : List Token}
      {k l r : Token} {c : Expr} (h : Context outer program ts f) (ho : Open outer)
      (hk : k.kind = .word .if_) (hl : l.kind = .sign .leftParen)
      (hc : Expression .assignment us c g) (hr : r.kind = .sign .rightParen) :
      Context (.thenBranch k c :: outer) program (ts ++ (k :: l :: us ++ [r])) (f ++ g)
  | elseBranch {outer : List Outer} {program : List Stmt} {ts f us g vs j : List Token}
      {k l r el : Token} {c : Expr} {s : Stmt} (h : Context outer program ts f) (ho : Open outer)
      (hk : k.kind = .word .if_) (hl : l.kind = .sign .leftParen)
      (hc : Expression .assignment us c g) (hr : r.kind = .sign .rightParen)
      (hs : Phrase .nearest (.statement false) vs s j) (hel : el.kind = .word .else_) :
      Context (.elseBranch k c s :: outer) program (ts ++ (k :: l :: us ++ r :: vs ++ [el]))
        (f ++ g ++ j)
  | whileBody {outer : List Outer} {program : List Stmt} {ts f us g : List Token}
      {k l r : Token} {c : Expr} (h : Context outer program ts f) (ho : Open outer)
      (hk : k.kind = .word .while_) (hl : l.kind = .sign .leftParen)
      (hc : Expression .assignment us c g) (hr : r.kind = .sign .rightParen) :
      Context (.whileBody k c :: outer) program (ts ++ (k :: l :: us ++ [r])) (f ++ g)
  | forInit {outer : List Outer} {program : List Stmt} {ts f : List Token} {k l : Token}
      (h : Context outer program ts f) (ho : Open outer) (hk : k.kind = .word .for_)
      (hl : l.kind = .sign .leftParen) : Context (.forInit k :: outer) program (ts ++ [k, l]) f
  | forBody {outer : List Outer} {program : List Stmt} {ts f is cs ss g h j : List Token}
      {k l semi r : Token} {init : Option Stmt} {condition step : Option Expr}
      (hctx : Context outer program ts f) (ho : Open outer) (hk : k.kind = .word .for_)
      (hl : l.kind = .sign .leftParen) (hi : FirstClause is init g)
      (hc : OptionalExpression cs condition h) (hs : semi.kind = .sign .semicolon)
      (hst : OptionalExpression ss step j) (hr : r.kind = .sign .rightParen) :
      Context (.forBody ⟨k, init, condition, step⟩ :: outer) program
        (ts ++ (k :: l :: is ++ cs ++ semi :: ss ++ [r])) (f ++ (g ++ h ++ j))

/-- The tokens behind the place of an expression, and their faults. -/
inductive Placed (outer : List Outer) : Place → List Token → List Token → Prop
  | statement : Placed outer .statement [] []
  | printed {k : Token} (ho : Open outer) (hk : k.kind = .word .print) :
      Placed outer (.printed k) [k] []
  | initializer {v n eq : Token} (ho : Declares outer) (hv : v.kind = .word .var)
      (hn : n.kind = .identifier) (heq : eq.kind = .sign .equal) :
      Placed outer (.initializer n) [v, n, eq] []
  | ifCondition {k l : Token} (ho : Open outer) (hk : k.kind = .word .if_)
      (hl : l.kind = .sign .leftParen) : Placed outer (.ifCondition k) [k, l] []
  | whileCondition {k l : Token} (ho : Open outer) (hk : k.kind = .word .while_)
      (hl : l.kind = .sign .leftParen) : Placed outer (.whileCondition k) [k, l] []
  | forCondition {k l : Token} {is f : List Token} {init : Option Stmt} (ho : Open outer)
      (hk : k.kind = .word .for_) (hl : l.kind = .sign .leftParen) (hi : FirstClause is init f) :
      Placed outer (.forCondition k init) (k :: l :: is) f
  | forStep {k l semi : Token} {is cs f g : List Token} {init : Option Stmt}
      {condition : Option Expr} (ho : Open outer) (hk : k.kind = .word .for_)
      (hl : l.kind = .sign .leftParen) (hi : FirstClause is init f)
      (hc : OptionalExpression cs condition g) (hs : semi.kind = .sign .semicolon) :
      Placed outer (.forStep k init condition) (k :: l :: is ++ cs ++ [semi]) (f ++ g)

/-- The tokens behind what has to come next, and their faults. -/
inductive Expects (outer : List Outer) : Goal → List Token → List Token → Prop
  | declaration (ho : InRow outer) : Expects outer .declaration [] []
  | statement (ho : Open outer) : Expects outer .statement [] []
  | operand {pending : List Pending} {place : Place} {ts us f g : List Token}
      (hp : Placed outer place ts f) (hw : Waits pending us g) :
      Expects outer (.operand pending place) (ts ++ us) (f ++ g)
  | operator {e : Expr} {pending : List Pending} {place : Place} {ts us f g : List Token}
      (hp : Placed outer place ts f) (hc : Carries Category.primary.rank e pending us g) :
      Expects outer (.operator e pending place) (ts ++ us) (f ++ g)
  | varName {v : Token} (ho : Declares outer) (hv : v.kind = .word .var) :
      Expects outer .varName [v] []
  | varEnd {v n : Token} (ho : Declares outer) (hv : v.kind = .word .var)
      (hn : n.kind = .identifier) : Expects outer (.varEnd n) [v, n] []
  | ifParen {k : Token} (ho : Open outer) (hk : k.kind = .word .if_) :
      Expects outer (.ifParen k) [k] []
  | whileParen {k : Token} (ho : Open outer) (hk : k.kind = .word .while_) :
      Expects outer (.whileParen k) [k] []
  | forParen {k : Token} (ho : Open outer) (hk : k.kind = .word .for_) :
      Expects outer (.forParen k) [k] []
  | forInit {k l : Token} (ho : Open outer) (hk : k.kind = .word .for_)
      (hl : l.kind = .sign .leftParen) : Expects outer (.forInit k) [k, l] []
  | forCondition {k : Token} {init : Option Stmt} {ts f : List Token}
      (hp : Placed outer (.forCondition k init) ts f) : Expects outer (.forCondition k init) ts f
  | forStep {k : Token} {init : Option Stmt} {condition : Option Expr} {ts f : List Token}
      (hp : Placed outer (.forStep k init condition) ts f) :
      Expects outer (.forStep k init condition) ts f

/-- The tokens of a complete statement, and their faults. -/
inductive Completed (outer : List Outer) : Stmt → List Token → List Token → Prop
  | var {s : Stmt} {ts f : List Token} (ho : Declares outer) (h : VarDeclaration ts s f) :
      Completed outer s ts f
  | expression {s : Stmt} {ts f : List Token} (h : ExpressionStatement ts s f) :
      Completed outer s ts f
  | statement {s : Stmt} {ts f : List Token} (ho : Open outer)
      (h : Phrase .nearest (.statement false) ts s f) : Completed outer s ts f

/-- The tokens behind a mode of reading, and their faults; nothing accounts for tokens that
are dropped. -/
def Holds (outer : List Outer) : Mode → List Token → List Token → Prop
  | .expecting goal, ts, f => Expects outer goal ts f
  | .complete s, ts, f => Completed outer s ts f
  | .skipping _, _, _ => False

/-- A reading accounts for tokens: they fall into those behind its constructs and those
behind its mode, and its errors are those of their faults. -/
structure Accounts (ts : List Token) (r : Reading) : Prop where
  /-- The parts into which the tokens and the faults fall. -/
  parts : ∃ ts₁ ts₂ f₁ f₂, ts = ts₁ ++ ts₂ ∧ r.errors = (f₁ ++ f₂).map invalidTarget ∧
    Context r.outer r.program ts₁ f₁ ∧ Holds r.outer r.mode ts₂ f₂

/-- A reading with some errors has failed at a token: its last error is there and is none of
a target. -/
structure Rejects (errors : List GrammarError) (t : Token) (r : Reading) : Prop where
  /-- Nothing is open any more. -/
  mode_eq : r.mode = .skipping t
  /-- The errors before are kept, with those of faults, and one follows at the token. -/
  errors_eq : ∃ (cause : GrammarCause) (faults : List Token), cause ≠ .invalidTarget ∧
    r.errors = errors ++ faults.map invalidTarget ++ [⟨cause, t.line⟩]

end Lox.Grammar
