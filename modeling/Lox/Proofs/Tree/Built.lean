import Lox.Proofs.Session
import Lox.Proofs.Semantics.BigStep

/-!
# Trees built from tokens

Reading a program puts tokens into a tree, and values only where a numeral, a string or a word
stands for one. A tree that is built from tokens of some class has tokens of that class only, and
those that its grammar asks for at each place.
-/

namespace Lox

/-- The expressions that are built from tokens of a class. -/
inductive Expr.Built (P : Token → Prop) : Expr → Prop
  /-- A numeral or a string stands for its literal. -/
  | literal {t : Token} (ht : P t) (hkind : t.kind = .number ∨ t.kind = .string) :
      Built P (.literal t.literal)
  /-- A truth value also stands for a condition that is left out. -/
  | truth (b : Bool) : Built P (.literal (some (.bool b)))
  | nil : Built P (.literal (some .nil))
  | name {n : Token} (hn : P n) (hkind : n.kind = .identifier) : Built P (.name n)
  | grouping {e : Expr} (he : e.Built P) : Built P (.grouping e)
  | assign {n : Token} (hn : P n) (hkind : n.kind = .identifier) {e : Expr} (he : e.Built P) :
      Built P (.assign n e)
  | unary {op : Token} (hop : P op) (hkind : op.kind = .sign .bang ∨ op.kind = .sign .minus)
      {e : Expr} (he : e.Built P) : Built P (.unary op e)
  | binary {op : Token} (hop : P op)
      (hkind : op.kind ∈ Semantics.generalKinds ++ Semantics.numericKinds) {left right : Expr}
      (hl : left.Built P) (hr : right.Built P) : Built P (.binary left op right)
  | logical {op : Token} (hop : P op) (hkind : op.kind = .word .or ∨ op.kind = .word .and)
      {left right : Expr} (hl : left.Built P) (hr : right.Built P) :
      Built P (.logical left op right)

/-- The statements that are built from tokens of a class. -/
inductive Stmt.Built (P : Token → Prop) : Stmt → Prop
  | expression {e : Expr} (he : e.Built P) : Built P (.expression e)
  | print {k : Token} (hk : P k) {e : Expr} (he : e.Built P) : Built P (.print k e)
  | bare {n : Token} (hn : P n) (hkind : n.kind = .identifier) : Built P (.var n .absent)
  | var {n : Token} (hn : P n) (hkind : n.kind = .identifier) {e : Expr} (he : e.Built P) :
      Built P (.var n e)
  | block {body : List Stmt} (h : ∀ s ∈ body, s.Built P) : Built P (.block body)
  | ifThen {k : Token} (hk : P k) {c : Expr} (hc : c.Built P) {s : Stmt} (hs : s.Built P) :
      Built P (.conditional k c s .absent)
  | ifElse {k : Token} (hk : P k) {c : Expr} (hc : c.Built P) {s t : Stmt} (hs : s.Built P)
      (ht : t.Built P) : Built P (.conditional k c s t)
  | loop {k : Token} (hk : P k) {c : Expr} (hc : c.Built P) {s : Stmt} (hs : s.Built P) :
      Built P (.loop k c s)

namespace Grammar

variable {P : Token → Prop}

/-- The operators that bind more tightly than `and` are those that are applied to two values. -/
theorem Category.mem_kinds_of_mem (c : Category) (hc : logicAnd.rank < c.rank) :
    ∀ k ∈ c.operators, k ∈ Semantics.generalKinds ++ Semantics.numericKinds := by
  revert hc
  cases c <;> decide

/-- The node of an operator between two operands is built from the three. -/
theorem Category.built_node {c : Category} {op : Token} (hop : P op) (hkind : op.kind ∈ c.operators)
    {e e' : Expr} (he : e.Built P) (he' : e'.Built P) : (c.node e op e').Built P := by
  cases c with
  | assignment | unary | primary => cases hkind
  | logicOr => exact .logical hop (.inl (List.mem_singleton.mp hkind)) he he'
  | logicAnd => exact .logical hop (.inr (List.mem_singleton.mp hkind)) he he'
  | equality | comparison | term | factor =>
    exact .binary hop (mem_kinds_of_mem _ (by decide) _ hkind) he he'

/-- What is derived from tokens as an expression is built from them. -/
theorem Expression.built {c : Category} {ts : List Token} {e : Expr} {f : List Token}
    (h : Expression c ts e f) (hts : ∀ t ∈ ts, P t) : e.Built P := by
  induction h with
  | literal ht => exact .literal (hts _ List.mem_cons_self) ht
  | trueWord | falseWord => exact .truth _
  | nilWord => exact .nil
  | «variable» ht => exact .name (hts _ List.mem_cons_self) ht
  | grouping _ _ _ ih =>
    exact .grouping (ih fun t ht => hts t (List.mem_cons_of_mem _ (List.mem_append_left _ ht)))
  | unary hop _ ih =>
    exact .unary (hts _ List.mem_cons_self) hop (ih fun t ht => hts t (List.mem_cons_of_mem _ ht))
  | operation _ hop _ ihl ihr =>
    obtain ⟨hleft, hright⟩ := List.forall_mem_append.mp hts
    obtain ⟨hw, hright⟩ := List.forall_mem_cons.mp hright
    exact Category.built_node hw hop (ihl hleft) (ihr hright)
  | single _ ih => exact ih hts
  | assign hn _ _ ih =>
    obtain ⟨hname, htail⟩ := List.forall_mem_cons.mp hts
    exact .assign hname hn (ih (List.forall_mem_cons.mp htail).2)
  | misassign _ _ _ _ ihl => exact ihl (List.forall_mem_append.mp hts).1

/-- What is derived from tokens as the declaration of a variable is built from them. -/
theorem VarDeclaration.built {ts : List Token} {s : Stmt} {f : List Token}
    (h : VarDeclaration ts s f) (hts : ∀ t ∈ ts, P t) : s.Built P := by
  cases h with
  | @bare v n semi _ hn => exact .bare (hts n (by simp)) hn
  | @initialized v n eq semi us e _ _ hn _ he =>
    exact .var (hts n (by simp)) hn (he.built fun t ht => hts t (by simp [ht]))

/-- What is derived from tokens as an expression statement is built from them. -/
theorem ExpressionStatement.built {ts : List Token} {s : Stmt} {f : List Token}
    (h : ExpressionStatement ts s f) (hts : ∀ t ∈ ts, P t) : s.Built P := by
  obtain ⟨he, -⟩ := h
  exact .expression (he.built (List.forall_mem_append.mp hts).1)

/-- So is the first clause of a `for`, if there is one. -/
theorem FirstClause.built {ts : List Token} {init : Option Stmt} {f : List Token}
    (h : FirstClause ts init f) (hts : ∀ t ∈ ts, P t) : ∀ s ∈ init, s.Built P := by
  cases h with
  | none => exact nofun
  | var h => exact fun s hs => Option.some.inj hs ▸ h.built hts
  | expression h => exact fun s hs => Option.some.inj hs ▸ h.built hts

/-- So is an expression that may be left out, if it is there. -/
theorem OptionalExpression.built {ts : List Token} {o : Option Expr} {f : List Token}
    (h : OptionalExpression ts o f) (hts : ∀ t ∈ ts, P t) : ∀ e ∈ o, e.Built P := by
  cases h with
  | none => exact nofun
  | some h => exact fun e he => Option.some.inj he ▸ h.built hts

/-- The tree of a `for` is built from what its parts are built from. -/
theorem built_forTree {k : Token} (hk : P k) {init : Option Stmt} {condition step : Option Expr}
    {body : Stmt} (hinit : ∀ s ∈ init, s.Built P) (hcondition : ∀ e ∈ condition, e.Built P)
    (hstep : ∀ e ∈ step, e.Built P) (hbody : body.Built P) :
    (forTree k init condition step body).Built P := by
  have hround : (round body step).Built P := by
    cases step with
    | none => exact hbody
    | some e =>
      have hlast : Stmt.Built P (.expression e) := .expression (hstep e rfl)
      exact .block (List.forall_mem_cons.mpr ⟨hbody, List.forall_mem_singleton.mpr hlast⟩)
  have hloop : Stmt.Built P
      (.loop k (condition.getD (.literal (some (.bool true)))) (round body step)) := by
    cases condition with
    | none => exact .loop hk (.truth true) hround
    | some e => exact .loop hk (hcondition e rfl) hround
  cases init with
  | none => exact hloop
  | some s =>
    exact .block (List.forall_mem_cons.mpr ⟨hinit s rfl, List.forall_mem_singleton.mpr hloop⟩)

/-- What is derived from tokens as a declaration or a statement is built from them. -/
theorem Phrase.built {rule : ElseRule} {form : Form} {ts : List Token} {s : Stmt}
    {f : List Token} (h : Phrase rule form ts s f) (hts : ∀ t ∈ ts, P t) : s.Built P := by
  induction h with
  | var h => exact h.built hts
  | statement _ ih => exact ih hts
  | expression h => exact h.built hts
  | print _ he _ =>
    obtain ⟨hk, htail⟩ := List.forall_mem_cons.mp hts
    exact .print hk (he.built (List.forall_mem_append.mp htail).1)
  | @block l r pieces _ _ _ ih =>
    have hrow := (List.forall_mem_append.mp (List.forall_mem_cons.mp hts).2).1
    refine .block fun s hs => ?_
    obtain ⟨p, hp, rfl⟩ := List.mem_map.mp hs
    exact ih p hp fun t ht => hrow t (List.mem_flatMap.mpr ⟨p, hp, ht⟩)
  | @ifThen k l r d ts us _ _ _ _ _ _ hc _ _ ih =>
    have hk : P k := hts k (by simp)
    have hhead : ∀ t ∈ ts, P t := fun t ht => hts t (by simp [ht])
    have hbranch : ∀ t ∈ us, P t := fun t ht => hts t (by simp [ht])
    exact .ifThen hk (hc.built hhead) (ih hbranch)
  | @ifElse k l r el d d' ts us vs _ _ _ _ _ _ _ _ hc _ _ _ _ _ ihs iht =>
    have hk : P k := hts k (by simp)
    have hhead : ∀ t ∈ ts, P t := fun t ht => hts t (by simp [ht])
    have hthen : ∀ t ∈ us, P t := fun t ht => hts t (by simp [ht])
    have helse : ∀ t ∈ vs, P t := fun t ht => hts t (by simp [ht])
    exact .ifElse hk (hc.built hhead) (ihs hthen) (iht helse)
  | @whileLoop k l r d ts us _ _ _ _ _ _ hc _ _ ih =>
    have hk : P k := hts k (by simp)
    have hhead : ∀ t ∈ ts, P t := fun t ht => hts t (by simp [ht])
    have hbody : ∀ t ∈ us, P t := fun t ht => hts t (by simp [ht])
    exact .loop hk (hc.built hhead) (ih hbody)
  | @forLoop k l semi r d is cs ss us _ _ _ _ _ _ _ _ _ _ hi hc _ hst _ _ ih =>
    have hk : P k := hts k (by simp)
    have hfirst : ∀ t ∈ is, P t := fun t ht => hts t (by simp [ht])
    have hsecond : ∀ t ∈ cs, P t := fun t ht => hts t (by simp [ht])
    have hlast : ∀ t ∈ ss, P t := fun t ht => hts t (by simp [ht])
    have hbody : ∀ t ∈ us, P t := fun t ht => hts t (by simp [ht])
    exact built_forTree hk (hi.built hfirst) (hc.built hsecond) (hst.built hlast) (ih hbody)

/-- What is derived from tokens as a program is built from them. -/
theorem Program.built {rule : ElseRule} {ts faults : List Token} {program : List Stmt}
    (h : Program rule ts program faults) (hts : ∀ t ∈ ts, P t) : ∀ s ∈ program, s.Built P := by
  obtain ⟨pieces, hp, rfl, rfl, -⟩ := h
  intro s hs
  obtain ⟨p, hmem, rfl⟩ := List.mem_map.mp hs
  exact (hp p hmem).built fun t ht => hts t (List.mem_flatMap.mpr ⟨p, hmem, ht⟩)

end Grammar

/-- The statements that are read from a source are built from its tokens. -/
theorem Accepts.built {source : Text} {program : List Stmt} (h : Accepts source program)
    {P : Token → Prop} (hP : ∀ t ∈ sourceTokens source, P t) : ∀ s ∈ program, s.Built P := by
  obtain ⟨tokens, hscan, hparse⟩ := h
  obtain ⟨-, rfl⟩ := scan_eq_ok_iff.mp hscan
  refine (Grammar.program_of_parse hparse).built fun t ht => ?_
  have hne := Grammar.kind_ne_eof_of_mem_beforeEnd ht
  obtain hmem | hmem := List.mem_append.mp ((List.takeWhile_sublist _).subset ht)
  · exact hP t hmem
  · rw [List.mem_singleton.mp hmem] at hne
    exact absurd rfl hne

end Lox
