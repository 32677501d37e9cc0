import Lox.Proofs.Grammar.Boundaries
import Lox.Proofs.Tree.Unambiguous

/-!
# Programs written out as tokens

A tree is written out by the rules of its grammar, without a parenthesis that is not a node of the
tree. What is read from a source can be read back from these tokens: every operand is tight enough
to stand where it stands, and no conditional before an `else` waits for another one. A `for` is
written as the blocks and the loop that it stands for. A source without `for` is written as it was,
token by token.
-/

namespace Lox

/-- A sign as a token, on the first line. -/
def Token.ofSign (p : Punctuator) : Token := ⟨.sign p, p.spelling, none, 1⟩

/-- A reserved word as a token, on the first line. -/
def Token.ofWord (k : Keyword) : Token := ⟨.word k, k.spelling, none, 1⟩

/-- The token that stands for a value, on the first line. -/
def Value.token : Value → Token
  | nil => .ofWord .nil
  | bool true => .ofWord .true_
  | bool false => .ofWord .false_
  | number x => ⟨.number, Number.text x, some (.number x), 1⟩
  | string s => ⟨.string, utf8 "\"" ++ s ++ utf8 "\"", some (.string s), 1⟩

/-- The tokens of an expression. Nodes that no rule of the grammar builds have none. -/
def Expr.flatten : Expr → List Token
  | .assign n value => n :: .ofSign .equal :: value.flatten
  | .binary left operator right | .logical left operator right =>
    left.flatten ++ operator :: right.flatten
  | .grouping inner => .ofSign .leftParen :: inner.flatten ++ [.ofSign .rightParen]
  | .literal value => value.toList.map Value.token
  | .unary operator right => operator :: right.flatten
  | .name n => [n]
  | .absent | .call _ _ _ | .get _ _ | .set _ _ _ | .super _ _ | .receiver _ => []

mutual

/-- The tokens of a statement. Nodes that no rule of the grammar builds have none. -/
def Stmt.flatten : Stmt → List Token
  | .block body => .ofSign .leftBrace :: Stmt.flattenRow body ++ [.ofSign .rightBrace]
  | .expression value => value.flatten ++ [.ofSign .semicolon]
  | .conditional _ condition thenBranch elseBranch =>
    .ofWord .if_ :: .ofSign .leftParen :: condition.flatten ++
      .ofSign .rightParen :: thenBranch.flatten ++
      if elseBranch.isPresent then .ofWord .else_ :: elseBranch.flatten else []
  | .print _ value => .ofWord .print :: value.flatten ++ [.ofSign .semicolon]
  | .var n initializer =>
    .ofWord .var :: n ::
      (if initializer.isPresent then .ofSign .equal :: initializer.flatten else []) ++
      [.ofSign .semicolon]
  | .loop _ condition body =>
    .ofWord .while_ :: .ofSign .leftParen :: condition.flatten ++
      .ofSign .rightParen :: body.flatten
  | .absent | .classDecl _ _ _ | .functionDecl _ _ _ | .returning _ _ => []
termination_by structural s => s

/-- The tokens of statements in a row. -/
def Stmt.flattenRow : List Stmt → List Token
  | [] => []
  | s :: rest => s.flatten ++ Stmt.flattenRow rest
termination_by structural body => body

end

/-- Statements in a row are written one after another. -/
theorem Stmt.flattenRow_eq_flatMap (body : List Stmt) : flattenRow body = body.flatMap flatten := by
  induction body with
  | nil => rfl
  | cons s rest ih => rw [flattenRow, List.flatMap_cons, ih]

/-- What matters of a token to a tree: its kind, its bytes if it is a name, and its literal. -/
def Token.content (t : Token) : Kind × Option Text × Option Value :=
  (t.kind, if t.kind = .identifier then some t.lexeme else none, t.literal)

namespace Token.Written

variable {t : Token}

/-- A sign of a source matters as that sign alone. -/
theorem content_sign (h : t.Written) {p : Punctuator} (ht : t.kind = .sign p) :
    (Token.ofSign p).content = t.content := by
  obtain ⟨kind, lexeme, literal, line⟩ := t
  cases ht
  cases h
  rfl

/-- A reserved word of a source matters as that word alone. -/
theorem content_word (h : t.Written) {k : Keyword} (ht : t.kind = .word k) :
    (Token.ofWord k).content = t.content := by
  obtain ⟨kind, lexeme, literal, line⟩ := t
  cases ht
  cases h
  rfl

/-- A numeral or a string of a source matters as the value that it denotes. -/
theorem exists_content_value (h : t.Written) (ht : t.kind = .number ∨ t.kind = .string) :
    ∃ v : Value, t.literal = some v ∧ v.token.content = t.content := by
  obtain ⟨kind, lexeme, literal, line⟩ := t
  have hpattern : Pattern kind lexeme literal := h
  cases hpattern with
  | string | whole | decimal => exact ⟨_, rfl, rfl⟩
  | sign | word | identifier => rcases ht with ht | ht <;> cases ht

end Token.Written

namespace Grammar

/-- An operator between operands is written between them. -/
@[simp]
theorem Category.flatten_node (c : Category) (e e' : Expr) (op : Token) :
    (c.node e op e').flatten = e.flatten ++ op :: e'.flatten := by
  cases c <;> rfl

/-- An expression of a source is derived from its own tokens. -/
theorem Expression.flatten {c : Category} {ts : List Token} {e : Expr} {f : List Token}
    (h : Expression c ts e f) (hf : f = []) (hts : ∀ t ∈ ts, t.Written) :
    Expression c e.flatten e [] := by
  induction h with
  | @literal t ht =>
    obtain ⟨v, hv, hcontent⟩ := (hts t List.mem_cons_self).exists_content_value ht
    -- The tree holds the value only, so that its token may be spelled in another way.
    have hkind : v.token.kind = t.kind := congrArg Prod.fst hcontent
    have hliteral : v.token.literal = t.literal := congrArg (fun c => c.2.2) hcontent
    have hv' := Expression.literal (t := v.token) (hkind ▸ ht)
    rw [hliteral, hv] at hv'
    rw [hv]
    exact hv'
  | trueWord => exact .trueWord rfl
  | falseWord => exact .falseWord rfl
  | nilWord => exact .nilWord rfl
  | «variable» ht => exact .variable ht
  | grouping _ _ _ ih =>
    have hinner := (List.forall_mem_append.mp (List.forall_mem_cons.mp hts).2).1
    exact .grouping rfl (ih hf hinner) rfl
  | unary hop _ ih => exact .unary hop (ih hf (List.forall_mem_cons.mp hts).2)
  | operation _ hop _ ihl ihr =>
    obtain ⟨hfl, hfr⟩ := List.append_eq_nil_iff.mp hf
    obtain ⟨hleft, hright⟩ := List.forall_mem_append.mp hts
    rw [Category.flatten_node]
    exact .operation (ihl hfl hleft) hop (ihr hfr (List.forall_mem_cons.mp hright).2)
  | single _ ih => exact .single (ih hf hts)
  | assign hn _ _ ih =>
    have hvalue := (List.forall_mem_cons.mp (List.forall_mem_cons.mp hts).2).2
    exact .assign hn rfl (ih hf hvalue)
  | misassign =>
    simp only [List.append_eq_nil_iff, List.cons_ne_nil, and_false] at hf

/-- The tokens of an expression of a source are those that it was read from. -/
theorem Expression.content_flatten {c : Category} {ts : List Token} {e : Expr} {f : List Token}
    (h : Expression c ts e f) (hf : f = []) (hts : ∀ t ∈ ts, t.Written) :
    e.flatten.map Token.content = ts.map Token.content := by
  induction h with
  | @literal t ht =>
    obtain ⟨v, hv, hcontent⟩ := (hts t List.mem_cons_self).exists_content_value ht
    rw [hv]
    exact congrArg ([·]) hcontent
  | trueWord ht | falseWord ht | nilWord ht =>
    exact congrArg ([·]) ((hts _ List.mem_cons_self).content_word ht)
  | «variable» => rfl
  | grouping hl _ hr ih =>
    obtain ⟨hopen, hrest⟩ := List.forall_mem_cons.mp hts
    obtain ⟨hinner, hclose⟩ := List.forall_mem_append.mp hrest
    simp only [Expr.flatten, List.cons_append, List.map_cons, List.map_append, List.map_nil,
      hopen.content_sign hl, ih hf hinner, (hclose _ List.mem_cons_self).content_sign hr]
  | unary _ _ ih =>
    rw [Expr.flatten, List.map_cons, List.map_cons, ih hf (List.forall_mem_cons.mp hts).2]
  | operation _ _ _ ihl ihr =>
    obtain ⟨hfl, hfr⟩ := List.append_eq_nil_iff.mp hf
    obtain ⟨hleft, hright⟩ := List.forall_mem_append.mp hts
    rw [Category.flatten_node, List.map_append, List.map_append, List.map_cons, List.map_cons,
      ihl hfl hleft, ihr hfr (List.forall_mem_cons.mp hright).2]
  | single _ ih => exact ih hf hts
  | assign _ heq _ ih =>
    obtain ⟨-, hrest⟩ := List.forall_mem_cons.mp hts
    obtain ⟨hequal, hvalue⟩ := List.forall_mem_cons.mp hrest
    simp only [Expr.flatten, List.map_cons, hequal.content_sign heq, ih hf hvalue]
  | misassign =>
    simp only [List.append_eq_nil_iff, List.cons_ne_nil, and_false] at hf

/-- A statement, written out, is derived again but for its keywords: as a declaration, or as a
statement that dangles only if it did. -/
def Form.ReadsBack : Form → Stmt → Prop
  | declaration, s => ∃ s', Phrase .nearest .declaration s.flatten s' [] ∧
      s'.withoutKeywords = s.withoutKeywords
  | statement d, s => ∃ d' s', Phrase .nearest (.statement d') s.flatten s' [] ∧
      s'.withoutKeywords = s.withoutKeywords ∧ (d = false → d' = false)

namespace Form.ReadsBack

variable {d : Bool} {s : Stmt} {c e : Expr}

/-- Where a declaration stands a statement may stand. -/
theorem declaration (h : (Form.statement d).ReadsBack s) : Form.declaration.ReadsBack s := by
  obtain ⟨d', s', hs', hsame, -⟩ := h
  exact ⟨s', .statement hs', hsame⟩

/-- A statement that does not dangle stands where one that does may stand. -/
theorem statement (h : (Form.statement false).ReadsBack s) (d : Bool) :
    (Form.statement d).ReadsBack s := by
  obtain ⟨d', s', hs', hsame, hd⟩ := h
  exact ⟨d', s', hs', hsame, fun _ => hd rfl⟩

/-- An expression statement is read back. -/
theorem expression (he : Expression .assignment e.flatten e []) :
    (Form.statement false).ReadsBack (.expression e) :=
  ⟨false, _, .expression (.intro he rfl), rfl, id⟩

/-- Declarations that are read back one by one are read back in a row. -/
theorem exists_pieces {body : List Stmt} (h : ∀ s ∈ body, Form.declaration.ReadsBack s) :
    ∃ pieces : List Piece, (∀ p ∈ pieces, Phrase .nearest .declaration p.tokens p.tree p.faults) ∧
      pieces.flatMap Piece.tokens = body.flatMap Stmt.flatten ∧
      (pieces.map Piece.tree).map Stmt.withoutKeywords = body.map Stmt.withoutKeywords ∧
      pieces.flatMap Piece.faults = [] := by
  induction body with
  | nil => exact ⟨[], List.forall_mem_nil _, rfl, rfl, rfl⟩
  | cons s rest ih =>
    obtain ⟨⟨s', hs', hsame⟩, hrest⟩ := List.forall_mem_cons.mp h
    obtain ⟨pieces, hp, htokens, htrees, hfaults⟩ := ih hrest
    refine ⟨⟨s.flatten, s', []⟩ :: pieces, List.forall_mem_cons.mpr ⟨hs', hp⟩, ?_, ?_, ?_⟩
    · rw [List.flatMap_cons, List.flatMap_cons, htokens]
    · rw [List.map_cons, List.map_cons, List.map_cons, htrees, hsame]
    · rw [List.flatMap_cons, hfaults, List.append_nil]

/-- A block of declarations that are read back is read back. -/
theorem block {body : List Stmt} (h : ∀ s ∈ body, Form.declaration.ReadsBack s) :
    (Form.statement false).ReadsBack (.block body) := by
  obtain ⟨pieces, hp, htokens, htrees, hfaults⟩ := exists_pieces h
  have hblock := Phrase.block (l := .ofSign .leftBrace) (r := .ofSign .rightBrace) rfl hp rfl
  rw [htokens, hfaults, ← Stmt.flattenRow_eq_flatMap] at hblock
  refine ⟨false, _, hblock, ?_, id⟩
  rw [Stmt.withoutKeywords, Stmt.withoutKeywords, Stmt.allWithoutKeywords_eq_map,
    Stmt.allWithoutKeywords_eq_map, htrees]

/-- A conditional without alternative is read back if its branch is. -/
theorem ifThen (k : Token) (hc : Expression .assignment c.flatten c [])
    (hs : (Form.statement d).ReadsBack s) :
    (Form.statement true).ReadsBack (.conditional k c s .absent) := by
  obtain ⟨d', s', hs', hsame, -⟩ := hs
  refine ⟨true, .conditional (.ofWord .if_) c s' .absent, ?_, ?_, nofun⟩
  · rw [Stmt.flatten, Stmt.isPresent, if_neg Bool.false_ne_true, List.append_nil]
    exact .ifThen rfl rfl hc rfl hs'
  · simp only [Stmt.withoutKeywords, hsame]

/-- A conditional with an alternative is read back if its branches are. The first branch does not
dangle, so the `else` cannot be taken by a conditional inside it. -/
theorem ifElse (k : Token) {t : Stmt} (hc : Expression .assignment c.flatten c [])
    (hs : (Form.statement false).ReadsBack s) (ht : (Form.statement d).ReadsBack t)
    (hpresent : t.isPresent = true) :
    (Form.statement d).ReadsBack (.conditional k c s t) := by
  obtain ⟨ds, s', hs', hsame, hclosed⟩ := hs
  obtain ⟨dt, t', ht', hsame', hd⟩ := ht
  refine ⟨dt, .conditional (.ofWord .if_) c s' t', ?_, ?_, hd⟩
  · rw [Stmt.flatten, hpresent, if_pos rfl]
    exact .ifElse rfl rfl hc rfl hs' (fun _ => hclosed rfl) rfl ht'
  · simp only [Stmt.withoutKeywords, hsame, hsame']

/-- A loop over a statement that is read back is read back, whichever word it was written with. -/
theorem loop (k : Token) (hc : Expression .assignment c.flatten c [])
    (hs : (Form.statement d).ReadsBack s) : (Form.statement d).ReadsBack (.loop k c s) := by
  obtain ⟨d', s', hs', hsame, hd⟩ := hs
  refine ⟨d', _, .whileLoop rfl rfl hc rfl hs', ?_, hd⟩
  rw [Stmt.withoutKeywords, Stmt.withoutKeywords, hsame]

/-- A `for` whose clauses and whose body are read back is read back as what it stands for. -/
theorem forTree (k : Token) {init : Option Stmt} {condition step : Option Expr}
    (hinit : ∀ s ∈ init, Form.declaration.ReadsBack s)
    (hcondition : ∀ e ∈ condition, Expression .assignment e.flatten e [])
    (hstep : ∀ e ∈ step, Expression .assignment e.flatten e [])
    (hs : (Form.statement d).ReadsBack s) :
    (Form.statement d).ReadsBack (Grammar.forTree k init condition step s) := by
  have hround : (Form.statement d).ReadsBack (round s step) := by
    cases step with
    | none => exact hs
    | some e =>
      -- The braces around the body hide a conditional at its end from an `else`.
      have hlast := (expression (hstep e rfl)).declaration
      have hbody : ∀ s' ∈ [s, .expression e], Form.declaration.ReadsBack s' :=
        List.forall_mem_cons.mpr ⟨hs.declaration, List.forall_mem_singleton.mpr hlast⟩
      exact (block hbody).statement d
  have hloop : (Form.statement d).ReadsBack
      (.loop k (condition.getD (.literal (some (.bool true)))) (round s step)) := by
    refine loop k ?_ hround
    cases condition with
    | none =>
      -- A condition that is left out is written as `true`.
      have htrue : Expression .primary [.ofWord .true_] (.literal (some (.bool true))) [] :=
        .trueWord rfl
      exact htrue.loosen (by decide)
    | some e => exact hcondition e rfl
  cases init with
  | none => exact hloop
  | some first =>
    have hbody : ∀ s' ∈ [first, .loop k (condition.getD (.literal (some (.bool true))))
        (round s step)], Form.declaration.ReadsBack s' :=
      List.forall_mem_cons.mpr ⟨hinit first rfl, List.forall_mem_singleton.mpr hloop.declaration⟩
    exact (block hbody).statement d

end Form.ReadsBack

/-- An expression of a source is there. -/
theorem Expression.isPresent {c : Category} {ts : List Token} {e : Expr} {f : List Token}
    (h : Expression c ts e f) (hts : ∀ t ∈ ts, t.Written) : e.isPresent = true :=
  (Expr.isPresent_iff e).mpr (h.built hts).produced.ne_absent

/-- A statement of a source is there. -/
theorem Phrase.isPresent {rule : ElseRule} {form : Form} {ts : List Token} {s : Stmt}
    {f : List Token} (h : Phrase rule form ts s f) (hts : ∀ t ∈ ts, t.Written) :
    s.isPresent = true :=
  (Stmt.isPresent_iff s).mpr (h.built hts).produced.ne_absent

/-- The declaration of a variable is read back. -/
theorem VarDeclaration.flatten {ts : List Token} {s : Stmt} {f : List Token}
    (h : VarDeclaration ts s f) (hf : f = []) (hts : ∀ t ∈ ts, t.Written) :
    VarDeclaration s.flatten s [] := by
  cases h with
  | bare _ hn => exact .bare rfl hn rfl
  | @initialized v n eq semi us e _ _ hn _ he =>
    have hvalue : ∀ t ∈ us, t.Written := fun t ht => hts t (by simp [ht])
    rw [Stmt.flatten, he.isPresent hvalue, if_pos rfl]
    exact .initialized rfl hn rfl (he.flatten hf hvalue) rfl

/-- The tokens of a declaration are those that it was read from. -/
theorem VarDeclaration.content_flatten {ts : List Token} {s : Stmt} {f : List Token}
    (h : VarDeclaration ts s f) (hf : f = []) (hts : ∀ t ∈ ts, t.Written) :
    s.flatten.map Token.content = ts.map Token.content := by
  cases h with
  | @bare v n semi hv hn hs =>
    have hword := (hts v (by simp)).content_word hv
    have hsemi := (hts semi (by simp)).content_sign hs
    simp only [Stmt.flatten, Expr.isPresent, Bool.false_eq_true, if_false, List.map_cons,
      List.map_append, List.map_nil, hword, hsemi]
    rfl
  | @initialized v n eq semi us e _ hv hn heq he hs =>
    have hvalue : ∀ t ∈ us, t.Written := fun t ht => hts t (by simp [ht])
    have hword := (hts v (by simp)).content_word hv
    have hequal := (hts eq (by simp)).content_sign heq
    have hsemi := (hts semi (by simp)).content_sign hs
    simp only [Stmt.flatten, he.isPresent hvalue, if_true, List.cons_append, List.map_cons,
      List.map_append, List.map_nil, hword, hequal, hsemi, he.content_flatten hf hvalue]

/-- The first clause of a `for` is read back as a declaration, if there is one. -/
theorem FirstClause.readsBack {ts : List Token} {init : Option Stmt} {f : List Token}
    (h : FirstClause ts init f) (hf : f = []) (hts : ∀ t ∈ ts, t.Written) :
    ∀ s ∈ init, Form.declaration.ReadsBack s := by
  intro s hs
  cases h with
  | none => cases hs
  | var h =>
    cases hs
    exact ⟨_, .var (h.flatten hf hts), rfl⟩
  | expression h =>
    cases hs
    obtain ⟨he, -⟩ := h
    exact (Form.ReadsBack.expression (he.flatten hf (List.forall_mem_append.mp hts).1)).declaration

/-- An expression that may be left out is read back, if it is there. -/
theorem OptionalExpression.flatten {ts : List Token} {o : Option Expr} {f : List Token}
    (h : OptionalExpression ts o f) (hf : f = []) (hts : ∀ t ∈ ts, t.Written) :
    ∀ e ∈ o, Expression .assignment e.flatten e [] := by
  intro e he
  cases h with
  | none => cases he
  | some h =>
    cases he
    exact h.flatten hf hts

/-- What is derived from tokens of a source without faults is read back. -/
theorem Phrase.readsBack {form : Form} {ts : List Token} {s : Stmt} {f : List Token}
    (h : Phrase .nearest form ts s f) (hf : f = []) (hts : ∀ t ∈ ts, t.Written) :
    form.ReadsBack s := by
  induction h with
  | var h => exact ⟨_, .var (h.flatten hf hts), rfl⟩
  | statement _ ih => exact (ih hf hts).declaration
  | expression h =>
    obtain ⟨he, -⟩ := h
    exact .expression (he.flatten hf (List.forall_mem_append.mp hts).1)
  | print _ he _ =>
    have hvalue := (List.forall_mem_append.mp (List.forall_mem_cons.mp hts).2).1
    exact ⟨false, _, .print rfl (he.flatten hf hvalue) rfl, rfl, id⟩
  | @block l r pieces _ _ _ ih =>
    have hrow := (List.forall_mem_append.mp (List.forall_mem_cons.mp hts).2).1
    refine .block fun s hs => ?_
    obtain ⟨p, hp, rfl⟩ := List.mem_map.mp hs
    exact ih p hp (List.flatMap_eq_nil_iff.mp hf p hp) fun t ht =>
      hrow t (List.mem_flatMap.mpr ⟨p, hp, ht⟩)
  | @ifThen k l r d ts us c s f g _ _ hc _ _ ih =>
    obtain ⟨hfc, hfs⟩ := List.append_eq_nil_iff.mp hf
    have hhead : ∀ t ∈ ts, t.Written := fun t ht => hts t (by simp [ht])
    have hbranch : ∀ t ∈ us, t.Written := fun t ht => hts t (by simp [ht])
    exact .ifThen k (hc.flatten hfc hhead) (ih hfs hbranch)
  | @ifElse k l r el d d' ts us vs c s t f g h _ _ hc _ _ hd _ ht ihs iht =>
    obtain ⟨hf, hft⟩ := List.append_eq_nil_iff.mp hf
    obtain ⟨hfc, hfs⟩ := List.append_eq_nil_iff.mp hf
    have hhead : ∀ t ∈ ts, t.Written := fun t ht => hts t (by simp [ht])
    have hthen : ∀ t ∈ us, t.Written := fun t ht => hts t (by simp [ht])
    have helse : ∀ t ∈ vs, t.Written := fun t ht => hts t (by simp [ht])
    obtain rfl : d = false := hd rfl
    exact .ifElse k (hc.flatten hfc hhead) (ihs hfs hthen) (iht hft helse) (ht.isPresent helse)
  | @whileLoop k l r d ts us c s f g _ _ hc _ _ ih =>
    obtain ⟨hfc, hfs⟩ := List.append_eq_nil_iff.mp hf
    have hhead : ∀ t ∈ ts, t.Written := fun t ht => hts t (by simp [ht])
    have hbody : ∀ t ∈ us, t.Written := fun t ht => hts t (by simp [ht])
    exact .loop k (hc.flatten hfc hhead) (ih hfs hbody)
  | @forLoop k l semi r d is cs ss us _ _ _ _ f g h j _ _ hi hc _ hst _ _ ih =>
    obtain ⟨hf, hfs⟩ := List.append_eq_nil_iff.mp hf
    obtain ⟨hf, hflast⟩ := List.append_eq_nil_iff.mp hf
    obtain ⟨hffirst, hfsecond⟩ := List.append_eq_nil_iff.mp hf
    have hfirst : ∀ t ∈ is, t.Written := fun t ht => hts t (by simp [ht])
    have hsecond : ∀ t ∈ cs, t.Written := fun t ht => hts t (by simp [ht])
    have hlast : ∀ t ∈ ss, t.Written := fun t ht => hts t (by simp [ht])
    have hbody : ∀ t ∈ us, t.Written := fun t ht => hts t (by simp [ht])
    exact .forTree k (hi.readsBack hffirst hfirst) (hc.flatten hfsecond hsecond)
      (hst.flatten hflast hlast) (ih hfs hbody)

/-- A keyword and a condition in parentheses before other tokens are those that they were read
from. -/
theorem content_head {w : Keyword} {k l r : Token} {ts us rest : List Token} {c : Expr}
    {f : List Token} (hk : k.kind = .word w) (hl : l.kind = .sign .leftParen)
    (hc : Expression .assignment ts c f) (hf : f = []) (hr : r.kind = .sign .rightParen)
    (hts : ∀ t ∈ k :: l :: ts ++ r :: us, t.Written)
    (hrest : rest.map Token.content = us.map Token.content) :
    (Token.ofWord w :: .ofSign .leftParen :: c.flatten ++
      .ofSign .rightParen :: rest).map Token.content =
        (k :: l :: ts ++ r :: us).map Token.content := by
  have hword := (hts k (by simp)).content_word hk
  have hopen := (hts l (by simp)).content_sign hl
  have hclose := (hts r (by simp)).content_sign hr
  have hhead := hc.content_flatten hf fun t ht => hts t (by simp [ht])
  simp only [List.cons_append, List.map_cons, List.map_append, hword, hopen, hclose, hhead, hrest]

/-- Without a `for`, the tokens of a statement are those that it was read from. -/
theorem Phrase.content_flatten {rule : ElseRule} {form : Form} {ts : List Token} {s : Stmt}
    {f : List Token} (h : Phrase rule form ts s f) (hf : f = []) (hts : ∀ t ∈ ts, t.Written)
    (hfor : ∀ t ∈ ts, t.kind ≠ .word .for_) :
    s.flatten.map Token.content = ts.map Token.content := by
  induction h with
  | var h => exact h.content_flatten hf hts
  | statement _ ih => exact ih hf hts hfor
  | expression h =>
    obtain ⟨he, hs⟩ := h
    obtain ⟨hvalue, hsemi⟩ := List.forall_mem_append.mp hts
    simp only [Stmt.flatten, List.map_append, List.map_cons, List.map_nil,
      he.content_flatten hf hvalue, (hsemi _ List.mem_cons_self).content_sign hs]
  | print hk he hs =>
    obtain ⟨hword, hrest⟩ := List.forall_mem_cons.mp hts
    obtain ⟨hvalue, hsemi⟩ := List.forall_mem_append.mp hrest
    simp only [Stmt.flatten, List.cons_append, List.map_cons, List.map_append, List.map_nil,
      hword.content_word hk, he.content_flatten hf hvalue,
      (hsemi _ List.mem_cons_self).content_sign hs]
  | @block l r pieces hl _ hr ih =>
    obtain ⟨hopen, hrest⟩ := List.forall_mem_cons.mp hts
    obtain ⟨hrow, hclose⟩ := List.forall_mem_append.mp hrest
    have hrow' := (List.forall_mem_append.mp (List.forall_mem_cons.mp hfor).2).1
    have hpieces : ∀ p ∈ pieces, p.tree.flatten.map Token.content = p.tokens.map Token.content :=
      fun p hp => ih p hp (List.flatMap_eq_nil_iff.mp hf p hp)
        (fun t ht => hrow t (List.mem_flatMap.mpr ⟨p, hp, ht⟩))
        fun t ht => hrow' t (List.mem_flatMap.mpr ⟨p, hp, ht⟩)
    have hbody : (Stmt.flattenRow (pieces.map Piece.tree)).map Token.content =
        (pieces.flatMap Piece.tokens).map Token.content := by
      rw [Stmt.flattenRow_eq_flatMap, List.flatMap_map, List.map_flatMap, List.map_flatMap]
      exact List.flatMap_congr hpieces
    simp only [Stmt.flatten, List.cons_append, List.map_cons, List.map_append, List.map_nil,
      hopen.content_sign hl, hbody, (hclose _ List.mem_cons_self).content_sign hr]
  | @ifThen k l r d ts us c s f g hk hl hc hr _ ih =>
    obtain ⟨hfc, hfs⟩ := List.append_eq_nil_iff.mp hf
    have hbranch := ih hfs (fun t ht => hts t (by simp [ht])) fun t ht => hfor t (by simp [ht])
    rw [Stmt.flatten, Stmt.isPresent, if_neg Bool.false_ne_true, List.append_nil]
    exact content_head hk hl hc hfc hr hts hbranch
  | @ifElse k l r el d d' ts us vs c s t f g h hk hl hc hr _ _ hel ht ihs iht =>
    obtain ⟨hf, hft⟩ := List.append_eq_nil_iff.mp hf
    obtain ⟨hfc, hfs⟩ := List.append_eq_nil_iff.mp hf
    obtain ⟨hfirst, hrest⟩ := List.forall_mem_append.mp hts
    obtain ⟨helse, hvs⟩ := List.forall_mem_cons.mp hrest
    have hthen := ihs hfs (fun t ht => hts t (by simp [ht])) fun t ht => hfor t (by simp [ht])
    have halternative : (Token.ofWord .else_ :: t.flatten).map Token.content =
        (el :: vs).map Token.content := by
      rw [List.map_cons, List.map_cons, helse.content_word hel,
        iht hft hvs fun t ht => hfor t (by simp [ht])]
    rw [Stmt.flatten, ht.isPresent hvs, if_pos rfl, List.map_append,
      content_head hk hl hc hfc hr hfirst hthen, halternative, ← List.map_append]
  | @whileLoop k l r d ts us c s f g hk hl hc hr _ ih =>
    obtain ⟨hfc, hfs⟩ := List.append_eq_nil_iff.mp hf
    have hbody := ih hfs (fun t ht => hts t (by simp [ht])) fun t ht => hfor t (by simp [ht])
    rw [Stmt.flatten]
    exact content_head hk hl hc hfc hr hts hbody
  | forLoop hk => exact absurd hk (hfor _ (by simp))

/-- The program of a source is derived from its own tokens, but for its keywords. -/
theorem Program.exists_flatten {ts : List Token} {program : List Stmt}
    (h : Program .nearest ts program []) (hts : ∀ t ∈ ts, t.Written) :
    ∃ program', Program .nearest (program.flatMap Stmt.flatten) program' [] ∧
      program'.map Stmt.withoutKeywords = program.map Stmt.withoutKeywords := by
  obtain ⟨pieces, hp, rfl, rfl, hfaults⟩ := h
  have hread : ∀ s ∈ pieces.map Piece.tree, Form.declaration.ReadsBack s := by
    intro s hs
    obtain ⟨p, hmem, rfl⟩ := List.mem_map.mp hs
    exact (hp p hmem).readsBack (List.flatMap_eq_nil_iff.mp hfaults.symm p hmem) fun t ht =>
      hts t (List.mem_flatMap.mpr ⟨p, hmem, ht⟩)
  obtain ⟨pieces', hp', htokens, htrees, hfaults'⟩ := Form.ReadsBack.exists_pieces hread
  exact ⟨_, ⟨pieces', hp', htokens.symm, rfl, hfaults'.symm⟩, htrees⟩

/-- Without a `for`, the tokens of a program are those that it was read from. -/
theorem Program.content_flatten {ts : List Token} {program : List Stmt}
    (h : Program .nearest ts program []) (hts : ∀ t ∈ ts, t.Written)
    (hfor : ∀ t ∈ ts, t.kind ≠ .word .for_) :
    (program.flatMap Stmt.flatten).map Token.content = ts.map Token.content := by
  obtain ⟨pieces, hp, rfl, rfl, hfaults⟩ := h
  rw [List.flatMap_map, List.map_flatMap, List.map_flatMap]
  refine List.flatMap_congr fun p hmem => ?_
  exact (hp p hmem).content_flatten (List.flatMap_eq_nil_iff.mp hfaults.symm p hmem)
    (fun t ht => hts t (List.mem_flatMap.mpr ⟨p, hmem, ht⟩))
    fun t ht => hfor t (List.mem_flatMap.mpr ⟨p, hmem, ht⟩)

end Grammar

/-- Tokens none of which ends a stream or starts a `for`. -/
def Flat (ts : List Token) : Prop := ∀ t ∈ ts, t.kind ≠ .eof ∧ t.kind ≠ .word .for_

/-- The empty list is flat. -/
@[simp]
theorem flat_nil : Flat [] := List.forall_mem_nil _

/-- Tokens are flat if the first is none of the two and the others are flat. -/
@[simp]
theorem flat_cons {t : Token} {ts : List Token} :
    Flat (t :: ts) ↔ (t.kind ≠ .eof ∧ t.kind ≠ .word .for_) ∧ Flat ts := List.forall_mem_cons

/-- Tokens in two parts are flat if both parts are. -/
@[simp]
theorem flat_append {ts us : List Token} : Flat (ts ++ us) ↔ Flat ts ∧ Flat us :=
  List.forall_mem_append

/-- The kind of a sign. -/
@[simp]
theorem Token.kind_ofSign (p : Punctuator) : (Token.ofSign p).kind = .sign p := rfl

/-- The kind of a reserved word. -/
@[simp]
theorem Token.kind_ofWord (k : Keyword) : (Token.ofWord k).kind = .word k := rfl

/-- A literal is written out flat. -/
theorem Expr.flat_literal (value : Option Value) : Flat (Expr.literal value).flatten := by
  intro t ht
  obtain ⟨v, -, rfl⟩ := List.mem_map.mp ht
  match v with
  | .nil | .bool true | .bool false | .number _ | .string _ => exact ⟨nofun, nofun⟩

/-- What the grammar builds as an expression is written out flat. -/
theorem Expr.Built.flat {P : Token → Prop} {e : Expr} (h : e.Built P) : Flat e.flatten := by
  have hbinary : ∀ k ∈ Semantics.generalKinds ++ Semantics.numericKinds,
      k ≠ .eof ∧ k ≠ .word .for_ := by decide
  induction h with
  | literal | truth | nil => exact flat_literal _
  | name _ hkind => simp [flatten, hkind]
  | grouping _ ih => simp [flatten, ih]
  | assign _ hkind _ ih => simp [flatten, hkind, ih]
  | unary _ hkind _ ih => rcases hkind with hkind | hkind <;> simp [flatten, hkind, ih]
  | binary _ hkind _ _ ihl ihr => simp [flatten, hbinary _ hkind, ihl, ihr]
  | logical _ hkind _ _ ihl ihr =>
    rcases hkind with hkind | hkind <;> simp [flatten, hkind, ihl, ihr]

/-- What the grammar builds as a statement is written out flat. -/
theorem Stmt.Built.flat {P : Token → Prop} {s : Stmt} (h : s.Built P) : Flat s.flatten := by
  induction h with
  | expression he => simp [flatten, he.flat]
  | print _ he => simp [flatten, he.flat]
  | bare _ hkind => simp [flatten, Expr.isPresent, hkind]
  | var _ hkind he =>
    rw [flatten]
    split <;> simp [hkind, he.flat]
  | @block body _ ih =>
    have hrow : Flat (flattenRow body) := by
      rw [flattenRow_eq_flatMap]
      exact List.forall_mem_flatMap.mpr ih
    simp [flatten, hrow]
  | ifThen _ hc _ ih => simp [flatten, isPresent, hc.flat, ih]
  | ifElse _ hc _ _ ihs iht =>
    rw [flatten]
    split <;> simp [hc.flat, ihs, iht]
  | loop _ hc _ ih => simp [flatten, hc.flat, ih]

/-- A program that is read from a source, written out by its grammar, is read back as the same
program but for the keywords of its prints, conditionals and loops. No token that is written is an
end token or a `for`. If the source has no `for`, the tokens that are written are those of the
source, one by one: they agree in kinds, in names and in literals. -/
theorem parse_flatten {source : Text} {tokens : List Token} {program : List Stmt}
    (hscan : scan source = .ok tokens) (hparse : parse tokens = .ok program) :
    (∀ t ∈ program.flatMap Stmt.flatten, t.kind ≠ .eof ∧ t.kind ≠ .word .for_) ∧
      (∃ program', parse (program.flatMap Stmt.flatten) = .ok program' ∧
        program'.map Stmt.withoutKeywords = program.map Stmt.withoutKeywords) ∧
      ((∀ t ∈ tokens, t.kind ≠ .word .for_) →
        (program.flatMap Stmt.flatten).map Token.content =
          (tokens.filter fun t => t.kind ≠ .eof).map Token.content) := by
  obtain ⟨-, rfl⟩ := scan_eq_ok_iff.mp hscan
  have hwritten : ∀ t ∈ sourceTokens source, t.Written := fun _ => written_of_mem_sourceTokens
  have hne : ∀ t ∈ sourceTokens source, t.kind ≠ .eof := fun _ => kind_ne_eof_of_mem_sourceTokens
  have hprogram := Grammar.program_of_parse hparse
  rw [Grammar.beforeEnd_append_end rfl,
    Grammar.beforeEnd_eq_self (Grammar.find?_eof_eq_none hne)] at hprogram
  have hflat : Flat (program.flatMap Stmt.flatten) :=
    List.forall_mem_flatMap.mpr fun s hs => (hprogram.built hwritten s hs).flat
  refine ⟨hflat, ?_, fun hfor => ?_⟩
  · obtain ⟨program', hprogram', hsame⟩ := hprogram.exists_flatten hwritten
    refine ⟨program', Grammar.Program.parse_eq ?_, hsame⟩
    rwa [Grammar.beforeEnd_eq_self
      (Grammar.find?_eof_eq_none fun t ht => (hflat t ht).1)]
  · have hfilter : (sourceTokens source ++ [Token.eof (lastLine source)]).filter
        (fun t => t.kind ≠ .eof) = sourceTokens source := by
      rw [List.filter_append, List.filter_eq_self.mpr fun t ht => decide_eq_true (hne t ht)]
      exact List.append_nil _
    rw [hfilter]
    exact hprogram.content_flatten hwritten fun t ht => hfor t (List.mem_append_left _ ht)

/-- A conditional, of which every token is written again, and a `for`, which is written as two
blocks and a loop and read back as such. -/
theorem parse_flatten_of_for :
    let source := utf8 "if (a) -b; else c = (d);"
    let source' := utf8 "for (var i = a; ; i = b) print i;"
    (∃ tokens program, scan source = .ok tokens ∧ parse tokens = .ok program ∧
      (program.flatMap Stmt.flatten).map Token.content =
        (tokens.filter fun t => t.kind ≠ .eof).map Token.content) ∧
    ∃ tokens program program', scan source' = .ok tokens ∧ parse tokens = .ok program ∧
      (program.flatMap Stmt.flatten).map Token.lexeme =
        ["\x7b", "var", "i", "=", "a", ";", "while", "(", "true", ")", "\x7b", "print", "i", ";",
          "i", "=", "b", ";", "\x7d", "\x7d"].map utf8 ∧
      parse (program.flatMap Stmt.flatten) = .ok program' ∧
      program'.map Stmt.withoutKeywords = program.map Stmt.withoutKeywords := by
  intro source source'
  have hscan : scan source = .ok (sourceTokens source ++ [Token.eof 1]) := rfl
  have hscan' : scan source' = .ok (sourceTokens source' ++ [Token.eof 1]) := rfl
  have hfor : ∀ t ∈ sourceTokens source ++ [Token.eof 1], t.kind ≠ .word .for_ := by
    decide +kernel
  obtain ⟨program', hparse', hsame⟩ := (parse_flatten hscan' rfl).2.1
  exact ⟨⟨_, _, hscan, rfl, (parse_flatten hscan rfl).2.2 hfor⟩,
    _, _, program', hscan', rfl, rfl, hparse', hsame⟩

end Lox
