import Lox.Proofs.Tree.Built
import Lox.Tree.Sexp

/-!
# The trees of sources

Trees can express more than a source can. A tree that is read from a source has no missing
part where one has to be, no call, property, class, function or return, only operators that
have a meaning, and a value in every literal. Such a tree can be written out as an S-expression
in which nothing is marked as missing.
-/

namespace Lox

/-- A token that stands in a source: its kind, its bytes and its literal fit together. -/
def Token.Written (t : Token) : Prop := Pattern t.kind t.lexeme t.literal

/-- The tokens of a source stand in it. -/
theorem written_of_mem_sourceTokens {source : Text} {t : Token} (h : t ∈ sourceTokens source) :
    t.Written := by
  obtain ⟨⟨line, s⟩, hs, ht⟩ := List.mem_filterMap.mp h
  have hsplit : s ∈ Segment.split source := by
    have hmem := List.mem_map_of_mem (f := Prod.snd) hs
    rwa [numberedSegments, Segment.map_snd_numbered] at hmem
  cases s with
  | token kind lexeme literal =>
    cases ht
    exact (Segment.splits_split source).pattern hsplit
  | _ => cases ht

/-- A numeral or a string denotes a value. -/
theorem Pattern.exists_literal {kind : Kind} {lexeme : Text} {literal : Option Value}
    (h : Pattern kind lexeme literal) (hkind : kind = .number ∨ kind = .string) :
    ∃ v, literal = some v := by
  cases h with
  | string | whole | decimal => exact ⟨_, rfl⟩
  | sign | word | identifier => rcases hkind with hkind | hkind <;> cases hkind

namespace Token.Written

variable {t : Token}

/-- A sign is written as it is spelled. -/
theorem lexeme_of_sign (h : t.Written) {p : Punctuator} (ht : t.kind = .sign p) :
    t.lexeme = p.spelling := by
  obtain ⟨kind, lexeme, literal, line⟩ := t
  cases ht
  cases h
  rfl

/-- A reserved word is written as it is spelled. -/
theorem lexeme_of_word (h : t.Written) {k : Keyword} (ht : t.kind = .word k) :
    t.lexeme = k.spelling := by
  obtain ⟨kind, lexeme, literal, line⟩ := t
  cases ht
  cases h
  rfl

end Token.Written

/-- The expressions that are read from sources. -/
inductive Expr.Produced : Expr → Prop
  /-- A literal has a value. -/
  | literal (v : Value) : Produced (.literal (some v))
  | name (n : Token) : Produced (.name n)
  | grouping {e : Expr} (he : e.Produced) : Produced (.grouping e)
  | assign (n : Token) {e : Expr} (he : e.Produced) : Produced (.assign n e)
  | unary {op : Token} {e : Expr} (hop : op.kind = .sign .bang ∨ op.kind = .sign .minus)
      (hw : op.Written) (he : e.Produced) : Produced (.unary op e)
  | binary {op : Token} {left right : Expr}
      (hop : op.kind ∈ Semantics.generalKinds ++ Semantics.numericKinds) (hw : op.Written)
      (hl : left.Produced) (hr : right.Produced) : Produced (.binary left op right)
  | logical {op : Token} {left right : Expr} (hop : op.kind = .word .or ∨ op.kind = .word .and)
      (hw : op.Written) (hl : left.Produced) (hr : right.Produced) :
      Produced (.logical left op right)

/-- The statements that are read from sources. -/
inductive Stmt.Produced : Stmt → Prop
  | expression {e : Expr} (he : e.Produced) : Produced (.expression e)
  | print (k : Token) {e : Expr} (he : e.Produced) : Produced (.print k e)
  | bare (n : Token) : Produced (.var n .absent)
  | var (n : Token) {e : Expr} (he : e.Produced) : Produced (.var n e)
  | block {body : List Stmt} (h : ∀ s ∈ body, s.Produced) : Produced (.block body)
  | ifThen (k : Token) {c : Expr} {s : Stmt} (hc : c.Produced) (hs : s.Produced) :
      Produced (.conditional k c s .absent)
  | ifElse (k : Token) {c : Expr} {s t : Stmt} (hc : c.Produced) (hs : s.Produced)
      (ht : t.Produced) : Produced (.conditional k c s t)
  | loop (k : Token) {c : Expr} {s : Stmt} (hc : c.Produced) (hs : s.Produced) :
      Produced (.loop k c s)

/-- An expression that is read from a source is there. -/
theorem Expr.Produced.ne_absent {e : Expr} (h : e.Produced) : e ≠ .absent := by
  cases h <;> exact nofun

/-- A statement that is read from a source is there. -/
theorem Stmt.Produced.ne_absent {s : Stmt} (h : s.Produced) : s ≠ .absent := by
  cases h <;> exact nofun

/-- What is built from tokens that stand in a source is an expression of sources. -/
theorem Expr.Built.produced {e : Expr} (h : e.Built Token.Written) : e.Produced := by
  induction h with
  | literal ht hkind =>
    obtain ⟨v, hv⟩ := Pattern.exists_literal ht hkind
    rw [hv]
    exact .literal v
  | truth b => exact .literal (.bool b)
  | nil => exact .literal .nil
  | name => exact .name _
  | grouping _ ih => exact .grouping ih
  | assign _ _ _ ih => exact .assign _ ih
  | unary hop hkind _ ih => exact .unary hkind hop ih
  | binary hop hkind _ _ ihl ihr => exact .binary hkind hop ihl ihr
  | logical hop hkind _ _ ihl ihr => exact .logical hkind hop ihl ihr

/-- What is built from tokens that stand in a source is a statement of sources. -/
theorem Stmt.Built.produced {s : Stmt} (h : s.Built Token.Written) : s.Produced := by
  induction h with
  | expression he => exact .expression he.produced
  | print _ he => exact .print _ he.produced
  | bare => exact .bare _
  | var _ _ he => exact .var _ he.produced
  | block _ ih => exact .block ih
  | ifThen _ hc _ ih => exact .ifThen _ hc.produced ih
  | ifElse _ hc _ _ ihs iht => exact .ifElse _ hc.produced ihs iht
  | loop _ hc _ ih => exact .loop _ hc.produced ih

/-- The statements that are read from a source are statements of sources. -/
theorem Accepts.produced {source : Text} {program : List Stmt} (h : Accepts source program) :
    ∀ s ∈ program, s.Produced :=
  fun s hs => (h.built (fun _ => written_of_mem_sourceTokens) s hs).produced

namespace Sexp

/-- An S-expression in which no part is the marker of a missing node. -/
inductive Complete : Sexp → Prop
  | atom (t : Text) : Complete (.atom t)
  | list {items : List Sexp} (hne : Sexp.list items ≠ missing) (h : ∀ s ∈ items, s.Complete) :
      Complete (.list items)

/-- A list that starts with a symbol other than that of the marker is no marker. -/
theorem Complete.of_head {t : Text} {items : List Sexp} (ht : t ≠ utf8 "unknown")
    (h : ∀ s ∈ items, s.Complete) : Complete (.list (.atom t :: items)) := by
  refine .list ?_ (List.forall_mem_cons.mpr ⟨.atom t, h⟩)
  intro heq
  simp only [missing, word, list.injEq, List.cons.injEq, atom.injEq] at heq
  exact ht heq.1

end Sexp

/-- No operator of a source is spelled like the marker of a missing node. -/
theorem Token.Written.lexeme_ne_unknown {t : Token} (h : t.Written)
    (ht : (∃ p, t.kind = .sign p) ∨ ∃ k, t.kind = .word k) : t.lexeme ≠ utf8 "unknown" := by
  rcases ht with ⟨p, hp⟩ | ⟨k, hk⟩
  · rw [h.lexeme_of_sign hp]
    cases p <;> decide
  · rw [h.lexeme_of_word hk]
    cases k <;> decide

section Written

variable (quote : Text → Text)

/-- An expression of sources can be written out, and nothing in it is missing. -/
theorem Expr.Produced.exists_sexp {e : Expr} (h : e.Produced) :
    ∃ s, e.sexpWith? quote = some s ∧ s.Complete := by
  induction h with
  | literal v =>
    cases v with
    | string s => exact ⟨_, rfl, .atom _⟩
    | nil | bool | number => exact ⟨_, rfl, .atom _⟩
  | name n => exact ⟨_, rfl, .atom _⟩
  | grouping _ ih =>
    obtain ⟨s, hs, hcomplete⟩ := ih
    refine ⟨.list [.word "group", s], by simp [sexpWith?, hs], .of_head (by decide) ?_⟩
    exact List.forall_mem_singleton.mpr hcomplete
  | assign n _ ih =>
    obtain ⟨s, hs, hcomplete⟩ := ih
    refine ⟨.list [.word "=", .atom n.lexeme, s], by simp [sexpWith?, hs], .of_head (by decide) ?_⟩
    exact List.forall_mem_cons.mpr ⟨.atom _, List.forall_mem_singleton.mpr hcomplete⟩
  | @unary op e hop hw _ ih =>
    obtain ⟨s, hs, hcomplete⟩ := ih
    have hlexeme := hw.lexeme_ne_unknown (.inl (hop.elim (⟨_, ·⟩) (⟨_, ·⟩)))
    refine ⟨.list [.atom op.lexeme, s], by simp [sexpWith?, hs], .of_head hlexeme ?_⟩
    exact List.forall_mem_singleton.mpr hcomplete
  | @binary op left right hop hw _ _ ihl ihr =>
    obtain ⟨l, hl, hleft⟩ := ihl
    obtain ⟨r, hr, hright⟩ := ihr
    have hsign : ∃ p, op.kind = .sign p := by
      simp only [Semantics.generalKinds, Semantics.numericKinds, List.cons_append, List.nil_append,
        List.mem_cons, List.not_mem_nil, or_false] at hop
      rcases hop with hop | hop | hop | hop | hop | hop | hop | hop | hop | hop <;> exact ⟨_, hop⟩
    refine ⟨.list [.atom op.lexeme, l, r], by simp [sexpWith?, hl, hr],
      .of_head (hw.lexeme_ne_unknown (.inl hsign)) ?_⟩
    exact List.forall_mem_cons.mpr ⟨hleft, List.forall_mem_singleton.mpr hright⟩
  | @logical op left right hop hw _ _ ihl ihr =>
    obtain ⟨l, hl, hleft⟩ := ihl
    obtain ⟨r, hr, hright⟩ := ihr
    have hlexeme := hw.lexeme_ne_unknown (.inr (hop.elim (⟨_, ·⟩) (⟨_, ·⟩)))
    refine ⟨.list [.atom op.lexeme, l, r], by simp [sexpWith?, hl, hr], .of_head hlexeme ?_⟩
    exact List.forall_mem_cons.mpr ⟨hleft, List.forall_mem_singleton.mpr hright⟩

/-- Statements can be written out together if each can. -/
theorem Stmt.exists_sexps {body : List Stmt}
    (h : ∀ s ∈ body, ∃ x, s.sexpWith? quote = some x ∧ x.Complete) :
    ∃ items, Stmt.sexpsWith? quote body = some items ∧ ∀ x ∈ items, x.Complete := by
  induction body with
  | nil => exact ⟨[], rfl, List.forall_mem_nil _⟩
  | cons s rest ih =>
    obtain ⟨⟨x, hx, hcomplete⟩, hrest⟩ := List.forall_mem_cons.mp h
    obtain ⟨items, hitems, hall⟩ := ih hrest
    exact ⟨x :: items, by simp [sexpsWith?, hx, hitems], List.forall_mem_cons.mpr ⟨hcomplete, hall⟩⟩

/-- A statement of sources can be written out, and nothing in it is missing. -/
theorem Stmt.Produced.exists_sexp {s : Stmt} (h : s.Produced) :
    ∃ x, s.sexpWith? quote = some x ∧ x.Complete := by
  induction h with
  | expression he => exact he.exists_sexp quote
  | print k he =>
    obtain ⟨x, hx, hcomplete⟩ := he.exists_sexp quote
    refine ⟨.list [.word "print", x], by simp [sexpWith?, hx], .of_head (by decide) ?_⟩
    exact List.forall_mem_singleton.mpr hcomplete
  | bare n =>
    refine ⟨.list [.word "var", .atom n.lexeme], rfl, .of_head (by decide) ?_⟩
    exact List.forall_mem_singleton.mpr (.atom _)
  | @var n e he =>
    obtain ⟨x, hx, hcomplete⟩ := he.exists_sexp quote
    have hpresent := (Expr.isPresent_iff e).mpr he.ne_absent
    refine ⟨.list [.word "var", .atom n.lexeme, x], by simp [sexpWith?, optional?, hpresent, hx],
      .of_head (by decide) ?_⟩
    exact List.forall_mem_cons.mpr ⟨.atom _, List.forall_mem_singleton.mpr hcomplete⟩
  | block _ ih =>
    obtain ⟨items, hitems, hall⟩ := exists_sexps quote ih
    exact ⟨.list (.word "scope" :: items), by simp [sexpWith?, hitems], .of_head (by decide) hall⟩
  | ifThen k hc _ ih =>
    obtain ⟨c, hcondition, hc⟩ := hc.exists_sexp quote
    obtain ⟨x, hx, hcomplete⟩ := ih
    refine ⟨.list [.word "if", c, x], by simp [sexpWith?, isPresent, hcondition, hx],
      .of_head (by decide) ?_⟩
    exact List.forall_mem_cons.mpr ⟨hc, List.forall_mem_singleton.mpr hcomplete⟩
  | @ifElse k c s t hc _ ht ihs iht =>
    obtain ⟨c, hcondition, hc⟩ := hc.exists_sexp quote
    obtain ⟨x, hx, hthen⟩ := ihs
    obtain ⟨y, hy, helse⟩ := iht
    have hpresent := (Stmt.isPresent_iff t).mpr ht.ne_absent
    refine ⟨.list [.word "if", c, x, y], by simp [sexpWith?, hpresent, hcondition, hx, hy],
      .of_head (by decide) ?_⟩
    exact List.forall_mem_cons.mpr ⟨hc, List.forall_mem_cons.mpr ⟨hthen,
      List.forall_mem_singleton.mpr helse⟩⟩
  | loop k hc _ ih =>
    obtain ⟨c, hcondition, hc⟩ := hc.exists_sexp quote
    obtain ⟨x, hx, hcomplete⟩ := ih
    refine ⟨.list [.word "while", c, x], by simp [sexpWith?, hcondition, hx], .of_head (by decide) ?_⟩
    exact List.forall_mem_cons.mpr ⟨hc, List.forall_mem_singleton.mpr hcomplete⟩

end Written

end Lox
