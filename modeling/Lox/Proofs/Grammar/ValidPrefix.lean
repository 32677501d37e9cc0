import Mathlib.Data.List.Induction
import Mathlib.Order.Bounds.Basic
import Lox.Proofs.Descent.Totality

/-!
# Errors are found at the first token that cannot continue

Reading has the valid-prefix property: as long as it does not fail, the tokens so far are the
beginning of a program. Whatever a reading holds can be completed: parentheses are closed,
statements are given their missing parts and their ends, and blocks are closed. Where it fails, no
program begins with the tokens up to there. The first error that is none of a target is therefore
at the first token that cannot continue a program. Errors of targets are given for the faults of a
derivation and for nothing else.
-/

namespace Lox.Grammar

open Reading

/-- An assignment with faults admitted: an expression of the next category, or one with an equals
sign and an assignment behind it. -/
theorem exists_assignment_iff {ts : List Token} :
    (∃ e f, Expression .assignment ts e f) ↔
      (∃ e f, Expression .logicOr ts e f) ∨
        ∃ us eq vs, ts = us ++ eq :: vs ∧ (∃ e f, Expression .logicOr us e f) ∧
          eq.kind = .sign .equal ∧ ∃ e f, Expression .assignment vs e f := by
  constructor
  · rintro ⟨e, f, h⟩
    cases h with
    | operation _ hop => cases hop
    | single he => exact .inl ⟨_, _, he⟩
    | @assign n eq vs _ _ hn heq he =>
      have hname : Expression .logicOr [n] (.name n) [] :=
        (Expression.variable hn).loosen (by decide)
      exact .inr ⟨[n], eq, vs, rfl, ⟨_, _, hname⟩, heq, _, _, he⟩
    | @misassign eq us vs _ _ _ _ hl _ heq hr =>
      exact .inr ⟨us, eq, vs, rfl, ⟨_, _, hl⟩, heq, _, _, hr⟩
  · rintro (⟨e, f, h⟩ | ⟨us, eq, vs, rfl, ⟨e, f, hl⟩, heq, e', g, hr⟩)
    · exact ⟨_, _, .single h⟩
    · by_cases hname : ∃ n, e = .name n
      · obtain ⟨n, rfl⟩ := hname
        obtain ⟨rfl, hn, -⟩ := hl.of_name
        exact ⟨_, _, .assign hn heq hr⟩
      · exact ⟨_, _, .misassign hl (not_exists.mp hname) heq hr⟩

/-- The tokens of a program in which assignments to anything are admitted. -/
def Word (ts : List Token) : Prop := ∃ program faults, Program .any ts program faults

/-- Tokens with which some word and an end token behind it begin. -/
def Viable (ts : List Token) : Prop := ∃ word e, Word word ∧ e.kind = .eof ∧ ts <+: word ++ [e]

/-- A token of a kind: rules ask for nothing else. -/
def ofKind (k : Kind) : Token := ⟨k, [], none, 1⟩

/-- Tokens that can be completed to a word. -/
def Completable (ts : List Token) : Prop :=
  ∃ more program faults, Program .nearest (ts ++ more) program faults

/-- The beginnings of tokens that can be completed can be, too. -/
theorem Completable.shorten {ts us : List Token} (h : Completable us) (hts : ts <+: us) :
    Completable ts := by
  obtain ⟨more, program, faults, h⟩ := h
  obtain ⟨rest, rfl⟩ := hts
  rw [List.append_assoc] at h
  exact ⟨rest ++ more, program, faults, h⟩

/-- Tokens that can be completed are viable. -/
theorem Completable.viable {ts : List Token} (h : Completable ts) : Viable ts := by
  obtain ⟨more, program, faults, h⟩ := h
  obtain ⟨program', hany⟩ := exists_program_iff.mpr ⟨program, h⟩
  refine ⟨ts ++ more, ofKind .eof, ⟨program', faults, hany⟩, rfl, ?_⟩
  exact (List.prefix_append ts more).trans (List.prefix_append _ _)

/-- The tokens of a block without declarations. -/
def braces : List Token := [ofKind (.sign .leftBrace), ofKind (.sign .rightBrace)]

/-- A block without declarations is a statement. -/
theorem phrase_braces : Phrase .nearest (.statement false) braces (.block []) [] := by
  have h : ∀ p ∈ ([] : List Piece), Phrase .nearest .declaration p.tokens p.tree p.faults :=
    List.forall_mem_nil _
  exact .block rfl h rfl

/-- Whatever is derived is a declaration. -/
theorem Phrase.declaration {rule : ElseRule} {form : Form} {ts : List Token} {s : Stmt}
    {f : List Token} (h : Phrase rule form ts s f) : Phrase rule .declaration ts s f := by
  cases form with
  | declaration => exact h
  | statement d => exact .statement h

/-- Outside a row there are statements only. -/
theorem exists_form_eq {construct : Outer} {outer : List Outer} {form : Form}
    (hform : form = .declaration → InRow (construct :: outer))
    (hconstruct : ∀ body, construct ≠ .block body) : ∃ d, form = .statement d := by
  cases form with
  | statement d => exact ⟨d, rfl⟩
  | declaration =>
    rcases hform rfl with h | ⟨body, outer', h⟩
    · cases h
    · exact absurd (List.cons.inj h).1 (hconstruct body)

section Expressions

variable {e : Expr} {pending : List Pending} {ts f : List Token}

/-- Joining an assignment to its value keeps the account of the tokens, with the fault that there
may be. -/
theorem Carries.assign {target : Expr} {eq : Token}
    (h : Carries 0 e (.assign target eq :: pending) ts f) :
    ∃ e' f', Carries 0 e' pending ts f' := by
  obtain ⟨c, ts₁, ts₂, f₁, f₂, rfl, rfl, hw, he, -, -⟩ := h
  cases hw with
  | @assign _ _ _ ts us f g hw hslot ht heq =>
    obtain ⟨e', f', hassign⟩ := exists_assignment_iff.mpr
      (.inr ⟨us, eq, ts₂, rfl, ⟨_, _, ht⟩, heq, _, _, he.loosen (Nat.zero_le _)⟩)
    refine ⟨e', f ++ f', .assignment, ts, us ++ eq :: ts₂, f, f', ?_, rfl, hw, hassign,
      Nat.le_of_eq hslot, Nat.zero_le _⟩
    simp only [List.append_assoc, List.singleton_append]

/-- Behind an operand an expression can be completed: its parentheses are closed. -/
theorem Carries.exists_expression (h : Carries 0 e pending ts f) :
    ∃ more e' f', Expression .assignment (ts ++ more) e' f' := by
  induction pending generalizing e ts f with
  | nil =>
    obtain ⟨c, ts₁, ts₂, f₁, f₂, rfl, rfl, hw, he, -, -⟩ := h
    cases hw
    refine ⟨[], e, f₂, ?_⟩
    rw [List.nil_append, List.append_nil]
    exact he.loosen (Nat.zero_le _)
  | cons p rest ih =>
    cases p with
    | unary op => exact ih (h.unary (Nat.zero_le _))
    | binary left op => exact ih (h.binary (.inl (Nat.zero_le _)))
    | assign target eq =>
      obtain ⟨e', f', h'⟩ := h.assign
      exact ih h'
    | group =>
      obtain ⟨c, ts₁, ts₂, f₁, f₂, rfl, rfl, hw, he, -, -⟩ := h
      cases hw with
      | @group l _ ts _ hw hl =>
        have hgroup := Expression.grouping (r := ofKind (.sign .rightParen)) hl
          (he.loosen (Nat.zero_le _)) rfl
        obtain ⟨more, e', f', he'⟩ := ih ⟨.primary, ts, _, f₁, f₂, rfl, rfl, hw, hgroup,
          Nat.le_succ_of_le (slot_le rest), Nat.zero_le _⟩
        refine ⟨ofKind (.sign .rightParen) :: more, e', f', ?_⟩
        simpa only [List.append_assoc, List.cons_append, List.nil_append] using he'

/-- Where an operand has to come, an expression can be completed. -/
theorem Waits.exists_expression (h : Waits pending ts f) :
    ∃ more e f', Expression .assignment (ts ++ more) e f' := by
  have hnil : Expression .primary [ofKind (.word .nil)] (.literal (some .nil)) [] := .nilWord rfl
  obtain ⟨more, e, f', he⟩ := ((Carries.of_token h hnil).mono (Nat.zero_le _)).exists_expression
  rw [List.append_assoc] at he
  exact ⟨_, e, f', he⟩

end Expressions

section Statements

variable {outer : List Outer} {program : List Stmt} {ts us vs f g j : List Token} {s : Stmt}

/-- Behind a statement, or a declaration in a row, a program can be completed: the constructs
around it end with it, and blocks are closed. -/
theorem Context.completable_phrase {form : Form} (hc : Context outer program ts f)
    (ho : Open outer) (hs : Phrase .nearest form us s g)
    (hform : form = .declaration → InRow outer) : Completable (ts ++ us) := by
  induction hc generalizing form us s g with
  | top h =>
    obtain ⟨pieces, hp, rfl, rfl, rfl⟩ := h
    have hpieces := forall_mem_concat hp (p := ⟨us, s, g⟩) hs.declaration
    refine ⟨[], _, _, _, hpieces, ?_, rfl, rfl⟩
    simp only [List.flatMap_append, List.flatMap_cons, List.flatMap_nil, List.append_nil]
  | block hc ho' hl hp ih =>
    have hpieces := forall_mem_concat hp (p := ⟨us, s, g⟩) hs.declaration
    have hblock := Phrase.block (r := ofKind (.sign .rightBrace)) hl hpieces rfl
    refine (ih ho' hblock nofun).shorten ⟨[ofKind (.sign .rightBrace)], ?_⟩
    simp only [List.flatMap_append, List.flatMap_cons, List.flatMap_nil, List.append_assoc,
      List.cons_append, List.append_nil]
  | thenBranch _ ho' hk hl hcond hr ih =>
    obtain ⟨d, rfl⟩ := exists_form_eq hform nofun
    have h := ih ho' (.ifThen hk hl hcond hr hs) nofun
    simpa only [List.append_assoc, List.cons_append, List.nil_append] using h
  | elseBranch _ ho' hk hl hcond hr hthen hel ih =>
    obtain ⟨d, rfl⟩ := exists_form_eq hform nofun
    have h := ih ho' (.ifElse hk hl hcond hr hthen (fun _ => rfl) hel hs) nofun
    simpa only [List.append_assoc, List.cons_append, List.nil_append] using h
  | whileBody _ ho' hk hl hcond hr ih =>
    obtain ⟨d, rfl⟩ := exists_form_eq hform nofun
    have h := ih ho' (.whileLoop hk hl hcond hr hs) nofun
    simpa only [List.append_assoc, List.cons_append, List.nil_append] using h
  | forInit => exact absurd rfl (ho _ _)
  | forBody _ ho' hk hl hi hcond hsemi hst hr ih =>
    obtain ⟨d, rfl⟩ := exists_form_eq hform nofun
    have h := ih ho' (.forLoop hk hl hi hcond hsemi hst hr hs) nofun
    simpa only [List.append_assoc, List.cons_append, List.nil_append] using h

/-- Behind a statement a program can be completed. -/
theorem Context.completable_statement {d : Bool} (hc : Context outer program ts f)
    (ho : Open outer) (hs : Phrase .nearest (.statement d) us s g) : Completable (ts ++ us) :=
  hc.completable_phrase ho hs nofun

/-- Where a statement has to come, a program can be completed. -/
theorem Context.completable (hc : Context outer program ts f) (ho : Open outer) :
    Completable ts :=
  (hc.completable_statement ho phrase_braces).shorten (List.prefix_append _ _)

/-- Behind the clauses of a `for` a program can be completed. -/
theorem Context.completable_clauses {k l semi : Token} {is cs ss h : List Token}
    {init : Option Stmt} {condition step : Option Expr} (hctx : Context outer program ts f)
    (ho : Open outer) (hk : k.kind = .word .for_) (hl : l.kind = .sign .leftParen)
    (hi : FirstClause is init g) (hc : OptionalExpression cs condition h)
    (hs : semi.kind = .sign .semicolon) (hst : OptionalExpression ss step j) :
    Completable (ts ++ (k :: l :: is ++ cs ++ semi :: ss)) := by
  have hr : (ofKind (.sign .rightParen)).kind = .sign .rightParen := rfl
  have hfor := Phrase.forLoop hk hl hi hc hs hst hr phrase_braces
  refine (hctx.completable_statement ho hfor).shorten ⟨ofKind (.sign .rightParen) :: braces, ?_⟩
  simp only [List.append_assoc, List.cons_append]

/-- Behind the first two clauses of a `for`, the second without its end, a program can be
completed. -/
theorem Context.completable_condition {k l : Token} {is cs h : List Token} {init : Option Stmt}
    {condition : Option Expr} (hctx : Context outer program ts f) (ho : Open outer)
    (hk : k.kind = .word .for_) (hl : l.kind = .sign .leftParen) (hi : FirstClause is init g)
    (hc : OptionalExpression cs condition h) : Completable (ts ++ (k :: l :: is ++ cs)) := by
  have hs : (ofKind (.sign .semicolon)).kind = .sign .semicolon := rfl
  refine (hctx.completable_clauses ho hk hl hi hc hs .none).shorten
    ⟨[ofKind (.sign .semicolon)], ?_⟩
  simp only [List.append_assoc, List.cons_append]

/-- Behind the first clause of a `for` a program can be completed. -/
theorem Context.completable_firstClause {k : Token} {init : Option Stmt}
    (hc : Context (.forInit k :: outer) program ts f) (hi : FirstClause us init g) :
    Completable (ts ++ us) := by
  cases hc with
  | forInit hc ho hk hl =>
    have h := hc.completable_condition ho hk hl hi .none
    simpa only [List.append_assoc, List.cons_append, List.nil_append, List.append_nil] using h

/-- Behind the declaration of a variable a program can be completed. -/
theorem Context.completable_var (hc : Context outer program ts f) (ho : Declares outer)
    (hs : VarDeclaration us s g) : Completable (ts ++ us) := by
  rcases ho with ho | ⟨k, outer', rfl⟩
  · exact hc.completable_phrase ho.open (.var hs) fun _ => ho
  · exact hc.completable_firstClause (.var hs)

/-- Behind an expression as a statement a program can be completed. -/
theorem Context.completable_expression (hc : Context outer program ts f)
    (hs : ExpressionStatement us s g) : Completable (ts ++ us) := by
  rcases open_or_forInit outer with ho | ⟨k, outer', rfl⟩
  · exact hc.completable_statement ho (.expression hs)
  · exact hc.completable_firstClause (.expression hs)

/-- Behind a whole expression a program can be completed, wherever the expression stands. -/
theorem Placed.completable {place : Place} {e : Expr} (hp : Placed outer place us g)
    (hc : Context outer program ts f) (he : Expression .assignment vs e j) :
    Completable (ts ++ (us ++ vs)) := by
  have hsemi : (ofKind (.sign .semicolon)).kind = .sign .semicolon := rfl
  have hparen : (ofKind (.sign .rightParen)).kind = .sign .rightParen := rfl
  cases hp with
  | statement =>
    refine (hc.completable_expression (.intro he hsemi)).shorten ⟨[ofKind (.sign .semicolon)], ?_⟩
    simp only [List.append_assoc, List.nil_append]
  | printed ho hk =>
    refine (hc.completable_statement ho (.print hk he hsemi)).shorten
      ⟨[ofKind (.sign .semicolon)], ?_⟩
    simp only [List.append_assoc, List.cons_append, List.nil_append]
  | initializer ho hv hn heq =>
    refine (hc.completable_var ho (.initialized hv hn heq he hsemi)).shorten
      ⟨[ofKind (.sign .semicolon)], ?_⟩
    simp only [List.append_assoc, List.cons_append, List.nil_append]
  | ifCondition ho hk hl =>
    refine (hc.completable_statement ho (.ifThen hk hl he hparen phrase_braces)).shorten
      ⟨ofKind (.sign .rightParen) :: braces, ?_⟩
    simp only [List.append_assoc, List.cons_append, List.nil_append]
  | whileCondition ho hk hl =>
    refine (hc.completable_statement ho (.whileLoop hk hl he hparen phrase_braces)).shorten
      ⟨ofKind (.sign .rightParen) :: braces, ?_⟩
    simp only [List.append_assoc, List.cons_append, List.nil_append]
  | forCondition ho hk hl hi => exact hc.completable_condition ho hk hl hi (.some he)
  | forStep ho hk hl hi hcond hs =>
    have h := hc.completable_clauses ho hk hl hi hcond hs (.some he)
    simpa only [List.append_assoc, List.cons_append, List.nil_append] using h

/-- Where an operand has to come, a program can be completed. -/
theorem Placed.completable_operand {place : Place} {pending : List Pending}
    (hp : Placed outer place us g) (hc : Context outer program ts f) (hw : Waits pending vs j) :
    Completable (ts ++ (us ++ vs)) := by
  obtain ⟨more, e, f', he⟩ := hw.exists_expression
  refine (hp.completable hc he).shorten ⟨more, ?_⟩
  simp only [List.append_assoc]

/-- Where something definite has to come, a program can be completed: an operand, a name, or a
parenthesis is put there, and what it leads to is completed. -/
theorem Expects.completable {goal : Goal} (he : Expects outer goal us g)
    (hc : Context outer program ts f) : Completable (ts ++ us) := by
  have hsemi : (ofKind (.sign .semicolon)).kind = .sign .semicolon := rfl
  have hparen : (ofKind (.sign .leftParen)).kind = .sign .leftParen := rfl
  have hname : (ofKind .identifier).kind = .identifier := rfl
  cases he with
  | declaration ho =>
    rw [List.append_nil]
    exact hc.completable ho.open
  | statement ho =>
    rw [List.append_nil]
    exact hc.completable ho
  | operand hp hw => exact hp.completable_operand hc hw
  | operator hp hcarries =>
    obtain ⟨more, e, f', he⟩ := (hcarries.mono (Nat.zero_le _)).exists_expression
    refine (hp.completable hc he).shorten ⟨more, ?_⟩
    simp only [List.append_assoc]
  | varName ho hv =>
    refine (hc.completable_var ho (.bare hv hname hsemi)).shorten
      ⟨[ofKind .identifier, ofKind (.sign .semicolon)], ?_⟩
    simp only [List.append_assoc, List.cons_append, List.nil_append]
  | varEnd ho hv hn =>
    refine (hc.completable_var ho (.bare hv hn hsemi)).shorten ⟨[ofKind (.sign .semicolon)], ?_⟩
    simp only [List.append_assoc, List.cons_append, List.nil_append]
  | ifParen ho hk =>
    refine ((Placed.ifCondition ho hk hparen).completable_operand hc .nil).shorten
      ⟨[ofKind (.sign .leftParen)], ?_⟩
    simp only [List.append_assoc, List.cons_append, List.nil_append, List.append_nil]
  | whileParen ho hk =>
    refine ((Placed.whileCondition ho hk hparen).completable_operand hc .nil).shorten
      ⟨[ofKind (.sign .leftParen)], ?_⟩
    simp only [List.append_assoc, List.cons_append, List.nil_append, List.append_nil]
  | forParen ho hk =>
    have hctx := Context.forInit hc ho hk hparen
    refine (hctx.completable_firstClause (.none hsemi)).shorten
      ⟨[ofKind (.sign .leftParen), ofKind (.sign .semicolon)], ?_⟩
    simp only [List.append_assoc, List.cons_append, List.nil_append]
  | forInit ho hk hl =>
    have hctx := Context.forInit hc ho hk hl
    exact (hctx.completable_firstClause (.none hsemi)).shorten (List.prefix_append _ _)
  | forCondition hp =>
    cases hp with
    | forCondition ho hk hl hi =>
      have h := hc.completable_condition ho hk hl hi .none
      rwa [List.append_nil] at h
  | forStep hp =>
    cases hp with
    | forStep ho hk hl hi hcond hs => exact hc.completable_clauses ho hk hl hi hcond hs .none

/-- Behind a complete statement a program can be completed. -/
theorem Completed.completable (hs : Completed outer s us g) (hc : Context outer program ts f) :
    Completable (ts ++ us) := by
  cases hs with
  | var ho h => exact hc.completable_var ho h
  | expression h => exact hc.completable_expression h
  | statement ho h => exact hc.completable_statement ho h

end Statements

/-- As long as a reading accounts for the tokens so far, they can be completed. -/
theorem Accounts.completable {ts : List Token} {r : Reading} (h : Accounts ts r) :
    Completable ts := by
  obtain ⟨outer, mode, program, errors⟩ := r
  obtain ⟨ts₁, ts₂, f₁, f₂, rfl, -, hc, hh⟩ := h
  cases mode with
  | expecting goal => exact Expects.completable hh hc
  | complete s => exact Completed.completable hh hc
  | skipping => exact hh.elim

/-- The errors of a stream, none if it is read as a program. -/
def errorsOf (tokens : List Token) : List GrammarError :=
  match parse tokens with
  | .ok _ => []
  | .error errors => errors

/-- The errors of a stream are those of its reading. -/
theorem errorsOf_eq {ts : List Token} {e : Token} (hts : ∀ t ∈ ts, t.kind ≠ .eof)
    (he : e.kind = .eof) : errorsOf (ts ++ [e]) = (start.run (ts ++ [e])).errors := by
  have hnone : (ts.find? fun t => t.kind = .eof) = none :=
    List.find?_eq_none.mpr fun t ht => by simpa only [decide_eq_true_eq] using hts t ht
  have hbefore : beforeEnd (ts ++ [e]) = ts := by
    rw [beforeEnd_append_end he, beforeEnd_eq_self hnone]
  have hend : endToken (ts ++ [e]) = e := by
    rw [endToken_append_end he, hnone, Option.getD_none]
  unfold errorsOf parse
  rw [hbefore, hend]
  dsimp only
  cases (start.run (ts ++ [e])).errors <;> rfl

/-- A word has errors of targets only, one for each of its faults. -/
theorem Program.errors_run {rule : ElseRule} {ts faults : List Token} {program : List Stmt}
    {e : Token} (h : Program rule ts program faults) (he : e.kind = .eof) :
    (start.run (ts ++ [e])).errors = faults.map invalidTarget := by
  obtain ⟨program', hnearest⟩ : ∃ program', Program .nearest ts program' faults := by
    cases rule with
    | any => exact exists_program_iff.mp ⟨program, h⟩
    | nearest => exact ⟨program, h⟩
  rw [hnearest.run_end he]

/-- Reading fails at a token behind tokens that it accounts for. -/
structure FailsBehind (before : List Token) (t : Token) : Prop where
  /-- The tokens before are accounted for. -/
  accounts : Accounts before (start.run before)
  /-- Reading fails at the token. -/
  rejects : Rejects (start.run before).errors t (start.run (before ++ [t]))

/-- Reading accounts for all tokens, or fails at one of them. -/
theorem accounts_or_failsBehind {ts : List Token} (hts : ∀ t ∈ ts, t.kind ≠ .eof) :
    Accounts ts (start.run ts) ∨
      ∃ before t after, ts = before ++ t :: after ∧ FailsBehind before t := by
  induction ts using List.reverseRecOn with
  | nil => exact .inl accounts_start
  | append_singleton ts t ih =>
    obtain ⟨hbefore, ht⟩ := List.forall_mem_append.mp hts
    rcases ih hbefore with ha | ⟨before, t', after, rfl, hfails⟩
    · have hrun : start.run (ts ++ [t]) = (start.run ts).step t := by rw [run_append]; rfl
      rcases ha.step (ht t List.mem_cons_self) with hadvanced | hrejects
      · exact .inl (hrun ▸ hadvanced)
      · exact .inr ⟨ts, t, [], rfl, ha, hrun ▸ hrejects⟩
    · refine .inr ⟨before, t', after ++ [t], ?_, hfails⟩
      rw [List.append_assoc, List.cons_append]

/-- A stream is a word, or reading fails at one of its tokens or at its end. -/
theorem word_or_failsBehind {ts : List Token} {e : Token} (hts : ∀ t ∈ ts, t.kind ≠ .eof)
    (he : e.kind = .eof) :
    Word ts ∨ ∃ before t after, ts ++ [e] = before ++ t :: after ∧ FailsBehind before t := by
  rcases accounts_or_failsBehind hts with ha | ⟨before, t, after, rfl, hfails⟩
  · have hrun : start.run (ts ++ [e]) = (start.run ts).step e := by rw [run_append]; rfl
    rcases ha.step_eof he with ⟨faults, hprogram, -⟩ | hrejects
    · obtain ⟨program, hany⟩ := exists_program_iff.mpr ⟨_, hprogram⟩
      exact .inl ⟨program, faults, hany⟩
    · exact .inr ⟨ts, e, [], rfl, ha, hrun ▸ hrejects⟩
  · refine .inr ⟨before, t, after ++ [e], ?_, hfails⟩
    rw [List.append_assoc, List.cons_append]

namespace FailsBehind

variable {before : List Token} {t : Token}

/-- The errors up to a failure: those of targets, and one at the token. -/
theorem exists_errors (h : FailsBehind before t) :
    ∃ (faults : List Token) (cause : GrammarCause), cause ≠ .invalidTarget ∧
      (start.run (before ++ [t])).errors = faults.map invalidTarget ++ [⟨cause, t.line⟩] := by
  obtain ⟨-, -, f₁, f₂, -, herrors, -, -⟩ := h.accounts
  obtain ⟨-, cause, faults, hcause, hrejects⟩ := h.rejects
  refine ⟨f₁ ++ f₂ ++ faults, cause, hcause, ?_⟩
  rw [hrejects, herrors, ← List.map_append]

/-- No word begins with the tokens up to a failure. -/
theorem not_viable (h : FailsBehind before t) : ¬ Viable (before ++ [t]) := by
  rintro ⟨word, e, ⟨program, faults, hword⟩, he, rest, hrest⟩
  obtain ⟨faults', cause, hcause, herrors⟩ := h.exists_errors
  have hall := hword.errors_run he
  rw [← hrest, run_append] at hall
  -- The error at the token would be among those of the word, which are all of targets.
  have hstays := errors_prefix_run (start.run (before ++ [t])) rest
  rw [hall, herrors] at hstays
  have hmem : (⟨cause, t.line⟩ : GrammarError) ∈ faults.map invalidTarget :=
    hstays.subset (List.mem_append_right _ (List.mem_singleton.mpr rfl))
  obtain ⟨fault, -, hfault⟩ := List.mem_map.mp hmem
  exact hcause (congrArg GrammarError.cause hfault).symm

/-- The first error of a stream that is none of a target is at the token where reading fails. -/
theorem find?_errors (h : FailsBehind before t) (after : List Token) :
    ∃ cause, ((start.run (before ++ t :: after)).errors.find? fun error =>
      error.cause ≠ .invalidTarget) = some ⟨cause, t.line⟩ := by
  obtain ⟨faults, cause, hcause, herrors⟩ := h.exists_errors
  have hrun : start.run (before ++ t :: after) = (start.run (before ++ [t])).run after := by
    rw [← run_append, List.append_assoc, List.singleton_append]
  obtain ⟨more, hmore⟩ := errors_prefix_run (start.run (before ++ [t])) after
  have hnone : ((faults.map invalidTarget).find? fun error =>
      error.cause ≠ .invalidTarget) = none := by
    rw [List.find?_eq_none]
    intro error herror
    obtain ⟨fault, -, rfl⟩ := List.mem_map.mp herror
    simp only [invalidTarget, ne_eq, not_true_eq_false, decide_false, Bool.false_eq_true,
      not_false_eq_true]
  refine ⟨cause, ?_⟩
  rw [hrun, ← hmore, herrors, List.append_assoc, List.find?_append, hnone, Option.none_or,
    List.singleton_append]
  exact List.find?_cons_of_pos (decide_eq_true hcause)

/-- The token at which reading fails is the first that cannot continue a program. -/
theorem isLeast {tokens after : List Token} (h : FailsBehind before t)
    (htokens : tokens = before ++ t :: after) :
    IsLeast {k | k < tokens.length ∧ ¬ Viable (tokens.take (k + 1))} before.length := by
  subst htokens
  constructor
  · refine ⟨by simp only [List.length_append, List.length_cons]; omega, ?_⟩
    have htake : (before ++ t :: after).take (before.length + 1) = before ++ [t] := by
      rw [List.take_length_add_append, List.take_succ_cons, List.take_zero]
    rw [htake]
    exact h.not_viable
  · rintro k ⟨-, hk⟩
    by_contra hlt
    have hshort : (before ++ t :: after).take (k + 1) <+: before := by
      rw [List.take_append_of_le_length (by omega)]
      exact List.take_prefix _ _
    exact hk (h.accounts.completable.shorten hshort).viable

end FailsBehind

/-- Errors are found at the first token that cannot continue a program. If the tokens of a stream
before its end are a word of the grammar with assignments to anything, the errors are those of the
faults of the derivation, one at each equals sign that follows something other than a variable. If
they are not, there is a first token with which the tokens so far begin no word followed by an end
token, and the first error that is none of a target is on its line. -/
theorem errors_at_first_inviable_token {ts : List Token} {e : Token}
    (hts : ∀ t ∈ ts, t.kind ≠ .eof) (he : e.kind = .eof) :
    (∀ program faults, Program .any ts program faults →
      errorsOf (ts ++ [e]) = faults.map invalidTarget) ∧
    (¬ Word ts → ∃ k t error,
      IsLeast {k | k < (ts ++ [e]).length ∧ ¬ Viable ((ts ++ [e]).take (k + 1))} k ∧
        (ts ++ [e])[k]? = some t ∧
        ((errorsOf (ts ++ [e])).find? fun error => error.cause ≠ .invalidTarget) = some error ∧
        error.line = t.line) := by
  rw [errorsOf_eq hts he]
  refine ⟨fun program faults h => h.errors_run he, fun hword => ?_⟩
  obtain ⟨before, t, after, htokens, hfails⟩ :=
    (word_or_failsBehind hts he).resolve_left hword
  obtain ⟨cause, hfind⟩ := hfails.find?_errors after
  refine ⟨before.length, t, ⟨cause, t.line⟩, hfails.isLeast htokens, ?_, ?_, rfl⟩
  · rw [htokens, List.getElem?_append_right (Nat.le_refl _), Nat.sub_self]
    rfl
  · rw [htokens]
    exact hfind

/-- In `(a) = nil )` on two lines the last parenthesis is the first token that cannot continue a
program. The error at it comes behind that of the target. -/
theorem errors_at_first_inviable_token_of_paren :
    let paren : Token := ⟨.sign .rightParen, utf8 ")", none, 2⟩
    let ts := [.sign .leftParen, .identifier, .sign .rightParen, .sign .equal, .word .nil].map
      ofKind ++ [paren]
    let stream := ts ++ [Token.eof 3]
    errorsOf stream = [⟨.invalidTarget, 1⟩, ⟨.semicolonAfterExpression, 2⟩] ∧
      IsLeast {k | k < stream.length ∧ ¬ Viable (stream.take (k + 1))} 5 := by
  intro paren ts stream
  have hts : ∀ t ∈ ts, t.kind ≠ .eof := by decide
  have herrors : errorsOf stream = [⟨.invalidTarget, 1⟩, ⟨.semicolonAfterExpression, 2⟩] := by
    decide
  obtain ⟨hfaults, hfirst⟩ := errors_at_first_inviable_token hts (rfl : (Token.eof 3).kind = .eof)
  have hword : ¬ Word ts := by
    rintro ⟨program, faults, h⟩
    have hmem : (⟨.semicolonAfterExpression, 2⟩ : GrammarError) ∈ faults.map invalidTarget := by
      rw [← hfaults program faults h, herrors]
      decide
    obtain ⟨fault, -, hfault⟩ := List.mem_map.mp hmem
    cases hfault
  obtain ⟨k, t, error, hleast, hat, hfind, hline⟩ := hfirst hword
  -- Only the parenthesis is on the second line.
  have hk : k = 5 := by
    rw [herrors] at hfind
    cases hfind
    have hlines : ∀ k < 7, ∀ t, stream[k]? = some t → t.line = 2 → k = 5 := by decide
    exact hlines k hleast.1.1 t hat hline.symm
  exact ⟨herrors, hk ▸ hleast⟩

end Lox.Grammar
