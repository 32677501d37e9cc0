import Lox.Proofs.Descent.Cursor

/-!
# A descent keeps pace with reading

A procedure of the descent and the reading of the same tokens one by one come to the same. Each
procedure starts where reading expects what the procedure is for. When it returns, reading has
taken the same tokens and takes the next one as if it had just been handed the result; when it
raises an error, reading meets the same error at the same token and gives up what was open. The
comparison goes procedure by procedure, a call being compared through what is known of the
procedure it calls.
-/

namespace Lox.Descent

open Grammar Procedure Reading

variable {ts : List Token} {e : Token} {program : List Stmt}

section Follows

variable {α β : Type}

/-- A procedure, started at `body` with some errors reported, keeps pace with a reading. It returns
behind some of the tokens, where `Q` holds of those and of the next, and reading takes the next
token as from `r'`; or it raises an error there, and so does reading. -/
def Follows (ts : List Token) (e : Token) (program : List Stmt) (m : Descent α)
    (body : List Token) (errors : List GrammarError) (r : Reading)
    (Q : List Token → Token → Prop) (r' : α → List GrammarError → Reading) : Prop :=
  ∀ p, Left ts e p body → ∃ us rest errors', body = us ++ rest ∧
    ((∃ v, m.runAt ⟨p, errors⟩ = some (.ok v, ⟨p + us.length, errors'⟩) ∧
        Q us (rest.headD e) ∧
        (r.run us).step (rest.headD e) = (r' v errors').step (rest.headD e)) ∨
      ∃ g, m.runAt ⟨p, errors⟩ = some (.error (.raised g), ⟨p + us.length, errors'⟩) ∧
        (r.run us).step (rest.headD e) =
          ⟨[], .skipping (rest.headD e), program, errors' ++ [g]⟩)

variable {m : Descent α} {body rest : List Token} {errors : List GrammarError} {r : Reading}
  {Q Q' : List Token → Token → Prop} {r' r'' : α → List GrammarError → Reading}

/-- A result at once. -/
theorem Follows.pure {v : α} (hQ : Q [] (body.headD e))
    (hr : r.step (body.headD e) = (r' v errors).step (body.headD e)) :
    Follows ts e program (Pure.pure v : Descent α) body errors r Q r' := by
  intro p _
  exact ⟨[], body, errors, rfl, .inl ⟨v, rfl, hQ, hr⟩⟩

/-- A result at once, where reading has been handed it. -/
theorem Follows.result {v : α} (hQ : Q [] (body.headD e)) (hr : r = r' v errors) :
    Follows ts e program (Pure.pure v : Descent α) body errors r Q r' :=
  .pure hQ (by rw [hr])

/-- A move that takes nothing leaves the rest of the procedure to be compared. -/
theorem Follows.of_stay {m' : Descent α}
    (hm : ∀ p, Left ts e p body → m.runAt ⟨p, errors⟩ = m'.runAt ⟨p, errors⟩)
    (h : Follows ts e program m' body errors r Q r') :
    Follows ts e program m body errors r Q r' := by
  intro p hp
  rw [hm p hp]
  exact h p hp

/-- A move over a token leaves the rest of the procedure to be compared. -/
theorem Follows.of_move {m' : Descent α} {t : Token}
    (hm : ∀ p, Left ts e p (t :: rest) → m.runAt ⟨p, errors⟩ = m'.runAt ⟨p + 1, errors⟩)
    (h : Follows ts e program m' rest errors (r.step t) (fun us => Q (t :: us)) r') :
    Follows ts e program m (t :: rest) errors r Q r' := by
  intro p hp
  obtain ⟨us, rest', errors', rfl, hresult⟩ := h (p + 1) hp.tail
  have hlength : p + (t :: us).length = p + 1 + us.length := by
    rw [List.length_cons]
    omega
  rw [hm p hp]
  refine ⟨t :: us, rest', errors', rfl, ?_⟩
  rw [hlength]
  exact hresult

/-- The comparison may start from any reading that takes the next token alike. -/
theorem Follows.of_agree {r₀ : Reading} (hr : r₀.step (body.headD e) = r.step (body.headD e))
    (h : Follows ts e program m body errors r Q r') :
    Follows ts e program m body errors r₀ Q r' := by
  intro p hp
  obtain ⟨us, rest, errors', rfl, hresult⟩ := h p hp
  refine ⟨us, rest, errors', rfl, ?_⟩
  have hrun : (r₀.run us).step (rest.headD e) = (r.run us).step (rest.headD e) := by
    cases us with
    | nil => exact hr
    | cons t us =>
      have hhead : r₀.step t = r.step t := hr
      rw [run_congr_head hhead]
  rw [hrun]
  exact hresult

/-- The comparison may end at any reading that takes the next token alike. -/
theorem Follows.imp (h : Follows ts e program m body errors r Q r')
    (hQ : ∀ us t, Q us t → Q' us t)
    (hr : ∀ us t v errors', Q us t → (r' v errors').step t = (r'' v errors').step t) :
    Follows ts e program m body errors r Q' r'' := by
  intro p hp
  obtain ⟨us, rest, errors', rfl, ⟨v, hm, hus, hstep⟩ | hraised⟩ := h p hp
  · refine ⟨us, rest, errors', rfl, .inl ⟨v, hm, hQ _ _ hus, ?_⟩⟩
    rw [hstep, hr us _ v errors' hus]
  · exact ⟨us, rest, errors', rfl, .inr hraised⟩

/-- A call is compared through what is known of the procedure called. -/
theorem Follows.bind {k : α → Descent β} {Q₁ : List Token → Token → Prop}
    {s : β → List GrammarError → Reading} (h : Follows ts e program m body errors r Q₁ r')
    (hk : ∀ us rest v errors', body = us ++ rest → Q₁ us (rest.headD e) →
      Follows ts e program (k v) rest errors' (r' v errors') (fun vs => Q (us ++ vs)) s) :
    Follows ts e program (m >>= k) body errors r Q s := by
  intro p hp
  obtain ⟨us, rest, errors', rfl, ⟨v, hm, hus, hstep⟩ | ⟨g, hm, hstep⟩⟩ := h p hp
  · obtain ⟨vs, rest', errors'', rfl, hresult⟩ :=
      (hk us rest v errors' rfl hus).of_agree hstep (p + us.length) hp.append
    rw [runAt_bind_ok hm]
    refine ⟨us ++ vs, rest', errors'', (List.append_assoc ..).symm, ?_⟩
    rw [run_append, List.length_append, ← Nat.add_assoc]
    exact hresult
  · exact ⟨us, rest, errors', rfl, .inr ⟨g, runAt_bind_error hm k, hstep⟩⟩

/-- Trying some kinds of token: one of them is taken, or the procedure goes on at the same
place. -/
theorem Follows.accept {kinds : List Kind} {k : Bool → Descent α} (hkinds : .eof ∉ kinds)
    (hyes : ∀ t rest, body = t :: rest → t.kind ∈ kinds →
      Follows ts e program (k true) rest errors (r.step t) (fun us => Q (t :: us)) r')
    (hno : (body.headD e).kind ∉ kinds → Follows ts e program (k false) body errors r Q r') :
    Follows ts e program (Descent.accept ts kinds >>= k) body errors r Q r' := by
  intro p hp
  by_cases hmem : (body.headD e).kind ∈ kinds
  · obtain ⟨t, rest, rfl⟩ := hp.exists_cons fun heof => hkinds (heof ▸ hmem)
    refine Follows.of_move (fun p hp => ?_) (hyes t rest rfl hmem) p hp
    exact runAt_bind_ok (hp.runAt_accept errors hkinds hmem) k
  · refine Follows.of_stay (fun p hp => ?_) (hno hmem) p hp
    exact runAt_bind_ok (hp.runAt_accept_of_not_mem errors hkinds hmem) k

/-- Trying some kinds of token and looking back at the one taken. -/
theorem Follows.acceptToken {kinds : List Kind} {yes : Token → Descent α} {no : Descent α}
    (hkinds : .eof ∉ kinds)
    (hyes : ∀ t rest, body = t :: rest → t.kind ∈ kinds →
      Follows ts e program (yes t) rest errors (r.step t) (fun us => Q (t :: us)) r')
    (hno : (body.headD e).kind ∉ kinds → Follows ts e program no body errors r Q r') :
    Follows ts e program (do if ← Descent.accept ts kinds then yes (← previous ts) else no) body
      errors r Q r' := by
  intro p hp
  by_cases hmem : (body.headD e).kind ∈ kinds
  · obtain ⟨t, rest, rfl⟩ := hp.exists_cons fun heof => hkinds (heof ▸ hmem)
    refine Follows.of_move (fun p hp => ?_) (hyes t rest rfl hmem) p hp
    rw [runAt_bind_ok (hp.runAt_accept errors hkinds hmem)]
    exact runAt_bind_ok (hp.runAt_previous errors) yes
  · refine Follows.of_stay (fun p hp => ?_) (hno hmem) p hp
    rw [runAt_bind_ok (hp.runAt_accept_of_not_mem errors hkinds hmem)]
    rfl

/-- A token that has to come: it is taken, or it is an error of reading too. -/
theorem Follows.consume {kind : Kind} {cause : GrammarCause} {k : Token → Descent α}
    (hkind : kind ≠ .eof)
    (hfail : (body.headD e).kind ≠ kind →
      r.step (body.headD e) = ⟨[], .skipping (body.headD e), program,
        errors ++ [⟨cause, (body.headD e).line⟩]⟩)
    (hnext : ∀ t rest, body = t :: rest → t.kind = kind →
      Follows ts e program (k t) rest errors (r.step t) (fun us => Q (t :: us)) r') :
    Follows ts e program (Descent.consume ts kind cause >>= k) body errors r Q r' := by
  intro p hp
  by_cases hhead : (body.headD e).kind = kind
  · obtain ⟨t, rest, rfl⟩ := hp.exists_cons fun heof => hkind (hhead ▸ heof)
    refine Follows.of_move (fun p hp => ?_) (hnext t rest rfl hhead) p hp
    exact runAt_bind_ok (hp.runAt_consume errors hkind hhead cause) k
  · exact ⟨[], body, errors, rfl, .inr ⟨_,
      runAt_bind_error (hp.runAt_consume_of_ne errors hkind hhead cause) k, hfail hhead⟩⟩

/-- A report is an error that the procedure has and reading need not have yet. -/
theorem Follows.report {error : GrammarError} {k : Unit → Descent α}
    (h : Follows ts e program (k ()) body (errors ++ [error]) r Q r') :
    Follows ts e program (Descent.report error >>= k) body errors r Q r' := by
  intro p hp
  have hreport : (Descent.report error).runAt ⟨p, errors⟩ = some (.ok (), ⟨p, errors ++ [error]⟩) :=
    rfl
  rw [runAt_bind_ok hreport]
  exact h p hp

/-- An error at the token to come, which is one of reading too. -/
theorem Follows.raise {cause : GrammarCause}
    (hfail : r.step (body.headD e) = ⟨[], .skipping (body.headD e), program,
      errors ++ [⟨cause, (body.headD e).line⟩]⟩) :
    Follows ts e program (do Descent.raise cause (← peek ts)) body errors r Q r' := by
  intro p hp
  refine ⟨[], body, errors, rfl, .inr ⟨⟨cause, (body.headD e).line⟩, ?_, hfail⟩⟩
  rw [runAt_bind_ok (hp.runAt_peek errors)]
  rfl

end Follows

section Expressions

variable {outer : List Outer} {pending : List Pending} {place : Place}

/-- The reading where an operand has to come. -/
def operandReading (outer : List Outer) (pending : List Pending) (place : Place)
    (program : List Stmt) (errors : List GrammarError) : Reading :=
  ⟨outer, .expecting (.operand pending place), program, errors⟩

/-- The reading after an operand. -/
def operatorReading (outer : List Outer) (pending : List Pending) (place : Place)
    (program : List Stmt) (v : Expr) (errors : List GrammarError) : Reading :=
  ⟨outer, .expecting (.operator v pending place), program, errors⟩

/-- A token that cannot go on with an expression of a category. -/
def Ended (c : Category) (t : Token) : Prop :=
  if c.rank = 0 then t.kind.level = 0 ∧ t.kind ≠ .sign .equal else t.kind.level < c.rank

/-- At the end of an expression two operands are taken alike if they become the same whole, up to
errors that one of them has reported already. -/
theorem step_operator_close {v v' : Expr} {pending' : List Pending}
    {errors extra : List GrammarError} {t : Token} (ht : Ended .assignment t)
    (hclose : close v pending = withErrors extra (close v' pending')) :
    (operatorReading outer pending place program v errors).step t =
      (operatorReading outer pending' place program v' (errors ++ extra)).step t := by
  obtain ⟨hlevel, hequal⟩ : t.kind.level = 0 ∧ t.kind ≠ .sign .equal := ht
  generalize hwhole : close v' pending' = closed at hclose
  obtain ⟨whole, rest, faults⟩ := closed
  simp only [operatorReading, step, shift, shiftOperator, hlevel, Nat.lt_irrefl, if_false,
    if_neg hequal, hclose, hwhole, withErrors, List.append_assoc]
  cases rest with
  | nil => exact shiftEnd_mode _ _ _ _
  | cons => split <;> rfl

/-- Two operands are taken alike if the next token joins them in the same way. -/
theorem step_operator_join {v v' : Expr} {pending' : List Pending} {errors : List GrammarError}
    {t : Token} (hreduce : ∀ l, l ≤ t.kind.level → reduce l v pending = reduce l v' pending')
    (hclose : close v pending = close v' pending') :
    (operatorReading outer pending place program v errors).step t =
      (operatorReading outer pending' place program v' errors).step t := by
  by_cases hlevel : 0 < t.kind.level
  · simp only [operatorReading, step, shift, shiftOperator, if_pos hlevel,
      hreduce _ (Nat.le_refl _), expect]
  · by_cases hequal : t.kind = .sign .equal
    · simp only [operatorReading, step, shift, shiftOperator, if_neg hlevel, if_pos hequal,
        hreduce 0 (Nat.zero_le _), expect]
    · have hended : Ended .assignment t := ⟨by omega, hequal⟩
      have hclose' : close v pending = withErrors [] (close v' pending') := hclose
      rw [step_operator_close hended hclose', List.append_nil]

/-- At the end of an expression in parentheses the closing one has to come. -/
theorem step_operator_group {v : Expr} {errors : List GrammarError} {t : Token}
    (ht : Ended .assignment t) :
    (operatorReading outer (.group :: pending) place program v errors).step t =
      if t.kind = .sign .rightParen then
        operatorReading outer pending place program (.grouping v) errors
      else
        ⟨[], .skipping t, program, errors ++ [⟨.parenAfterExpression, t.line⟩]⟩ := by
  obtain ⟨hlevel, hequal⟩ : t.kind.level = 0 ∧ t.kind ≠ .sign .equal := ht
  simp only [operatorReading, step, shift, shiftOperator, hlevel, Nat.lt_irrefl, if_false,
    if_neg hequal, close, List.append_nil, expect, fail]

/-- What is known of the procedure for a category when at most so many tokens are left. -/
def ExpressionFollows (ts : List Token) (e : Token) (c : Category) (n : Nat) : Prop :=
  ∀ (outer : List Outer) (pending : List Pending) (place : Place) (program : List Stmt)
    (body : List Token) (errors : List GrammarError), body.length ≤ n →
    (c.rank ≤ 6 → Loose c.rank pending) →
    Follows ts e program (expression ts c) body errors
      (operandReading outer pending place program errors) (fun us t => us ≠ [] ∧ Ended c t)
      (operatorReading outer pending place program)

/-- There are six levels. -/
theorem level_le (k : Kind) : k.level ≤ 6 := by
  unfold Kind.level
  split <;> decide

/-- Nothing goes on with an operand, unless an operator has it. -/
theorem ended_of_six_lt {c : Category} (h : 6 < c.rank) (t : Token) : Ended c t := by
  have hlevel := level_le t.kind
  rw [Ended, if_neg (by omega)]
  omega

/-- A token where no operand can start is an error. -/
theorem shiftOperand_of_not_mem {r : Reading} {t : Token} (ht : t.kind ∉ operandKinds) :
    r.shiftOperand pending place t = r.fail t .expectExpression := by
  unfold shiftOperand
  split
  case h_10 => rfl
  all_goals
    next hkind =>
      rw [hkind] at ht
      exact absurd (by decide) ht

/-- An operand without an operator in front keeps pace. -/
theorem primary_follows {n : Nat} (hrec : ∀ k < n, ExpressionFollows ts e .assignment k)
    {body : List Token} (hbody : body.length ≤ n)
    (hunary : (body.headD e).kind ∉ [Kind.sign .bang, .sign .minus])
    (errors : List GrammarError) :
    Follows ts e program (expression ts .primary) body errors
      (operandReading outer pending place program errors) (fun us t => us ≠ [] ∧ Ended .primary t)
      (operatorReading outer pending place program) := by
  have hended (t : Token) : Ended .primary t := ended_of_six_lt (by decide) t
  have hresult {t : Token} {v : Expr} {rest : List Token}
      (hstep : (operandReading outer pending place program errors).step t =
        operatorReading outer pending place program v errors) :
      Follows ts e program (pure v : Descent Expr) rest errors
        ((operandReading outer pending place program errors).step t)
        (fun us t' => t :: us ≠ [] ∧ Ended .primary t')
        (operatorReading outer pending place program) :=
    .result ⟨List.cons_ne_nil _ _, hended _⟩ hstep
  rw [expression.eq_def]
  simp only [bind_pure]
  refine .acceptToken (by decide) (fun t rest hb ht => hresult ?_) fun hliteral => ?_
  · simp only [List.mem_cons, List.not_mem_nil, or_false] at ht
    rcases ht with ht | ht <;>
      simp only [operandReading, operatorReading, step, shift, shiftOperand, ht, expect]
  refine .accept (by decide) (fun t rest hb ht => hresult ?_) fun hfalse => ?_
  · rw [List.mem_singleton] at ht
    simp only [operandReading, operatorReading, step, shift, shiftOperand, ht, expect]
  refine .accept (by decide) (fun t rest hb ht => hresult ?_) fun htrue => ?_
  · rw [List.mem_singleton] at ht
    simp only [operandReading, operatorReading, step, shift, shiftOperand, ht, expect]
  refine .accept (by decide) (fun t rest hb ht => hresult ?_) fun hnil => ?_
  · rw [List.mem_singleton] at ht
    simp only [operandReading, operatorReading, step, shift, shiftOperand, ht, expect]
  refine .acceptToken (by decide) (fun t rest hb ht => hresult ?_) fun hname => ?_
  · rw [List.mem_singleton] at ht
    simp only [operandReading, operatorReading, step, shift, shiftOperand, ht, expect]
  refine .accept (by decide) (fun t rest hb ht => ?_) fun hparen => .raise ?_
  · have hstep : (operandReading outer pending place program errors).step t =
        operandReading outer (.group :: pending) place program errors := by
      rw [List.mem_singleton] at ht
      simp only [operandReading, step, shift, shiftOperand, ht, expect]
    have hlt : rest.length < n := by
      rw [hb, List.length_cons] at hbody
      omega
    have hinner := hrec rest.length hlt outer (.group :: pending) place program rest errors
      (Nat.le_refl _) fun _ => trivial
    rw [hstep]
    refine .bind hinner fun us rest' inner errors' _ hus => ?_
    refine .consume (by decide) (fun hne => ?_) fun r rest'' hb' hr => ?_
    · rw [step_operator_group hus.2, if_neg hne]
    · subst hb'
      have hend : Ended .assignment r := hus.2
      refine .result ⟨List.cons_ne_nil _ _, hended _⟩ ?_
      rw [step_operator_group hend, if_pos hr]
  · have hnone : (body.headD e).kind ∉ operandKinds := by
      simp only [operandKinds, List.mem_cons, List.not_mem_nil, or_false, not_or] at *
      simp only [hliteral, hfalse, htrue, hnil, hname, hparen, hunary, not_false_eq_true, and_self]
    exact shiftOperand_of_not_mem hnone

/-- An operand with operators in front keeps pace. -/
theorem unary_follows {n : Nat} (hrec : ∀ k < n, ExpressionFollows ts e .unary k)
    (hgroup : ∀ k < n, ExpressionFollows ts e .assignment k) :
    ExpressionFollows ts e .unary n := by
  intro outer pending place program body errors hbody _
  have hended (t : Token) : Ended .unary t := ended_of_six_lt (by decide) t
  rw [expression.eq_def]
  simp only [bind_pure]
  refine .acceptToken (by decide) (fun op rest hb hop => ?_) fun hunary => ?_
  · have hstep : (operandReading outer pending place program errors).step op =
        operandReading outer (.unary op :: pending) place program errors := by
      simp only [List.mem_cons, List.not_mem_nil, or_false] at hop
      rcases hop with hop | hop <;>
        simp only [operandReading, step, shift, shiftOperand, hop, expect]
    have hlt : rest.length < n := by
      rw [hb, List.length_cons] at hbody
      omega
    have hright := hrec rest.length hlt outer (.unary op :: pending) place program rest errors
      (Nat.le_refl _) fun hrank => absurd hrank (by decide)
    rw [hstep]
    refine .bind hright fun us rest' right errors' _ _ => ?_
    exact .pure ⟨List.cons_ne_nil _ _, hended _⟩ (step_operator_join (fun _ _ => rfl) rfl)
  · exact (primary_follows hgroup hbody hunary errors).imp (fun us t hus => ⟨hus.1, hended t⟩)
      fun _ _ _ _ _ => rfl

/-- The operators of a category are those of its rank. -/
theorem mem_operators_of_level {c : Category} {k : Kind} (hpos : 0 < c.rank) (hle : c.rank ≤ 6)
    (h : k.level = c.rank) : k ∈ c.operators := by
  unfold Kind.level at h
  cases c
  all_goals
    simp only [Category.rank] at h hpos hle
    split at h
  all_goals
    first
    | decide
    | omega

/-- Whatever cannot go on with a tighter expression either is an operator of the category or
cannot go on with its expressions. -/
theorem Ended.of_tighter {c : Category} {t : Token} (hpos : 0 < c.rank) (hle : c.rank ≤ 6)
    (h : Ended c.tighter t) (ht : t.kind ∉ c.operators) : Ended c t := by
  have htighter := c.rank_tighter
  have hlevel : t.kind.level ≠ c.rank := fun heq => ht (mem_operators_of_level hpos hle heq)
  rw [Ended, if_neg (by omega)] at h ⊢
  omega

/-- Further operators of a category keep pace: the operand so far is a left operand, and what
waits binds less tightly. -/
theorem operations_follows {c : Category} {n : Nat} (hpos : 0 < c.rank) (hle : c.rank ≤ 6)
    (hright : ∀ k < n, ExpressionFollows ts e c.tighter k) (hloose : Loose c.rank pending)
    {body : List Token} (hbody : body.length ≤ n) (hended : Ended c.tighter (body.headD e))
    (left : Expr) (errors : List GrammarError) :
    Follows ts e program (operations ts c left) body errors
      (operatorReading outer pending place program left errors) (fun _ t => Ended c t)
      (operatorReading outer pending place program) := by
  have htighter := c.rank_tighter
  have hkinds : Kind.eof ∉ c.operators := by cases c <;> decide
  induction n using Nat.strongRecOn generalizing body left errors with
  | ind n ih =>
    rw [operations.eq_def]
    simp only [bind_pure]
    refine .acceptToken hkinds (fun op rest hb hop => ?_) fun hnone =>
      .result (hended.of_tighter hpos hle hnone) rfl
    have hlevel := Category.level_of_mem hop
    have hstep : (operatorReading outer pending place program left errors).step op =
        operandReading outer (.binary left op :: pending) place program errors := by
      simp only [operatorReading, operandReading, step, shift, shiftOperator, hlevel, if_pos hpos,
        reduce_of_loose hloose, expect]
    have hlt : rest.length < n := by
      rw [hb, List.length_cons] at hbody
      omega
    have hwaits : Loose c.tighter.rank (.binary left op :: pending) := by
      simp only [Loose, hlevel]
      omega
    rw [hstep]
    refine .bind (hright rest.length hlt outer _ place program rest errors (Nat.le_refl _)
      fun _ => hwaits) fun us rest' right errors' hrest hus => ?_
    have hlt' : rest'.length < n := by
      rw [hrest, List.length_append] at hlt
      omega
    have hnext := ih rest'.length hlt' (fun k hk => hright k (by omega)) (Nat.le_refl _) hus.2
      (c.node left op right) errors'
    refine .of_agree (step_operator_join (fun l hl => ?_) ?_) hnext
    · have hend := hus.2
      rw [Ended, if_neg (by omega)] at hend
      rw [reduce, if_pos (by omega), Category.node_eq_infixNode hop]
    · rw [close, Category.node_eq_infixNode hop]

/-- The procedure for a category with operators between operands. -/
theorem expression_of_rank {c : Category} (hpos : 0 < c.rank) (hle : c.rank ≤ 6) :
    expression ts c = (do operations ts c (← expression ts c.tighter)) := by
  rw [expression.eq_def]
  simp only [bind_pure]
  cases c
  case assignment => exact absurd hpos (by decide)
  case unary | primary => exact absurd hle (by decide)
  all_goals rfl

/-- Operators of a category between operands keep pace if the operands do. -/
theorem operation_follows {c : Category} {n : Nat} (hpos : 0 < c.rank) (hle : c.rank ≤ 6)
    (hoperand : ∀ k ≤ n, ExpressionFollows ts e c.tighter k) : ExpressionFollows ts e c n := by
  intro outer pending place program body errors hbody hloose
  have htighter := c.rank_tighter
  have hleft := hoperand n (Nat.le_refl _) outer pending place program body errors hbody
    fun _ => (hloose hle).mono (by omega)
  rw [expression_of_rank hpos hle]
  refine .bind hleft fun us rest left errors' hrest hus => ?_
  have hlength : rest.length ≤ n := by
    rw [hrest, List.length_append] at hbody
    omega
  refine (operations_follows hpos hle (fun k hk => hoperand k (by omega)) (hloose hle) hlength
    hus.2 left errors').imp (fun vs t ht => ⟨?_, ht⟩) fun _ _ _ _ _ => rfl
  exact List.append_ne_nil_of_left_ne_nil hus.1 vs

/-- Assignments keep pace. -/
theorem assignment_follows {n : Nat} (htarget : ExpressionFollows ts e .logicOr n)
    (hvalue : ∀ k < n, ExpressionFollows ts e .assignment k) :
    ExpressionFollows ts e .assignment n := by
  intro outer pending place program body errors hbody hloose
  have hloose' : Loose 0 pending := hloose (by decide)
  rw [expression.eq_def]
  simp only [bind_pure]
  refine .bind (htarget outer pending place program body errors hbody fun _ =>
    hloose'.mono (Nat.zero_le _)) fun us rest target errors' hrest hus => ?_
  have hlevel : (rest.headD e).kind.level = 0 := by
    have hend := hus.2
    simp only [Ended, Category.rank, Nat.one_ne_zero, if_false] at hend
    omega
  refine .acceptToken (by decide) (fun eq rest' hb heq => ?_) fun hnone => ?_
  · rw [List.mem_singleton] at heq
    have hstep : (operatorReading outer pending place program target errors').step eq =
        operandReading outer (.assign target eq :: pending) place program errors' := by
      simp only [operatorReading, operandReading, step, shift, shiftOperator, heq, Kind.level,
        Nat.lt_irrefl, if_false, if_true, reduce_of_loose hloose', expect]
    have hlt : rest'.length < n := by
      rw [hrest, hb, List.length_append, List.length_cons] at hbody
      omega
    rw [hstep]
    refine .bind (hvalue rest'.length hlt outer _ place program rest' errors' (Nat.le_refl _)
      fun _ => trivial) fun vs rest'' value errors'' _ hvs => ?_
    have hne : us ++ (eq :: vs ++ []) ≠ [] := List.append_ne_nil_of_left_ne_nil hus.1 _
    split
    · next n =>
      have hclose : close value (.assign (.name n) eq :: pending) =
          withErrors [] (close (.assign n value) pending) := rfl
      refine .pure ⟨hne, hvs.2⟩ ?_
      rw [step_operator_close hvs.2 hclose, List.append_nil]
    · next hn =>
      refine .report (.pure ⟨hne, hvs.2⟩ ?_)
      exact step_operator_close hvs.2 (close_misassign hn value eq pending)
  · have hequal : (rest.headD e).kind ≠ .sign .equal :=
      fun heq => hnone (List.mem_singleton.mpr heq)
    exact .result ⟨List.append_ne_nil_of_left_ne_nil hus.1 _, hlevel, hequal⟩ rfl

/-- Every category of expressions but the last keeps pace: the tokens left decrease from an
operator to its right operand and from a parenthesis to what it holds, and with the same tokens
left a procedure calls one for a tighter category. -/
theorem expression_follows (n : Nat) {c : Category} (hc : c ≠ .primary) :
    ExpressionFollows ts e c n := by
  induction n using Nat.strongRecOn generalizing c with
  | ind n ih =>
    have hassignment (k : Nat) (hk : k < n) : ExpressionFollows ts e .assignment k :=
      ih k hk (by decide)
    have hunary : ExpressionFollows ts e .unary n :=
      unary_follows (fun k hk => ih k hk (by decide)) hassignment
    have hstep {c : Category} (hpos : 0 < c.rank) (hle : c.rank ≤ 6)
        (htighter : ExpressionFollows ts e c.tighter n) : ExpressionFollows ts e c n := by
      have hrank := c.rank_tighter
      have hne : c.tighter ≠ .primary := by
        intro heq
        rw [heq, Category.rank] at hrank
        omega
      refine operation_follows hpos hle fun k hk => ?_
      rcases Nat.lt_or_eq_of_le hk with hlt | rfl
      · exact ih k hlt hne
      · exact htighter
    have hfactor : ExpressionFollows ts e .factor n := hstep (by decide) (by decide) hunary
    have hterm : ExpressionFollows ts e .term n := hstep (by decide) (by decide) hfactor
    have hcomparison : ExpressionFollows ts e .comparison n := hstep (by decide) (by decide) hterm
    have hequality : ExpressionFollows ts e .equality n := hstep (by decide) (by decide) hcomparison
    have hand : ExpressionFollows ts e .logicAnd n := hstep (by decide) (by decide) hequality
    have hor : ExpressionFollows ts e .logicOr n := hstep (by decide) (by decide) hand
    cases c with
    | assignment => exact assignment_follows hor hassignment
    | primary => exact absurd rfl hc
    | logicOr | logicAnd | equality | comparison | term | factor | unary => assumption

/-- A whole expression keeps pace. -/
theorem whole_follows (outer : List Outer) (place : Place) (program : List Stmt)
    (body : List Token) (errors : List GrammarError) :
    Follows ts e program (expression ts .assignment) body errors
      (operandReading outer [] place program errors)
      (fun us t => us ≠ [] ∧ Ended .assignment t) (operatorReading outer [] place program) :=
  expression_follows body.length (by decide) outer [] place program body errors (Nat.le_refl _)
    fun _ => trivial

end Expressions

end Lox.Descent
