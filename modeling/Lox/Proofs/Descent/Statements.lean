import Lox.Proofs.Descent.Simulation

/-!
# Statements and programs by descent

The procedures for statements keep pace with reading, each from where reading expects a statement
to where it has one complete. The outermost procedure drops a declaration with an error and moves
on just as reading does, so that in the end both have the same statements and the same errors.
-/

namespace Lox.Descent

open Grammar Procedure Reading

variable {ts : List Token} {e : Token} {program : List Stmt} {outer : List Outer}

/-- The reading after a complete statement. -/
def completeReading (outer : List Outer) (program : List Stmt) (s : Stmt)
    (errors : List GrammarError) : Reading :=
  ⟨outer, .complete s, program, errors⟩

/-- The reading where something definite has to come. -/
def goalReading (goal : Goal) (outer : List Outer) (program : List Stmt)
    (errors : List GrammarError) : Reading :=
  ⟨outer, .expecting goal, program, errors⟩

section Clauses

variable {α : Type} {Q : List Token → Token → Prop} {r' : α → List GrammarError → Reading}

/-- A whole expression and the token that has to follow it keep pace. -/
theorem Follows.closing {place : Place} {kind : Kind} {cause : GrammarCause}
    {k : Expr → Descent α} {next : Expr → Reading → Reading} (hkind : kind ≠ .eof)
    (hplace : ∀ (r : Reading) v t,
      r.shiftEnd v place t = if t.kind = kind then next v r else r.fail t cause)
    {body : List Token} {errors : List GrammarError}
    (hk : ∀ us rest v errors', body = us ++ rest → us ≠ [] →
      Follows ts e program (k v) rest errors'
        (next v (operatorReading outer [] place program v errors')) (fun vs => Q (us ++ vs)) r') :
    Follows ts e program
      (do
        let v ← expression ts .assignment
        let _ ← Descent.consume ts kind cause
        k v)
      body errors (operandReading outer [] place program errors) Q r' := by
  have hstep (v : Expr) (errors' : List GrammarError) (t : Token) (ht : Ended .assignment t) :
      (operatorReading outer [] place program v errors').step t =
        if t.kind = kind then next v (operatorReading outer [] place program v errors')
        else (operatorReading outer [] place program v errors').fail t cause := by
    obtain ⟨hlevel, hequal⟩ : t.kind.level = 0 ∧ t.kind ≠ .sign .equal := ht
    rw [← hplace]
    simp only [operatorReading, step, shift, shiftOperator, hlevel, Nat.lt_irrefl, if_false,
      if_neg hequal, close, List.append_nil]
  refine .bind (whole_follows outer place program body errors) fun us rest v errors' hb hus => ?_
  refine .consume hkind (fun hne => ?_) fun t rest' hb' ht => ?_
  · rw [hstep v errors' _ hus.2, if_neg hne]
    rfl
  · subst hb'
    have hend : Ended .assignment t := hus.2
    rw [hstep v errors' t hend, if_pos ht]
    have hbody : body = us ++ [t] ++ rest' := by
      rw [hb, List.append_assoc, List.singleton_append]
    have hnext := hk (us ++ [t]) rest' v errors' hbody
      (List.append_ne_nil_of_left_ne_nil hus.1 _)
    simpa only [List.append_assoc, List.singleton_append] using hnext

/-- An expression that may be left out, and the token that has to follow, keep pace. -/
theorem Follows.optional (place : Place) (next : Option Expr → Reading → Reading) {kind : Kind}
    {cause : GrammarCause} {k : Option Expr → Descent α} {goal : Goal} (hkind : kind ≠ .eof)
    (hplace : ∀ (r : Reading) v t,
      r.shiftEnd v place t = if t.kind = kind then next (some v) r else r.fail t cause)
    (hgoal : ∀ (r : Reading) t,
      r.shift goal t = if t.kind = kind then next none r else r.shiftOperand [] place t)
    {body : List Token} {errors : List GrammarError}
    (hk : ∀ us rest o mode errors', body = us ++ rest → us ≠ [] →
      Follows ts e program (k o) rest errors' (next o ⟨outer, mode, program, errors'⟩)
        (fun vs => Q (us ++ vs)) r') :
    Follows ts e program
      (do
        let o ← expressionUnless ts kind
        let _ ← Descent.consume ts kind cause
        k o)
      body errors (goalReading goal outer program errors) Q r' := by
  by_cases hhead : (body.headD e).kind = kind
  · have hconsume : Follows ts e program
        (do
          let _ ← Descent.consume ts kind cause
          k none)
        body errors (goalReading goal outer program errors) Q r' := by
      refine .consume hkind (fun hne => absurd hhead hne) fun t rest hb ht => ?_
      have hstep : (goalReading goal outer program errors).step t =
          next none (goalReading goal outer program errors) := by
        simp only [goalReading, step, hgoal, if_pos ht]
      rw [hstep]
      exact hk [t] rest none _ errors hb (List.cons_ne_nil _ _)
    refine .of_stay (fun p hp => ?_) hconsume
    have hnone : (expressionUnless ts kind).runAt ⟨p, errors⟩ = some (.ok none, ⟨p, errors⟩) := by
      rw [expressionUnless, runAt_bind_ok (hp.runAt_check errors hkind), decide_eq_true hhead]
      rfl
    exact runAt_bind_ok hnone _
  · have hclosing : Follows ts e program
        (do
          let v ← expression ts .assignment
          let _ ← Descent.consume ts kind cause
          k (some v))
        body errors (operandReading outer [] place program errors) Q r' :=
      .closing hkind hplace fun us rest v errors' hb hus => hk us rest (some v) _ errors' hb hus
    refine .of_stay (fun p hp => ?_) (.of_agree ?_ hclosing)
    · rw [expressionUnless, bind_assoc, runAt_bind_ok (hp.runAt_check errors hkind),
        decide_eq_false hhead]
      simp only [Bool.false_eq_true, if_false, bind_assoc, pure_bind]
    · simp only [goalReading, operandReading, step, hgoal, if_neg hhead]
      exact shiftOperand_mode _ _ _ _

end Clauses

/-- The declaration of a variable keeps pace from its name on. -/
theorem varDeclaration_follows (outer : List Outer) (program : List Stmt) (body : List Token)
    (errors : List GrammarError) :
    Follows ts e program (varDeclaration ts) body errors
      (goalReading .varName outer program errors) (fun us _ => us ≠ [])
      (completeReading outer program) := by
  rw [varDeclaration]
  refine .consume (by decide) (fun hne => ?_) fun n rest _ hn => ?_
  · simp only [goalReading, step, shift, if_neg hne, fail]
  have hname : (goalReading .varName outer program errors).step n =
      goalReading (.varEnd n) outer program errors := by
    simp only [goalReading, step, shift, if_pos hn, expect]
  rw [hname]
  refine .accept (by decide) (fun eq rest' _ heq => ?_) fun hnone => ?_
  · have hequal : (goalReading (.varEnd n) outer program errors).step eq =
        operandReading outer [] (.initializer n) program errors := by
      rw [List.mem_singleton] at heq
      simp only [goalReading, operandReading, step, shift, heq, expect]
    rw [hequal]
    exact .closing (by decide) (fun _ _ _ => rfl) fun _ _ _ _ _ _ =>
      .result (List.cons_ne_nil _ _) rfl
  · refine .consume (by decide) (fun hne => ?_) fun semi rest' _ hs =>
      .result (List.cons_ne_nil _ _) ?_
    · rw [List.mem_singleton] at hnone
      simp only [goalReading, step, shift, fail]
    · simp only [goalReading, completeReading, step, shift, hs, finish]

/-- An expression as a statement keeps pace. -/
theorem expressionStatement_follows (outer : List Outer) (program : List Stmt)
    (body : List Token) (errors : List GrammarError) :
    Follows ts e program (expressionStatement ts) body errors
      (operandReading outer [] .statement program errors) (fun us _ => us ≠ [])
      (completeReading outer program) := by
  rw [expressionStatement]
  refine .closing (by decide) (fun _ _ _ => rfl) fun us _ _ _ _ hus => .result ?_ rfl
  exact List.append_ne_nil_of_left_ne_nil hus _

/-- The first clause of a `for` keeps pace. -/
theorem firstClause_follows (k : Token) (outer : List Outer) (program : List Stmt)
    (body : List Token) (errors : List GrammarError) :
    Follows ts e program (firstClause ts) body errors
      (goalReading (.forInit k) outer program errors) (fun _ _ => True)
      (fun init => goalReading (.forCondition k init) outer program) := by
  rw [firstClause]
  refine .accept (by decide) (fun semi rest _ hs => ?_) fun hsemi => ?_
  · refine .result trivial ?_
    rw [List.mem_singleton] at hs
    simp only [goalReading, step, shift, hs, expect]
  refine .accept (by decide) (fun var rest _ hvar => ?_) fun hvar => ?_
  · have hopen : (goalReading (.forInit k) outer program errors).step var =
        goalReading .varName (.forInit k :: outer) program errors := by
      rw [List.mem_singleton] at hvar
      simp only [goalReading, step, shift, hvar, enter]
    rw [hopen]
    refine .bind (varDeclaration_follows (.forInit k :: outer) program rest errors)
      fun us rest' s errors' _ _ => .pure trivial ?_
    exact step_complete_forInit outer program errors' k _ s
  · have hopen : (goalReading (.forInit k) outer program errors).step (body.headD e) =
        (operandReading (.forInit k :: outer) [] .statement program errors).step
          (body.headD e) := by
      rw [List.mem_singleton] at hsemi hvar
      simp only [goalReading, operandReading, step, shift]
      exact shiftOperand_mode _ _ _ _
    refine .of_agree hopen (.bind (expressionStatement_follows (.forInit k :: outer) program body
      errors) fun us rest s errors' _ _ => .pure trivial ?_)
    exact step_complete_forInit outer program errors' k _ s

/-- Where a statement goes to does not depend on the mode, and neither does what the next token
does there. -/
theorem shift_conclude_mode {o o' : List Outer} {mode mode' : Mode} {errors : List GrammarError}
    (s : Stmt) (outer : List Outer) (t : Token) :
    (conclude ⟨o, mode, program, errors⟩ s outer).1.shift
        (conclude ⟨o, mode, program, errors⟩ s outer).2 t =
      (conclude ⟨o', mode', program, errors⟩ s outer).1.shift
        (conclude ⟨o', mode', program, errors⟩ s outer).2 t := by
  induction outer generalizing s with
  | nil => exact shiftDeclaration_mode _ _
  | cons construct outer ih =>
    cases construct with
    | block => exact shiftDeclaration_mode _ _
    | thenBranch | elseBranch | whileBody | forBody => exact ih _
    | forInit k =>
      simp only [conclude, shift]
      split
      · rfl
      · exact shiftOperand_mode _ _ _ _

/-- Two complete statements are taken alike if they go to the same place and an `else` would
belong to the same conditional. -/
theorem step_complete_congr {s s' : Stmt} {outer outer' : List Outer} {errors : List GrammarError}
    {t : Token} (hattach : t.kind = .word .else_ → attachElse? s outer = attachElse? s' outer')
    (hconclude : ∀ r : Reading, r.conclude s outer = r.conclude s' outer') :
    (completeReading outer program s errors).step t =
      (completeReading outer' program s' errors).step t := by
  simp only [completeReading, step, hconclude]
  by_cases helse : t.kind = .word .else_
  · simp only [if_pos helse, hattach helse]
    split
    · rfl
    · exact shift_conclude_mode s' outer' t
  · simp only [if_neg helse]
    exact shift_conclude_mode s' outer' t

/-- What is known of the procedure for statements when at most so many tokens are left. -/
def StatementFollows (ts : List Token) (e : Token) (n : Nat) : Prop :=
  ∀ (outer : List Outer) (program : List Stmt) (body : List Token) (errors : List GrammarError),
    body.length ≤ n →
    Follows ts e program (statement ts) body errors (goalReading .statement outer program errors)
      (fun us _ => us ≠ []) (completeReading outer program)

section Constructs

variable {n : Nat} (hrec : ∀ k < n, StatementFollows ts e k) {k : Token} {body : List Token}
  (hbody : body.length < n) (errors : List GrammarError)

include hrec hbody

/-- A conditional keeps pace if its branches do. After the first branch an `else` belongs to it;
without one it is complete. -/
theorem ifStatement_follows (hk : k.kind = .word .if_) :
    Follows ts e program (ifStatement ts k) body errors
      ((goalReading .statement outer program errors).step k) (fun us _ => k :: us ≠ [])
      (completeReading outer program) := by
  have hne (us : List Token) : k :: us ≠ [] := List.cons_ne_nil _ _
  have hword : (goalReading .statement outer program errors).step k =
      goalReading (.ifParen k) outer program errors := by
    simp only [goalReading, step, shift, shiftStatement, hk, expect]
  rw [hword, ifStatement.eq_def]
  simp only [bind_pure]
  refine .consume (by decide) (fun hne => ?_) fun l rest hb hl => ?_
  · simp only [goalReading, step, shift, if_neg hne, fail]
  have hparen : (goalReading (.ifParen k) outer program errors).step l =
      operandReading outer [] (.ifCondition k) program errors := by
    simp only [goalReading, operandReading, step, shift, if_pos hl, expect]
  rw [hparen]
  refine .closing (by decide) (fun _ _ _ => rfl) fun us rest' c errors' hb' _ => ?_
  have hlength : rest'.length < n := by
    rw [hb, hb', List.length_cons, List.length_append] at hbody
    omega
  refine .bind (hrec rest'.length hlength (.thenBranch k c :: outer) program rest' errors'
    (Nat.le_refl _)) fun vs rest'' s errors'' hb'' _ => ?_
  refine .accept (by decide) (fun el rest₃ hb₃ hel => ?_) fun hnone => ?_
  · have helse : (completeReading (.thenBranch k c :: outer) program s errors'').step el =
        goalReading .statement (.elseBranch k c s :: outer) program errors'' := by
      rw [List.mem_singleton] at hel
      simp only [completeReading, goalReading, step, hel, if_true, attachElse?]
    have hlength' : rest₃.length < n := by
      rw [hb'', hb₃, List.length_append, List.length_cons] at hlength
      omega
    rw [helse]
    refine .bind (hrec rest₃.length hlength' (.elseBranch k c s :: outer) program rest₃ errors''
      (Nat.le_refl _)) fun _ _ s' _ _ _ => .pure (hne _) ?_
    exact step_complete_congr (fun _ => rfl) fun _ => rfl
  · rw [List.mem_singleton] at hnone
    exact .pure (hne _) (step_complete_congr (fun helse => absurd helse hnone) fun _ => rfl)

/-- A loop keeps pace if its body does. -/
theorem whileStatement_follows (hk : k.kind = .word .while_) :
    Follows ts e program (whileStatement ts k) body errors
      ((goalReading .statement outer program errors).step k) (fun us _ => k :: us ≠ [])
      (completeReading outer program) := by
  have hword : (goalReading .statement outer program errors).step k =
      goalReading (.whileParen k) outer program errors := by
    simp only [goalReading, step, shift, shiftStatement, hk, expect]
  rw [hword, whileStatement.eq_def]
  simp only [bind_pure]
  refine .consume (by decide) (fun hne => ?_) fun l rest hb hl => ?_
  · simp only [goalReading, step, shift, if_neg hne, fail]
  have hparen : (goalReading (.whileParen k) outer program errors).step l =
      operandReading outer [] (.whileCondition k) program errors := by
    simp only [goalReading, operandReading, step, shift, if_pos hl, expect]
  rw [hparen]
  refine .closing (by decide) (fun _ _ _ => rfl) fun us rest' c errors' hb' _ => ?_
  have hlength : rest'.length < n := by
    rw [hb, hb', List.length_cons, List.length_append] at hbody
    omega
  refine .bind (hrec rest'.length hlength (.whileBody k c :: outer) program rest' errors'
    (Nat.le_refl _)) fun _ _ s _ _ _ => .pure (List.cons_ne_nil _ _) ?_
  exact step_complete_congr (fun _ => rfl) fun _ => rfl

/-- A `for` keeps pace if its body does. -/
theorem forStatement_follows (hk : k.kind = .word .for_) :
    Follows ts e program (forStatement ts k) body errors
      ((goalReading .statement outer program errors).step k) (fun us _ => k :: us ≠ [])
      (completeReading outer program) := by
  have hword : (goalReading .statement outer program errors).step k =
      goalReading (.forParen k) outer program errors := by
    simp only [goalReading, step, shift, shiftStatement, hk, expect]
  rw [hword, forStatement.eq_def]
  simp only [bind_pure]
  refine .consume (by decide) (fun hne => ?_) fun l rest hb hl => ?_
  · simp only [goalReading, step, shift, if_neg hne, fail]
  have hparen : (goalReading (.forParen k) outer program errors).step l =
      goalReading (.forInit k) outer program errors := by
    simp only [goalReading, step, shift, if_pos hl, expect]
  rw [hparen]
  refine .bind (firstClause_follows k outer program rest errors)
    fun us rest₁ init errors₁ hb₁ _ => ?_
  refine .optional (.forCondition k init) (fun condition r => r.expect (.forStep k init condition))
    (by decide) (fun _ _ _ => rfl) (fun _ _ => rfl)
    fun us₂ rest₂ condition _ errors₂ hb₂ _ => ?_
  refine .optional (.forStep k init condition)
    (fun step r => r.enter (.forBody ⟨k, init, condition, step⟩) .statement) (by decide)
    (fun _ _ _ => rfl) (fun _ _ => rfl) fun us₃ rest₃ step _ errors₃ hb₃ _ => ?_
  have hlength : rest₃.length < n := by
    rw [hb, hb₁, hb₂, hb₃] at hbody
    simp only [List.length_cons, List.length_append] at hbody
    omega
  refine .bind (hrec rest₃.length hlength (.forBody ⟨k, init, condition, step⟩ :: outer) program
    rest₃ errors₃ (Nat.le_refl _)) fun _ _ s _ _ _ => .pure (List.cons_ne_nil _ _) ?_
  exact step_complete_congr (fun _ => rfl) fun _ => rfl

end Constructs

/-- Where a declaration may come, a token starts a statement unless it is `var`, a closing brace
of a block or the end token. -/
theorem step_declaration_of_ne {t : Token} {errors : List GrammarError} (hvar : t.kind ≠ .word .var)
    (heof : t.kind ≠ .eof) (hbrace : t.kind = .sign .rightBrace → outer = []) :
    (goalReading .declaration outer program errors).step t =
      (goalReading .statement outer program errors).step t := by
  have hmode : (goalReading .declaration outer program errors).shiftStatement t =
      (goalReading .statement outer program errors).shiftStatement t := shiftStatement_mode _ _
  simp only [step, goalReading, shift, shiftDeclaration] at hmode ⊢
  split
  · next hkind => exact absurd hkind hvar
  · next hkind => cases hbrace hkind
  · next hkind => exact absurd hkind heof
  · next hkind _ => exact absurd hkind heof
  · exact hmode

/-- A declaration keeps pace where one may come: not at the end, and at a closing brace only
outside of blocks. -/
theorem declaration_follows {body : List Token} (errors : List GrammarError)
    (hstatement : StatementFollows ts e body.length) (heof : (body.headD e).kind ≠ .eof)
    (hbrace : (body.headD e).kind = .sign .rightBrace → outer = []) :
    Follows ts e program (declaration ts) body errors
      (goalReading .declaration outer program errors) (fun us _ => us ≠ [])
      (completeReading outer program) := by
  rw [declaration.eq_def]
  simp only [bind_pure]
  refine .accept (by decide) (fun var rest _ hvar => ?_) fun hvar => ?_
  · have hopen : (goalReading .declaration outer program errors).step var =
        goalReading .varName outer program errors := by
      rw [List.mem_singleton] at hvar
      simp only [goalReading, step, shift, shiftDeclaration, hvar, expect]
    rw [hopen]
    exact (varDeclaration_follows outer program rest errors).imp
      (fun us _ _ => List.cons_ne_nil _ _) fun _ _ _ _ _ => rfl
  · rw [List.mem_singleton] at hvar
    exact .of_agree (step_declaration_of_ne hvar heof hbrace)
      (hstatement outer program body errors (Nat.le_refl _))

/-- The declarations of a block and its closing brace keep pace if statements do. -/
theorem block_follows {n : Nat} (hrec : ∀ k < n, StatementFollows ts e k) {body : List Token}
    (hbody : body.length < n) (here : List Stmt) (errors : List GrammarError) :
    Follows ts e program (block ts here) body errors
      (goalReading .declaration (.block here :: outer) program errors) (fun _ _ => True)
      (fun inner => completeReading outer program (.block inner)) := by
  induction n using Nat.strongRecOn generalizing body here errors with
  | ind n ih =>
    intro p hp
    rw [block.eq_def]
    simp only [bind_pure]
    by_cases hend : (body.headD e).kind = .sign .rightBrace ∨ body = []
    · have hconsume : Follows ts e program
          (do
            let _ ← consume ts (.sign .rightBrace) .braceAfterBlock
            return here)
          body errors (goalReading .declaration (.block here :: outer) program errors)
          (fun _ _ => True) (fun inner => completeReading outer program (.block inner)) := by
        refine .consume (by decide) (fun hne => ?_) fun t rest _ ht => .result trivial ?_
        · have heof := hp.eof_iff.mpr (hend.resolve_left hne)
          simp only [goalReading, step, shift, shiftDeclaration, heof, fail]
        · simp only [goalReading, completeReading, step, shift, shiftDeclaration, ht, finish]
      refine Follows.of_stay (fun p hp => ?_) hconsume p hp
      rw [runAt_bind_ok (hp.runAt_isAtBlockEnd errors), decide_eq_true hend]
      rfl
    · have hdeclaration : Follows ts e program
          (do
            let s ← declaration ts
            block ts (here ++ [s]))
          body errors (goalReading .declaration (.block here :: outer) program errors)
          (fun _ _ => True) (fun inner => completeReading outer program (.block inner)) := by
        obtain ⟨hbrace, hne⟩ := not_or.mp hend
        have heof : (body.headD e).kind ≠ .eof := fun heof => hne (hp.eof_iff.mp heof)
        refine .bind (declaration_follows errors (hrec body.length hbody) heof
          fun hkind => absurd hkind hbrace) fun us rest s errors' hb hus => ?_
        have hlength : rest.length < body.length := by
          rw [hb, List.length_append]
          have hpos := List.length_pos_iff.mpr hus
          omega
        refine .of_agree ?_ (ih body.length hbody (fun k hk => hrec k (by omega)) hlength
          (here ++ [s]) errors')
        simp only [completeReading, goalReading, step, attachElse?, ite_self, conclude, shift]
        exact shiftDeclaration_mode _ _
      refine Follows.of_stay (fun p hp => ?_) hdeclaration p hp
      rw [runAt_bind_ok (hp.runAt_isAtBlockEnd errors), decide_eq_false hend]
      rfl

/-- Statements keep pace: every construct takes at least its first token before it reads a
statement inside it. -/
theorem statement_follows (n : Nat) : StatementFollows ts e n := by
  induction n using Nat.strongRecOn with
  | ind n ih =>
    intro outer program body errors hbody
    have hlength {t : Token} {rest : List Token} (hb : body = t :: rest) : rest.length < n := by
      rw [hb, List.length_cons] at hbody
      omega
    rw [statement.eq_def]
    simp only [bind_pure]
    refine .acceptToken (by decide) (fun k rest hb hk => ?_) fun hfor => ?_
    · exact forStatement_follows ih (hlength hb) errors (List.mem_singleton.mp hk)
    refine .acceptToken (by decide) (fun k rest hb hk => ?_) fun hif => ?_
    · exact ifStatement_follows ih (hlength hb) errors (List.mem_singleton.mp hk)
    refine .acceptToken (by decide) (fun k rest hb hk => ?_) fun hprint => ?_
    · have hword : (goalReading .statement outer program errors).step k =
          operandReading outer [] (.printed k) program errors := by
        rw [List.mem_singleton] at hk
        simp only [goalReading, operandReading, step, shift, shiftStatement, hk, expect]
      rw [hword]
      exact .closing (by decide) (fun _ _ _ => rfl) fun _ _ _ _ _ _ =>
        .result (List.cons_ne_nil _ _) rfl
    refine .acceptToken (by decide) (fun k rest hb hk => ?_) fun hwhile => ?_
    · exact whileStatement_follows ih (hlength hb) errors (List.mem_singleton.mp hk)
    refine .accept (by decide) (fun l rest hb hl => ?_) fun hblock => ?_
    · have hopen : (goalReading .statement outer program errors).step l =
          goalReading .declaration (.block [] :: outer) program errors := by
        rw [List.mem_singleton] at hl
        simp only [goalReading, step, shift, shiftStatement, hl, enter]
      rw [hopen]
      exact .bind (block_follows ih (hlength hb) [] errors) fun _ _ _ _ _ _ =>
        .result (List.cons_ne_nil _ _) rfl
    · have hopen : (goalReading .statement outer program errors).step (body.headD e) =
          (operandReading outer [] .statement program errors).step (body.headD e) := by
        rw [List.mem_singleton] at hfor hif hprint hwhile hblock
        simp only [goalReading, operandReading, step, shift, shiftStatement]
        exact shiftOperand_mode _ _ _ _
      exact .of_agree hopen (expressionStatement_follows outer program body errors)

end Lox.Descent
