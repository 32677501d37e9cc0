import Lox.Proofs.Grammar.Account

/-!
# What is read is derived by the grammar

Each step of a reading that accounts for the tokens so far either accounts for one token
more or fails at that token. A reading that ends without an error is therefore a
derivation, and with the converse the statements of a stream are exactly those that the
grammar derives from it.
-/

namespace Lox.Grammar

open Reading

/-- A step at a token accounts for one token more, or fails at it. -/
def Advances (ts : List Token) (errors : List GrammarError) (t : Token) (r : Reading) : Prop :=
  Accounts (ts ++ [t]) r ∨ Rejects errors t r

/-- A step that gives up fails at its token. -/
theorem Rejects.of_fail {outer : List Outer} {mode : Mode} {program : List Stmt}
    {errors : List GrammarError} (t : Token) {cause : GrammarCause}
    (h : cause ≠ .invalidTarget) :
    Rejects errors t (fail ⟨outer, mode, program, errors⟩ t cause) :=
  ⟨rfl, cause, [], h, by rw [List.map_nil, List.append_nil]; rfl⟩

/-- Errors of faults may be reported at the token of a failure before it. -/
theorem Rejects.of_errors {errors : List GrammarError} {r : Reading} {t : Token}
    (faults : List Token) (h : Rejects (errors ++ faults.map invalidTarget) t r) :
    Rejects errors t r := by
  obtain ⟨hmode, cause, faults', hcause, herrors⟩ := h
  refine ⟨hmode, cause, faults ++ faults', hcause, ?_⟩
  rw [herrors, List.map_append, List.append_assoc errors]

/-- Tokens behind what waits, and one more that is an operand. -/
theorem Carries.of_token {pending : List Pending} {ts f : List Token} {t : Token} {e : Expr}
    (hw : Waits pending ts f) (he : Expression .primary [t] e []) :
    Carries Category.primary.rank e pending (ts ++ [t]) f :=
  ⟨.primary, ts, [t], f, [], rfl, (List.append_nil f).symm, hw, he,
    Nat.le_succ_of_le (slot_le pending), Nat.le_refl _⟩

/-- An account for tighter categories is one for looser. -/
theorem Carries.mono {m n : Nat} {e : Expr} {pending : List Pending} {ts f : List Token}
    (h : Carries n e pending ts f) (hmn : m ≤ n) : Carries m e pending ts f := by
  obtain ⟨c, ts₁, ts₂, f₁, f₂, hts, hf, hw, he, hslot, hn⟩ := h
  exact ⟨c, ts₁, ts₂, f₁, f₂, hts, hf, hw, he, hslot, Nat.le_trans hmn hn⟩

/-- Every kind with a level is an operator of the category of that rank. -/
theorem exists_category {k : Kind} (h : 0 < k.level) :
    ∃ c : Category, k ∈ c.operators ∧ c.rank = k.level := by
  unfold Kind.level at h ⊢
  split at h
  · exact ⟨.logicOr, by decide, rfl⟩
  · exact ⟨.logicAnd, by decide, rfl⟩
  · exact ⟨.equality, by decide, rfl⟩
  · exact ⟨.equality, by decide, rfl⟩
  · exact ⟨.comparison, by decide, rfl⟩
  · exact ⟨.comparison, by decide, rfl⟩
  · exact ⟨.comparison, by decide, rfl⟩
  · exact ⟨.comparison, by decide, rfl⟩
  · exact ⟨.term, by decide, rfl⟩
  · exact ⟨.term, by decide, rfl⟩
  · exact ⟨.factor, by decide, rfl⟩
  · exact ⟨.factor, by decide, rfl⟩
  · exact absurd h (Nat.lt_irrefl 0)

/-- A token of the kind that has to come leads on, and any other fails. -/
theorem advances_ite {ts : List Token} {r r' : Reading} {t : Token} {k : Kind}
    {cause : GrammarCause} (hcause : cause ≠ .invalidTarget)
    (h : t.kind = k → Accounts (ts ++ [t]) r') :
    Advances ts r.errors t (if t.kind = k then r' else r.fail t cause) := by
  split
  · next hk => exact .inl (h hk)
  · exact .inr (.of_fail t hcause)

section Steps

variable {outer : List Outer} {program : List Stmt} {ts us vs f g j : List Token} {t : Token}
  {place : Place} {pending : List Pending} {e : Expr}

/-- A reading with parts that account for tokens does so. -/
theorem Accounts.of_parts (mode : Mode) (hc : Context outer program ts f)
    (hh : Holds outer mode us g) :
    Accounts (ts ++ us) ⟨outer, mode, program, (f ++ g).map invalidTarget⟩ :=
  ⟨ts, us, f, g, rfl, rfl, hc, hh⟩

/-- So does one inside a further construct whose statement comes next. -/
theorem Accounts.of_context (hc : Context outer program ts f) (ho : Open outer) :
    Accounts ts ⟨outer, .expecting .statement, program, f.map invalidTarget⟩ :=
  ⟨ts, [], f, [], (List.append_nil ts).symm, by rw [List.append_nil], hc, .statement ho⟩

/-- So does one between two declarations of a row. -/
theorem Accounts.of_row (hc : Context outer program ts f) (ho : InRow outer) :
    Accounts ts ⟨outer, .expecting .declaration, program, f.map invalidTarget⟩ :=
  ⟨ts, [], f, [], (List.append_nil ts).symm, by rw [List.append_nil], hc, .declaration ho⟩

/-- A construct other than the first clause of a `for` leaves any statement to end in it. -/
theorem open_cons {construct : Outer} (h : ∀ k, construct ≠ .forInit k) :
    Open (construct :: outer) := by
  intro k outer' heq
  exact h k (List.cons.inj heq).1

/-- Either any statement may end here or a first clause of a `for` is open. -/
theorem open_or_forInit (outer : List Outer) :
    Open outer ∨ ∃ k outer', outer = .forInit k :: outer' := by
  match outer with
  | .forInit k :: outer' => exact .inr ⟨k, outer', rfl⟩
  | [] => exact .inl fun _ _ h => nomatch h
  | .block _ :: _ | .thenBranch _ _ :: _ | .elseBranch _ _ _ :: _ | .whileBody _ _ :: _
  | .forBody _ :: _ => exact .inl (open_cons fun _ h => nomatch h)

/-- In a row any statement may end. -/
theorem InRow.open (h : InRow outer) : Open outer := by
  rcases h with rfl | ⟨body, outer', rfl⟩
  · exact fun _ _ h => nomatch h
  · exact open_cons fun _ h => nomatch h

/-- A brace opens a block without declarations. -/
theorem Context.openBlock (hc : Context outer program ts f) (ho : Open outer)
    (ht : t.kind = .sign .leftBrace) : Context (.block [] :: outer) program (ts ++ [t]) f := by
  have h : ∀ p ∈ ([] : List Piece), Phrase .nearest .declaration p.tokens p.tree p.faults :=
    List.forall_mem_nil _
  simpa only [List.map_nil, List.flatMap_nil, List.append_nil] using Context.block hc ho ht h

/-- Where an operand has to come, a token starts one or fails. -/
theorem shiftOperand_advances (mode : Mode) (hc : Context outer program ts f)
    (hp : Placed outer place us g) (hw : Waits pending vs j) :
    Advances (ts ++ (us ++ vs)) ((f ++ (g ++ j)).map invalidTarget) t
      (shiftOperand ⟨outer, mode, program, (f ++ (g ++ j)).map invalidTarget⟩ pending place t) := by
  have hoperand (pending' : List Pending) (hw' : Waits pending' (vs ++ [t]) j) :
      Accounts (ts ++ (us ++ vs) ++ [t]) ⟨outer, .expecting (.operand pending' place), program,
        (f ++ (g ++ j)).map invalidTarget⟩ := by
    rw [List.append_assoc, List.append_assoc]
    exact .of_parts _ hc (.operand hp hw')
  have hoperator (e : Expr) (he : Expression .primary [t] e []) :
      Accounts (ts ++ (us ++ vs) ++ [t]) ⟨outer, .expecting (.operator e pending place), program,
        (f ++ (g ++ j)).map invalidTarget⟩ := by
    rw [List.append_assoc, List.append_assoc]
    exact .of_parts _ hc (.operator hp (.of_token hw he))
  unfold shiftOperand
  split
  · next h => exact .inl (hoperand _ (.unary hw (.inl h)))
  · next h => exact .inl (hoperand _ (.unary hw (.inr h)))
  · next h => exact .inl (hoperator _ (.literal (.inl h)))
  · next h => exact .inl (hoperator _ (.literal (.inr h)))
  · next h => exact .inl (hoperator _ (.falseWord h))
  · next h => exact .inl (hoperator _ (.trueWord h))
  · next h => exact .inl (hoperator _ (.nilWord h))
  · next h => exact .inl (hoperator _ (.variable h))
  · next h => exact .inl (hoperand _ (.group hw h))
  · refine .inr (.of_fail t ?_)
    decide

/-- After a whole expression a token ends what it is for, or fails. -/
theorem shiftEnd_advances (mode : Mode) (hc : Context outer program ts f)
    (hp : Placed outer place us g) (he : Expression .assignment vs e j) :
    Advances (ts ++ (us ++ vs)) ((f ++ (g ++ j)).map invalidTarget) t
      (shiftEnd ⟨outer, mode, program, (f ++ (g ++ j)).map invalidTarget⟩ e place t) := by
  cases hp with
  | statement =>
    refine advances_ite (by decide) fun ht => ?_
    rw [List.append_assoc]
    exact .of_parts (.complete _) hc (Completed.expression (.intro he ht))
  | printed ho hk =>
    refine advances_ite (by decide) fun ht => ?_
    rw [List.append_assoc]
    exact .of_parts (.complete _) hc (Completed.statement ho (.print hk he ht))
  | initializer ho hv hn heq =>
    refine advances_ite (by decide) fun ht => ?_
    rw [List.append_assoc]
    exact .of_parts (.complete _) hc (Completed.var ho (.initialized hv hn heq he ht))
  | ifCondition ho hk hl =>
    refine advances_ite (by decide) fun ht => ?_
    rw [List.append_assoc]
    exact .of_context (.thenBranch hc ho hk hl he ht) (open_cons fun _ h => nomatch h)
  | whileCondition ho hk hl =>
    refine advances_ite (by decide) fun ht => ?_
    rw [List.append_assoc]
    exact .of_context (.whileBody hc ho hk hl he ht) (open_cons fun _ h => nomatch h)
  | forCondition ho hk hl hi =>
    refine advances_ite (by decide) fun ht => ?_
    have hp := Placed.forStep ho hk hl hi (.some he) ht
    rw [List.append_assoc]
    exact .of_parts (.expecting _) hc (Expects.forStep hp)
  | @forStep k l semi is cs f g init condition ho hk hl hi hcond hs =>
    refine advances_ite (by decide) fun ht => ?_
    have hctx := Context.forBody hc ho hk hl hi hcond hs (.some he) ht
    have ha := Accounts.of_context hctx (open_cons fun _ h => nomatch h)
    simpa only [enter, List.append_assoc, List.cons_append, List.nil_append] using ha

/-- After an operand a token joins it to more, ends its expression, or fails. -/
theorem shiftOperator_advances (mode : Mode) (hc : Context outer program ts f)
    (hp : Placed outer place us g) (he : Carries Category.primary.rank e pending vs j) :
    Advances (ts ++ (us ++ vs)) ((f ++ (g ++ j)).map invalidTarget) t
      (shiftOperator ⟨outer, mode, program, (f ++ (g ++ j)).map invalidTarget⟩ e pending place
        t) := by
  have hlevel := level_le t.kind
  have hreduce := fun (level : Nat) (h : level ≤ 6) =>
    (he.mono (by simp only [Category.rank]; omega) : Carries (max level 1) _ _ _ _).reduce rfl h
  unfold shiftOperator
  split
  · next hpos =>
    obtain ⟨c, hop, hrank⟩ := exists_category hpos
    obtain ⟨⟨c', ts₁, ts₂, f₁, f₂, rfl, rfl, hw, hl, -, hc'⟩, hslot⟩ := hreduce _ hlevel
    have hw' := Waits.binary hw (by omega) (hl.loosen (by omega)) hop
    left
    rw [List.append_assoc, List.append_assoc]
    exact .of_parts (.expecting _) hc (Expects.operand hp hw')
  · split
    · next hequal =>
      obtain ⟨⟨c', ts₁, ts₂, f₁, f₂, rfl, rfl, hw, hl, -, hc'⟩, hslot⟩ := hreduce 0 (by decide)
      have hw' := Waits.assign hw (by omega) (hl.loosen hc') hequal
      left
      rw [List.append_assoc, List.append_assoc]
      exact .of_parts (.expecting _) hc (Expects.operand hp hw')
    · obtain ⟨ts₁, ts₂, f₁, f₂, faults, rfl, hf, herrors, hw, hl, hrest⟩ :=
        (he.mono (Nat.zero_le _)).close
      generalize close e pending = closed at *
      obtain ⟨whole, rest, errors⟩ := closed
      dsimp only at herrors hw hl hrest ⊢
      subst herrors
      refine Or.imp_right (Rejects.of_errors faults) ?_
      have herr : (f ++ (g ++ j)).map invalidTarget ++ faults.map invalidTarget =
          (f ++ (g ++ (f₁ ++ f₂))).map invalidTarget := by
        rw [← List.map_append, List.append_assoc, List.append_assoc, hf]
      simp only [herr]
      rcases hrest with rfl | ⟨rest, rfl⟩
      · cases hw
        exact shiftEnd_advances mode hc hp hl
      · cases hw with
        | @group l _ ts₁ _ hw hopen =>
          refine advances_ite (by decide) fun ht => ?_
          have hcar : Carries Category.primary.rank (.grouping whole) rest
              (ts₁ ++ (l :: ts₂ ++ [t])) (f₁ ++ f₂) :=
            ⟨.primary, ts₁, _, f₁, f₂, rfl, rfl, hw, .grouping hopen hl ht,
              Nat.le_succ_of_le (slot_le rest), Nat.le_refl _⟩
          have ha := Accounts.of_parts (.expecting _) hc (Expects.operator hp hcar)
          simpa only [expect, List.append_assoc, List.cons_append, List.nil_append] using ha

/-- Where a statement has to come, a token starts one or fails. -/
theorem shiftStatement_advances (mode : Mode) (hc : Context outer program ts f)
    (ho : Open outer) :
    Advances ts (f.map invalidTarget) t
      (shiftStatement ⟨outer, mode, program, f.map invalidTarget⟩ t) := by
  have hgoal (goal : Goal) (h : Expects outer goal [t] []) :
      Accounts (ts ++ [t]) ⟨outer, .expecting goal, program, f.map invalidTarget⟩ := by
    have ha := Accounts.of_parts (.expecting goal) hc h
    rwa [List.append_nil] at ha
  unfold shiftStatement
  split
  · next h => exact .inl (hgoal _ (.forParen ho h))
  · next h => exact .inl (hgoal _ (.ifParen ho h))
  · next h => exact .inl (hgoal _ (.operand (.printed ho h) .nil))
  · next h => exact .inl (hgoal _ (.whileParen ho h))
  · next h => exact .inl (.of_row (hc.openBlock ho h) (.inr ⟨_, _, rfl⟩))
  · have ha : Advances _ _ t _ := shiftOperand_advances mode hc .statement .nil
    simpa only [List.append_nil] using ha

/-- Where a declaration may come, a token starts one, ends the block, or fails. -/
theorem shiftDeclaration_advances (mode : Mode) (hc : Context outer program ts f)
    (ho : InRow outer) (ht : t.kind ≠ .eof) :
    Advances ts (f.map invalidTarget) t
      (shiftDeclaration ⟨outer, mode, program, f.map invalidTarget⟩ t) := by
  simp only [shiftDeclaration]
  split
  · next h =>
    have ha := Accounts.of_parts (.expecting _) hc (Expects.varName (.inl ho) h)
    rw [List.append_nil] at ha
    exact .inl ha
  · next body outer' h =>
    cases hc with
    | @block _ _ ts f l pieces hc ho hl hp =>
      have ha := Accounts.of_parts (.complete _) hc (Completed.statement ho (.block hl hp h))
      left
      simpa only [finish, List.append_assoc, List.cons_append] using ha
  · next h => exact absurd h ht
  · next h _ => exact absurd h ht
  · exact shiftStatement_advances mode hc ho.open

/-- Where something definite has to come, a token is that or fails. -/
theorem shift_advances (mode : Mode) {goal : Goal} (hc : Context outer program ts f)
    (he : Expects outer goal us g) (ht : t.kind ≠ .eof) :
    Advances (ts ++ us) ((f ++ g).map invalidTarget) t
      (shift ⟨outer, mode, program, (f ++ g).map invalidTarget⟩ goal t) := by
  cases he with
  | declaration ho =>
    rw [List.append_nil, List.append_nil]
    exact shiftDeclaration_advances mode hc ho ht
  | statement ho =>
    rw [List.append_nil, List.append_nil]
    exact shiftStatement_advances mode hc ho
  | operand hp hw => exact shiftOperand_advances mode hc hp hw
  | operator hp he => exact shiftOperator_advances mode hc hp he
  | varName ho hv =>
    refine advances_ite (by decide) fun hn => ?_
    rw [List.append_assoc]
    exact .of_parts (.expecting _) hc (Expects.varEnd ho hv hn)
  | @varEnd v n ho hv hn =>
    simp only [shift]
    split
    · next h =>
      have ha := Accounts.of_parts (.expecting _) hc
        (Expects.operand (.initializer ho hv hn h) .nil)
      left
      simpa only [expect, List.append_assoc, List.cons_append, List.nil_append, List.append_nil]
        using ha
    · next h =>
      left
      rw [List.append_assoc]
      exact .of_parts (.complete _) hc (Completed.var ho (.bare hv hn h))
    · refine .inr (.of_fail t ?_)
      decide
  | ifParen ho hk =>
    refine advances_ite (by decide) fun hl => ?_
    have ha := Accounts.of_parts (.expecting _) hc (Expects.operand (.ifCondition ho hk hl) .nil)
    simpa only [expect, List.append_assoc, List.cons_append, List.nil_append, List.append_nil]
      using ha
  | whileParen ho hk =>
    refine advances_ite (by decide) fun hl => ?_
    have ha := Accounts.of_parts (.expecting _) hc (Expects.operand (.whileCondition ho hk hl) .nil)
    simpa only [expect, List.append_assoc, List.cons_append, List.nil_append, List.append_nil]
      using ha
  | forParen ho hk =>
    refine advances_ite (by decide) fun hl => ?_
    rw [List.append_assoc]
    exact .of_parts (.expecting _) hc (Expects.forInit ho hk hl)
  | @forInit k l ho hk hl =>
    have hctx := Context.forInit hc ho hk hl
    simp only [shift]
    split
    · next h =>
      left
      rw [List.append_assoc]
      exact .of_parts (.expecting _) hc (Expects.forCondition (.forCondition ho hk hl (.none h)))
    · next h =>
      have ha := Accounts.of_parts (.expecting _) hctx
        (Expects.varName (.inr ⟨_, _, rfl⟩) h)
      exact .inl ha
    · have ha : Advances _ _ t _ := shiftOperand_advances mode hctx .statement .nil
      simpa only [List.append_nil] using ha
  | @forCondition k init us g hp =>
    simp only [shift]
    split
    · next h =>
      cases hp with
      | forCondition ho hk hl hi =>
        have ha := Accounts.of_parts (.expecting _) hc
          (Expects.forStep (.forStep ho hk hl hi .none h))
        left
        simpa only [expect, List.append_assoc, List.append_nil] using ha
    · have ha : Advances _ _ t _ := shiftOperand_advances mode hc hp .nil
      simpa only [List.append_nil] using ha
  | @forStep k init condition us g hp =>
    simp only [shift]
    split
    · next h =>
      cases hp with
      | forStep ho hk hl hi hcond hs =>
        have hctx := Context.forBody hc ho hk hl hi hcond hs .none h
        have hopen : Open (.forBody ⟨k, init, condition, none⟩ :: outer) := by
          refine open_cons fun _ h => ?_
          cases h
        have ha := Accounts.of_context hctx hopen
        left
        simpa only [enter, List.append_assoc, List.cons_append, List.nil_append, List.append_nil]
          using ha
    · have ha : Advances _ _ t _ := shiftOperand_advances mode hc hp .nil
      simpa only [List.append_nil] using ha

/-- A complete statement goes to the construct that waits for it, and the tokens are
accounted for by what comes next there. -/
def Concludes (outer : List Outer) (program : List Stmt) (s : Stmt) (ts f : List Token) : Prop :=
  ∃ outer' program' goal ts₁ ts₂ f₁ f₂, (∀ outer₀ mode errors,
    Reading.conclude ⟨outer₀, mode, program, errors⟩ s outer =
      (⟨outer', mode, program', errors⟩, goal)) ∧
    ts = ts₁ ++ ts₂ ∧ f = f₁ ++ f₂ ∧ Context outer' program' ts₁ f₁ ∧ Expects outer' goal ts₂ f₂

/-- A statement that goes to a row is accounted for by the row. -/
theorem Concludes.of_row {s : Stmt} {outer' : List Outer} {program' : List Stmt}
    (hconclude : ∀ outer₀ mode errors, Reading.conclude ⟨outer₀, mode, program, errors⟩ s outer =
      (⟨outer', mode, program', errors⟩, .declaration)) (ho : InRow outer')
    (hc : Context outer' program' ts f) : Concludes outer program s ts f :=
  ⟨outer', program', .declaration, ts, [], f, [], hconclude, (List.append_nil ts).symm,
    (List.append_nil f).symm, hc, .declaration ho⟩

/-- A statement goes where the one goes that it stands for. -/
theorem Concludes.of_unwinds {d : Bool} {s s' : Stmt} {outer' : List Outer}
    (hu : Unwinds d s outer s' outer') (h : Concludes outer' program s' ts f) :
    Concludes outer program s ts f := by
  obtain ⟨outer₁, program₁, goal, ts₁, ts₂, f₁, f₂, heq, h⟩ := h
  exact ⟨outer₁, program₁, goal, ts₁, ts₂, f₁, f₂, fun _ _ _ => by rw [hu.conclude_eq, heq], h⟩

/-- A further declaration of a row belongs to it. -/
theorem forall_mem_concat {pieces : List Piece} {p : Piece}
    (h : ∀ p ∈ pieces, Phrase .nearest .declaration p.tokens p.tree p.faults)
    (hp : Phrase .nearest .declaration p.tokens p.tree p.faults) :
    ∀ q ∈ pieces ++ [p], Phrase .nearest .declaration q.tokens q.tree q.faults := by
  intro q hq
  rcases List.mem_append.mp hq with hq | hq
  · exact h q hq
  · obtain rfl := List.mem_singleton.mp hq
    exact hp

/-- A declaration goes to its row and is accounted for there. -/
theorem Context.conclude_declaration {s : Stmt} (hc : Context outer program ts f)
    (ho : InRow outer) (hs : Phrase .nearest .declaration us s g) :
    Concludes outer program s (ts ++ us) (f ++ g) := by
  cases hc with
  | top h =>
    obtain ⟨pieces, hp, rfl, rfl, rfl⟩ := h
    have hpieces := forall_mem_concat hp (p := ⟨us, s, g⟩) hs
    have hconclude : ∀ outer₀ mode errors,
        Reading.conclude ⟨outer₀, mode, pieces.map Piece.tree, errors⟩ s [] =
          (⟨[], mode, pieces.map Piece.tree ++ [s], errors⟩, .declaration) := fun _ _ _ => rfl
    refine .of_row hconclude (.inl rfl) (.top ⟨_, hpieces, ?_, ?_, ?_⟩)
    all_goals simp only [List.flatMap_append, List.flatMap_cons, List.flatMap_nil, List.map_append,
      List.map_cons, List.map_nil, List.append_nil]
  | block hc ho' hl hp =>
    refine .of_row (fun _ _ _ => rfl) (.inr ⟨_, _, rfl⟩) ?_
    have hctx := Context.block hc ho' hl (forall_mem_concat hp (p := ⟨us, s, g⟩) hs)
    simpa only [List.flatMap_append, List.flatMap_cons, List.flatMap_nil, List.map_append,
      List.map_cons, List.map_nil, List.append_nil, List.append_assoc, List.cons_append] using hctx
  | thenBranch | elseBranch | whileBody | forInit | forBody =>
    rcases ho with h | ⟨body, outer', h⟩ <;> cases h

/-- A statement ends the constructs around it up to a row and is accounted for there. -/
theorem Context.conclude_statement {d : Bool} {s : Stmt} (hc : Context outer program ts f)
    (ho : Open outer) (hs : Phrase .nearest (.statement d) us s g) :
    Concludes outer program s (ts ++ us) (f ++ g) := by
  induction hc generalizing d s us g with
  | top h => exact (Context.top h).conclude_declaration (.inl rfl) (.statement hs)
  | block hc ho' hl hp =>
    exact (Context.block hc ho' hl hp).conclude_declaration (.inr ⟨_, _, rfl⟩) (.statement hs)
  | thenBranch _ ho' hk hl hcond hr ih =>
    have h := Concludes.of_unwinds (.thenBranch .refl) (ih ho' (.ifThen hk hl hcond hr hs))
    simpa only [List.append_assoc, List.cons_append, List.nil_append] using h
  | elseBranch _ ho' hk hl hcond hr hthen hel ih =>
    have h := Concludes.of_unwinds (.elseBranch .refl)
      (ih ho' (.ifElse hk hl hcond hr hthen (fun _ => rfl) hel hs))
    simpa only [List.append_assoc, List.cons_append, List.nil_append] using h
  | whileBody _ ho' hk hl hcond hr ih =>
    have h := Concludes.of_unwinds (.whileBody .refl) (ih ho' (.whileLoop hk hl hcond hr hs))
    simpa only [List.append_assoc, List.cons_append, List.nil_append] using h
  | forInit => exact absurd rfl (ho _ _)
  | forBody _ ho' hk hl hi hcond hsemi hst hr ih =>
    have hfor := Phrase.forLoop hk hl hi hcond hsemi hst hr hs
    rw [← desugar_eq_forTree] at hfor
    have h := Concludes.of_unwinds (.forBody .refl) (ih ho' hfor)
    simpa only [List.append_assoc, List.cons_append, List.nil_append] using h

/-- The first clause of a `for` is followed by the second. -/
theorem Context.conclude_firstClause {s : Stmt} {k : Token}
    (hc : Context (.forInit k :: outer) program ts f) (hs : FirstClause us (some s) g) :
    Concludes (.forInit k :: outer) program s (ts ++ us) (f ++ g) := by
  cases hc with
  | forInit hc ho hk hl =>
    refine ⟨outer, program, .forCondition k (some s), _, _, f, g, fun _ _ _ => rfl,
      List.append_assoc _ _ _, rfl, hc, .forCondition (.forCondition ho hk hl hs)⟩

/-- Every complete statement goes to the construct that waits for it. -/
theorem Completed.concludes {s : Stmt} (hs : Completed outer s us g)
    (hc : Context outer program ts f) : Concludes outer program s (ts ++ us) (f ++ g) := by
  cases hs with
  | statement ho h => exact hc.conclude_statement ho h
  | expression h =>
    rcases open_or_forInit outer with ho | ⟨k, outer', rfl⟩
    · exact hc.conclude_statement ho (.expression h)
    · exact hc.conclude_firstClause (.expression h)
  | var ho h =>
    rcases ho with ho | ⟨k, outer', rfl⟩
    · exact hc.conclude_declaration ho (.var h)
    · exact hc.conclude_firstClause (.var h)

/-- An `else` that belongs to a conditional around a complete statement is accounted for. -/
theorem Context.attachElse? {s : Stmt} {outer' : List Outer} (hc : Context outer program ts f)
    (hs : Phrase .nearest (.statement false) us s g) (ht : t.kind = .word .else_)
    (h : Reading.attachElse? s outer = some outer') :
    Open outer' ∧ Context outer' program (ts ++ us ++ [t]) (f ++ g) := by
  induction hc generalizing s us g with
  | top | block | forInit => cases h
  | thenBranch hc ho hk hl hcond hr =>
    cases h
    refine ⟨open_cons (fun _ h => nomatch h), ?_⟩
    have hctx := Context.elseBranch hc ho hk hl hcond hr hs ht
    simpa only [List.append_assoc, List.cons_append, List.nil_append] using hctx
  | elseBranch hc ho hk hl hcond hr hthen hel ih =>
    have hctx := ih (.ifElse hk hl hcond hr hthen (fun _ => rfl) hel hs) h
    simpa only [List.append_assoc, List.cons_append, List.nil_append] using hctx
  | whileBody hc ho hk hl hcond hr ih =>
    have hctx := ih (.whileLoop hk hl hcond hr hs) h
    simpa only [List.append_assoc, List.cons_append, List.nil_append] using hctx
  | forBody hc ho hk hl hi hcond hsemi hst hr ih =>
    have hfor := Phrase.forLoop hk hl hi hcond hsemi hst hr hs
    rw [← desugar_eq_forTree] at hfor
    have hctx := ih hfor h
    simpa only [List.append_assoc, List.cons_append, List.nil_append] using hctx

/-- An `else` after a complete statement leads on to the alternative of a conditional. -/
theorem Completed.attachElse? {s : Stmt} {outer' : List Outer} (hs : Completed outer s us g)
    (hc : Context outer program ts f) (ht : t.kind = .word .else_)
    (h : Reading.attachElse? s outer = some outer') :
    Open outer' ∧ Context outer' program (ts ++ us ++ [t]) (f ++ g) := by
  cases hs with
  | statement _ hs => exact hc.attachElse? hs ht h
  | expression hs => exact hc.attachElse? (.expression hs) ht h
  | var ho => rcases ho with (rfl | ⟨_, _, rfl⟩) | ⟨_, _, rfl⟩ <;> cases h

end Steps

/-- After a complete statement reading goes on with an alternative, or with what comes next
where the statement goes. -/
theorem Completed.step_eq {outer : List Outer} {s : Stmt} {program : List Stmt}
    {ts us f g : List Token} {t : Token} (hs : Completed outer s us g)
    (hc : Context outer program ts f) (errors : List GrammarError) :
    (t.kind = .word .else_ ∧ ∃ outer', Open outer' ∧
      Context outer' program (ts ++ us ++ [t]) (f ++ g) ∧
      step ⟨outer, .complete s, program, errors⟩ t =
        ⟨outer', .expecting .statement, program, errors⟩) ∨
    ∃ outer' program' goal ts₁ ts₂ f₁ f₂, ts ++ us = ts₁ ++ ts₂ ∧ f ++ g = f₁ ++ f₂ ∧
      Context outer' program' ts₁ f₁ ∧ Expects outer' goal ts₂ f₂ ∧
      step ⟨outer, .complete s, program, errors⟩ t =
        shift ⟨outer', .complete s, program', errors⟩ goal t := by
  cases helse : (if t.kind = .word .else_ then Reading.attachElse? s outer else none) with
  | some outer' =>
    obtain ⟨hword, hattach⟩ := Option.ite_none_right_eq_some.mp helse
    obtain ⟨hopen, hctx⟩ := hs.attachElse? hc hword hattach
    exact .inl ⟨hword, outer', hopen, hctx, by simp only [step, helse]⟩
  | none =>
    obtain ⟨outer', program', goal, ts₁, ts₂, f₁, f₂, heq, hts, hf, hctx, hgoal⟩ := hs.concludes hc
    exact .inr ⟨outer', program', goal, ts₁, ts₂, f₁, f₂, hts, hf, hctx, hgoal,
      by simp only [step, helse, heq]⟩

/-- A step from a reading that accounts for tokens accounts for one more or fails. -/
theorem Accounts.step {ts : List Token} {r : Reading} {t : Token} (h : Accounts ts r)
    (ht : t.kind ≠ .eof) : Advances ts r.errors t (r.step t) := by
  obtain ⟨outer, mode, program, errors⟩ := r
  obtain ⟨ts₁, ts₂, f₁, f₂, rfl, rfl, hc, hh⟩ := h
  cases mode with
  | expecting goal => exact shift_advances _ hc hh ht
  | complete s =>
    rcases Completed.step_eq hh hc ((f₁ ++ f₂).map invalidTarget) with
      ⟨-, outer', hopen, hctx, hstep⟩ |
      ⟨outer', program', goal, ts₁', ts₂', f₁', f₂', hts, hf, hctx, hgoal, hstep⟩
    · rw [hstep]
      exact .inl (.of_context hctx hopen)
    · rw [hstep, hts, hf]
      exact shift_advances _ hctx hgoal ht
  | skipping => exact hh.elim

/-- Reading tokens without an error accounts for all of them. -/
theorem Accounts.run {ts us : List Token} {r : Reading} (h : Accounts ts r)
    (hus : ∀ t ∈ us, t.kind ≠ .eof) (herrors : (r.run us).errors = []) :
    Accounts (ts ++ us) (r.run us) := by
  induction us generalizing ts r with
  | nil => rwa [List.append_nil]
  | cons t rest ih =>
    rcases h.step (hus t List.mem_cons_self) with ha | ⟨-, cause, faults, -, hrejects⟩
    · rw [List.append_cons]
      exact ih ha (fun t' ht' => hus t' (List.mem_cons_of_mem t ht')) herrors
    · have hstart := errors_prefix_run (r.step t) rest
      have hrun : (r.step t).run rest = r.run (t :: rest) := rfl
      rw [hrun, herrors, List.prefix_nil, hrejects] at hstart
      simp only [List.append_eq_nil_iff, List.cons_ne_nil, and_false] at hstart

/-- Every error of closing an expression is that of a fault. -/
theorem exists_close_errors (e : Expr) (pending : List Pending) :
    ∃ faults : List Token, (close e pending).2.2 = faults.map invalidTarget := by
  fun_induction Reading.close e pending with
  | case1 _ _ _ ih | case2 _ _ _ _ ih | case3 _ _ _ _ ih => exact ih
  | case4 _ _ eq _ _ _ _ _ hclose ih =>
    obtain ⟨faults, hfaults⟩ := ih
    rw [hclose] at hfaults
    exact ⟨eq :: faults, congrArg (invalidTarget eq :: ·) hfaults⟩
  | case5 => exact ⟨[], rfl⟩

section EndOfStream

variable {t : Token} (r : Reading)

/-- The end token is no operand. -/
theorem shiftOperand_rejects_eof (ht : t.kind = .eof) (pending : List Pending) (place : Place) :
    Rejects r.errors t (r.shiftOperand pending place t) := by
  simp only [shiftOperand, ht]
  exact .of_fail t (by decide)

/-- The end token ends no expression. -/
theorem shiftEnd_rejects_eof (ht : t.kind = .eof) (e : Expr) (place : Place) :
    Rejects r.errors t (r.shiftEnd e place t) := by
  cases place
  all_goals
    simp only [shiftEnd, ht, reduceCtorEq, if_false]
    exact .of_fail t (by decide)

/-- The end token ends no operand. -/
theorem shiftOperator_rejects_eof (ht : t.kind = .eof) (e : Expr) (pending : List Pending)
    (place : Place) : Rejects r.errors t (r.shiftOperator e pending place t) := by
  obtain ⟨faults, hfaults⟩ := exists_close_errors e pending
  have hlevel : ¬ 0 < t.kind.level := by rw [ht]; decide
  have hequal : t.kind ≠ .sign .equal := by rw [ht]; decide
  have hparen : t.kind ≠ .sign .rightParen := by rw [ht]; decide
  unfold shiftOperator
  rw [if_neg hlevel, if_neg hequal]
  split
  next whole rest errors hclose =>
    rw [hclose] at hfaults
    subst hfaults
    apply Rejects.of_errors faults
    split
    · exact shiftEnd_rejects_eof { r with errors := r.errors ++ faults.map invalidTarget } ht _ _
    · rw [if_neg hparen]
      exact .of_fail t (by decide)

/-- Only a declaration may be missing at the end of a stream. -/
theorem shift_rejects_eof (ht : t.kind = .eof) {goal : Goal} (hgoal : goal ≠ .declaration) :
    Rejects r.errors t (r.shift goal t) := by
  cases goal with
  | declaration => exact absurd rfl hgoal
  | statement =>
    simp only [shift, shiftStatement, ht]
    exact shiftOperand_rejects_eof r ht _ _
  | operand pending place => exact shiftOperand_rejects_eof r ht pending place
  | operator e pending place => exact shiftOperator_rejects_eof r ht e pending place
  | varEnd name =>
    simp only [shift, ht]
    exact .of_fail t (by decide)
  | forInit k =>
    simp only [shift, ht]
    exact shiftOperand_rejects_eof { r with outer := .forInit k :: r.outer } ht _ _
  | forCondition | forStep =>
    simp only [shift, ht, reduceCtorEq, if_false]
    exact shiftOperand_rejects_eof r ht _ _
  | varName | ifParen | whileParen | forParen =>
    simp only [shift, ht, reduceCtorEq, if_false]
    exact .of_fail t (by decide)

end EndOfStream

/-- A reading that the end token has ended: its program is derived from the tokens before, and
its errors are those of the faults. -/
structure Ends (ts : List Token) (r : Reading) : Prop where
  /-- The derivation. -/
  derived : ∃ faults, Program .nearest ts r.program faults ∧ r.errors = faults.map invalidTarget

/-- Where something definite has to come, the end token ends the program or fails. -/
theorem shift_ends {outer : List Outer} {program : List Stmt} {ts us f g : List Token} {t : Token}
    {goal : Goal} (mode : Mode) (hc : Context outer program ts f) (he : Expects outer goal us g)
    (ht : t.kind = .eof) :
    Ends (ts ++ us) (shift ⟨outer, mode, program, (f ++ g).map invalidTarget⟩ goal t) ∨
      Rejects ((f ++ g).map invalidTarget) t
        (shift ⟨outer, mode, program, (f ++ g).map invalidTarget⟩ goal t) := by
  by_cases hgoal : goal = .declaration
  · subst hgoal
    cases he with
    | declaration ho =>
      rw [List.append_nil, List.append_nil]
      rcases ho with rfl | ⟨body, outer', rfl⟩
      · cases hc with
        | top h =>
          left
          simp only [shift, shiftDeclaration, ht]
          exact ⟨f, h, rfl⟩
      · right
        simp only [shift, shiftDeclaration, ht]
        exact .of_fail t (by decide)
  · exact .inr (shift_rejects_eof ⟨outer, mode, program, _⟩ ht hgoal)

/-- The end token ends a reading that accounts for the tokens before, or fails. -/
theorem Accounts.step_eof {ts : List Token} {r : Reading} {t : Token} (h : Accounts ts r)
    (ht : t.kind = .eof) : Ends ts (r.step t) ∨ Rejects r.errors t (r.step t) := by
  obtain ⟨outer, mode, program, errors⟩ := r
  obtain ⟨ts₁, ts₂, f₁, f₂, rfl, rfl, hc, hh⟩ := h
  cases mode with
  | expecting goal => exact shift_ends _ hc hh ht
  | complete s =>
    rcases Completed.step_eq hh hc ((f₁ ++ f₂).map invalidTarget) with
      ⟨hword, -⟩ |
      ⟨outer', program', goal, ts₁', ts₂', f₁', f₂', hts, hf, hctx, hgoal, hstep⟩
    · rw [ht] at hword
      cases hword
    · rw [hstep, hts, hf]
      exact shift_ends _ hctx hgoal ht
  | skipping => exact hh.elim

/-- Before anything is read no token is accounted for. -/
theorem accounts_start : Accounts [] start :=
  ⟨[], [], [], [], rfl, rfl, .top ⟨[], List.forall_mem_nil _, rfl, rfl, rfl⟩,
    .declaration (.inl rfl)⟩

/-- The program of a stream that is read without errors is derived from its tokens. -/
theorem program_of_run {ts : List Token} {t : Token} (hts : ∀ t ∈ ts, t.kind ≠ .eof)
    (ht : t.kind = .eof) (herrors : (start.run (ts ++ [t])).errors = []) :
    Program .nearest ts (start.run (ts ++ [t])).program [] := by
  have hstart := errors_prefix_run (start.run ts) [t]
  rw [← run_append, herrors, List.prefix_nil] at hstart
  have hstep : start.run (ts ++ [t]) = (start.run ts).step t := by rw [run_append]; rfl
  rw [hstep] at herrors ⊢
  have haccounts := accounts_start.run hts hstart
  rcases haccounts.step_eof ht with ⟨faults, hprogram, hfaults⟩ | ⟨-, cause, faults, -, hrejects⟩
  · rw [herrors, List.nil_eq, List.map_eq_nil_iff] at hfaults
    exact hfaults ▸ hprogram
  · rw [herrors] at hrejects
    simp only [List.nil_eq, List.append_eq_nil_iff, List.cons_ne_nil, and_false] at hrejects

/-- No end token stands before the end of a stream. -/
theorem kind_ne_eof_of_mem_beforeEnd {ts : List Token} {t : Token} (h : t ∈ beforeEnd ts) :
    t.kind ≠ .eof := by
  have hall := List.all_takeWhile (p := fun t : Token => decide (t.kind ≠ .eof)) (l := ts)
  exact of_decide_eq_true (List.all_eq_true.mp hall t h)

/-- Where no token is an end token, none is found. -/
theorem find?_eof_eq_none {ts : List Token} (hts : ∀ t ∈ ts, t.kind ≠ .eof) :
    (ts.find? fun t => t.kind = .eof) = none :=
  List.find?_eq_none.mpr fun t ht => by simpa only [decide_eq_true_eq] using hts t ht

section Ends

variable {before after : List Token} {e : Token}

/-- What comes behind an end token is not before the end. -/
theorem beforeEnd_append_end (he : e.kind = .eof) :
    beforeEnd (before ++ e :: after) = beforeEnd before := by
  have hnone : (e :: after).takeWhile (fun t => decide (t.kind ≠ .eof)) = [] :=
    List.takeWhile_cons_of_neg (by simp only [he]; decide)
  rw [beforeEnd, List.takeWhile_append, hnone, List.append_nil]
  split
  · next hlength => exact ((List.takeWhile_prefix _).eq_of_length hlength).symm
  · rfl

/-- The end token of a stream is not behind an end token. -/
theorem endToken_append_end (he : e.kind = .eof) :
    endToken (before ++ e :: after) = (before.find? fun t => t.kind = .eof).getD e := by
  have hfind : (e :: after).find? (fun t => decide (t.kind = .eof)) = some e :=
    List.find?_cons_of_pos (decide_eq_true he)
  rw [endToken, List.find?_append, hfind]
  cases before.find? fun t => decide (t.kind = .eof) <;> rfl

/-- Without an end token everything is before the end. -/
theorem beforeEnd_eq_self {tokens : List Token}
    (h : (tokens.find? fun t => t.kind = .eof) = none) : beforeEnd tokens = tokens := by
  have hall : ∀ t ∈ tokens, decide (t.kind ≠ .eof) = true := fun t ht => by
    have hne := List.find?_eq_none.mp h t ht
    simpa only [decide_eq_true_eq] using hne
  have hbefore : beforeEnd (tokens ++ []) = tokens ++ beforeEnd [] :=
    List.takeWhile_append_of_pos hall
  rwa [List.append_nil, show beforeEnd [] = [] from rfl, List.append_nil] at hbefore

/-- The tokens before the end are all those before a first end token, or all that there are. -/
theorem beforeEnd_eq_of_cut {ts before : List Token} (hbefore : ∀ t ∈ before, t.kind ≠ .eof)
    (hcut : ts = before ∨ ∃ e rest, e.kind = .eof ∧ ts = before ++ e :: rest) :
    beforeEnd ts = before := by
  have hself := beforeEnd_eq_self (find?_eof_eq_none hbefore)
  rcases hcut with rfl | ⟨e, rest, he, rfl⟩
  · exact hself
  · rw [beforeEnd_append_end he, hself]

/-- Every list of tokens is cut at its first end token, or it has none. -/
theorem exists_cut (ts : List Token) :
    ∃ before : List Token, (∀ t ∈ before, t.kind ≠ .eof) ∧
      (ts = before ∨ ∃ e rest, e.kind = .eof ∧ ts = before ++ e :: rest) := by
  cases hfind : ts.find? fun t => t.kind = .eof with
  | none =>
    refine ⟨ts, fun t ht => ?_, .inl rfl⟩
    simpa only [decide_eq_true_eq] using List.find?_eq_none.mp hfind t ht
  | some e =>
    obtain ⟨he, before, rest, rfl, hbefore⟩ := List.find?_eq_some_iff_append.mp hfind
    refine ⟨before, fun t ht => ?_, .inr ⟨e, rest, of_decide_eq_true he, rfl⟩⟩
    simpa only [Bool.not_eq_eq_eq_not, Bool.not_true, decide_eq_false_iff_not] using hbefore t ht

end Ends

/-- The program of a stream is derived from the tokens before its end. -/
theorem program_of_parse {ts : List Token} {program : List Stmt} (h : parse ts = .ok program) :
    Program .nearest (beforeEnd ts) program [] := by
  have hbefore : ∀ t ∈ beforeEnd ts, t.kind ≠ .eof := fun _ => kind_ne_eof_of_mem_beforeEnd
  have hderived := program_of_run hbefore (endToken_kind ts)
  unfold parse at h
  dsimp only at h
  split at h
  · next herrors =>
    cases h
    exact hderived herrors
  · cases h

/-- Every list of tokens is cut at its first end token, or not at all if it has none. It is read as
a program exactly if the tokens before the cut are derived from the grammar, and the program is the
tree of the derivation in which every `else` belongs to the nearest conditional that has none. There
is such a derivation as soon as there is any, so that no program of the grammar is turned down, and
the tree is the only one. -/
theorem parse_eq_ok_iff_program (ts : List Token) :
    ∃ before, (∀ t ∈ before, t.kind ≠ .eof) ∧
      (ts = before ∨ ∃ e rest, e.kind = .eof ∧ ts = before ++ e :: rest) ∧
      (∀ program, parse ts = .ok program ↔ Program .nearest before program []) ∧
      ((∃ program, parse ts = .ok program) ↔ ∃ program, Program .any before program []) := by
  obtain ⟨before, hbefore, hcut⟩ := exists_cut ts
  have hiff (program : List Stmt) : parse ts = .ok program ↔ Program .nearest before program [] :=
    beforeEnd_eq_of_cut hbefore hcut ▸ ⟨program_of_parse, Program.parse_eq⟩
  exact ⟨before, hbefore, hcut, hiff, by simp only [hiff, exists_program_iff]⟩

/-- Tokens behind an end token are not read, an `else` belongs to the conditional inside another, and
a statement without its semicolon is turned down. -/
theorem parse_eq_ok_iff_program_of_dangling :
    let token (kind : Kind) : Token := ⟨kind, [], none, 1⟩
    let branch : List Token := [token (.word .nil), token (.sign .semicolon)]
    let condition : List Token :=
      [token (.word .if_), token (.sign .leftParen), token (.word .true_), token (.sign .rightParen)]
    let before : List Token := condition ++ condition ++ branch ++ token (.word .else_) :: branch
    let statement : Stmt := .expression (.literal (some .nil))
    let conditional (s t : Stmt) : Stmt :=
      .conditional (token (.word .if_)) (.literal (some (.bool true))) s t
    let program : List Stmt := [conditional (conditional statement statement) .absent]
    parse (before ++ [token .eof, token (.word .else_)]) = .ok program ∧
      Program .nearest before program [] ∧
      parse [token (.word .nil)] = .error [⟨.semicolonAfterExpression, 1⟩] ∧
      ¬ ∃ program, Program .any [token (.word .nil)] program [] := by
  intro token branch condition before statement conditional program
  have hparse : parse (before ++ [token .eof, token (.word .else_)]) = .ok program := rfl
  have hrejected : parse [token (.word .nil)] = .error [⟨.semicolonAfterExpression, 1⟩] := rfl
  obtain ⟨before', hbefore, hcut, hiff, -⟩ :=
    parse_eq_ok_iff_program (before ++ [token .eof, token (.word .else_)])
  obtain rfl : before = before' := beforeEnd_eq_of_cut hbefore hcut
  obtain ⟨before', hbefore, hcut, -, hany⟩ := parse_eq_ok_iff_program [token (.word .nil)]
  obtain rfl : [token (.word .nil)] = before' := beforeEnd_eq_of_cut hbefore hcut
  refine ⟨hparse, (hiff program).mp hparse, hrejected, fun hprogram => ?_⟩
  obtain ⟨program', hok⟩ := hany.mpr hprogram
  rw [hrejected] at hok
  cases hok

end Lox.Grammar
