import Lox.Proofs.Grammar.Boundaries

/-!
# Where reading resumes

A token that cannot continue a program is dropped together with what follows it, up to a semicolon
or to a word that starts a statement; behind the semicolon, or at the word, reading starts afresh.
The token at fault itself is dropped whatever it is. A statement that lacks its semicolon is
therefore told at the word that starts the next one, and that word is lost: the errors of the next
statement are those of what is left of it where reading resumes. Only if the tokens dropped with the
word are a whole statement do the errors of the rest stay what they are without the first statement.
-/

namespace Lox.Grammar

open Reading

/-- What is left of the tokens behind one at fault where reading resumes: what follows the first
semicolon, or what begins with a word that starts a statement if there is one before it. -/
def resumption : List Token → List Token
  | [] => []
  | t :: ts =>
    if t.kind.startsStatement then t :: ts
    else if t.kind = .sign .semicolon then ts else resumption ts

/-- The tokens behind one at fault that are dropped with it. -/
def dropped : List Token → List Token
  | [] => []
  | t :: ts =>
    if t.kind.startsStatement then []
    else if t.kind = .sign .semicolon then [t] else t :: dropped ts

/-- What is dropped and what is left make up the tokens. -/
theorem dropped_append_resumption (ts : List Token) : dropped ts ++ resumption ts = ts := by
  induction ts with
  | nil => rfl
  | cons t ts ih =>
    unfold dropped resumption
    split
    · rfl
    · split
      · rfl
      · rw [List.cons_append, ih]

/-- A token behind a failure at which reading resumes is taken as at the start. -/
theorem step_resumes {previous t : Token} {program : List Stmt} {errors : List GrammarError}
    (h : previous.kind = .sign .semicolon ∨ t.kind.startsStatement = true) :
    step ⟨[], .skipping previous, program, errors⟩ t = (start.after program errors).step t := by
  have hresumes : (decide (previous.kind = .sign .semicolon) || t.kind.startsStatement) = true := by
    rcases h with h | h <;> simp only [h, decide_true, Bool.true_or, Bool.or_true]
  simp only [step, hresumes, if_true, after, start, List.append_nil]
  exact shiftDeclaration_mode _ _

/-- Behind a failure the errors are those so far and then those of what is left where reading
resumes. -/
theorem errors_run_skipping {previous e : Token} {program : List Stmt}
    {errors : List GrammarError} (hprevious : previous.kind ≠ .sign .semicolon)
    (he : e.kind = .eof) (ts : List Token) :
    (run ⟨[], .skipping previous, program, errors⟩ (ts ++ [e])).errors =
      errors ++ (start.run (resumption ts ++ [e])).errors := by
  have hafter (us : List Token) :
      ((start.after program errors).run us).errors = errors ++ (start.run us).errors := by
    rw [run_after]
    rfl
  induction ts generalizing previous with
  | nil =>
    have hstarts : e.kind.startsStatement = false := by rw [he]; rfl
    have hend : (start.run [e]).errors = [] := by
      simp only [run, List.foldl_cons, List.foldl_nil, start, step, shift, shiftDeclaration, he]
      rfl
    simp only [resumption, List.nil_append, hend, List.append_nil]
    simp only [run, List.foldl_cons, List.foldl_nil, step, hprevious, hstarts, decide_false,
      Bool.or_self, Bool.false_eq_true, if_false]
  | cons t ts ih =>
    unfold resumption
    split
    · next ht =>
      rw [← hafter]
      exact congrArg Reading.errors (run_congr_head (step_resumes (.inr ht)))
    · next ht =>
      have hdrop : step ⟨[], .skipping previous, program, errors⟩ t =
          ⟨[], .skipping t, program, errors⟩ := by
        simp only [step, hprevious, ht, decide_false, Bool.or_self, Bool.false_eq_true, if_false]
      have hrun : run ⟨[], .skipping previous, program, errors⟩ (t :: ts ++ [e]) =
          run ⟨[], .skipping t, program, errors⟩ (ts ++ [e]) := by
        rw [List.cons_append, run, List.foldl_cons, hdrop]
        rfl
      rw [hrun]
      split
      · next hsemi =>
        obtain ⟨u, us, hu⟩ := List.exists_cons_of_ne_nil (l := ts ++ [e]) (by simp)
        rw [hu, ← hafter]
        exact congrArg Reading.errors (run_congr_head (step_resumes (.inl hsemi)))
      · next hsemi => exact ih hsemi

/-- The errors of a statement that lacks its semicolon, by what the semicolon would end. -/
def unended : List GrammarCause :=
  [.semicolonAfterVariable, .semicolonAfterValue, .semicolonAfterExpression]

/-- Only a semicolon is missing: any token that neither is one nor carries an expression on fails
for the lack of it. -/
def Awaits (r : Reading) (goal : Goal) : Prop :=
  ∀ t : Token, t.kind ≠ .sign .semicolon → t.kind ≠ .sign .equal → t.kind.level = 0 →
    ∃ cause ∈ unended, r.shift goal t = r.fail t cause

/-- A failure is an error more. -/
theorem errors_fail_ne {r : Reading} {t : Token} {cause : GrammarCause} :
    (r.fail t cause).errors ≠ r.errors := by
  simp only [fail, ne_eq, List.append_right_eq_self, List.cons_ne_nil, not_false_eq_true]

/-- A token behind a whole expression takes no error back. -/
theorem errors_prefix_shiftEnd (r : Reading) (e : Expr) (place : Place) (t : Token) :
    r.errors <+: (r.shiftEnd e place t).errors := by
  have hafter := shiftEnd_after r.program r.errors ⟨r.outer, r.mode, [], []⟩ t e place
  rw [← eq_after] at hafter
  rw [hafter]
  exact List.prefix_append _ _

section Semicolon

variable {r : Reading} {semi : Token} (hsemi : semi.kind = .sign .semicolon)

include hsemi

/-- A semicolon behind a whole expression, if it is no failure, ends a statement that lacks nothing
else, or the second clause of a `for`. -/
theorem shiftEnd_semicolon {e : Expr} {place : Place}
    (herrors : (r.shiftEnd e place semi).errors = r.errors) :
    (∃ goal, (r.shiftEnd e place semi).mode = .expecting goal ∧ goal ≠ .declaration) ∨
      ∀ t : Token, t.kind ≠ .sign .semicolon →
        ∃ cause ∈ unended, r.shiftEnd e place t = r.fail t cause := by
  cases place with
  | statement =>
    exact .inr fun t ht => ⟨.semicolonAfterExpression, by decide, if_neg ht⟩
  | printed => exact .inr fun t ht => ⟨.semicolonAfterValue, by decide, if_neg ht⟩
  | initializer => exact .inr fun t ht => ⟨.semicolonAfterVariable, by decide, if_neg ht⟩
  | forCondition keyword init =>
    simp only [shiftEnd, hsemi, if_true]
    exact .inl ⟨_, rfl, fun h => by cases h⟩
  | ifCondition | whileCondition | forStep =>
    simp only [shiftEnd, hsemi, Kind.sign.injEq, reduceCtorEq, if_false] at herrors
    exact absurd herrors errors_fail_ne

/-- A semicolon behind an operand, if it brings no error, ends a statement that lacks nothing else,
or the second clause of a `for`. -/
theorem shiftOperator_semicolon {e : Expr} {pending : List Pending} {place : Place}
    (herrors : (r.shiftOperator e pending place semi).errors = r.errors) :
    (∃ goal, (r.shiftOperator e pending place semi).mode = .expecting goal ∧
      goal ≠ .declaration) ∨ Awaits r (.operator e pending place) := by
  have hlevel : ¬ 0 < semi.kind.level := by rw [hsemi]; decide
  have hequal : semi.kind ≠ .sign .equal := by rw [hsemi]; decide
  unfold Awaits
  simp only [shift]
  unfold shiftOperator at herrors ⊢
  rw [if_neg hlevel, if_neg hequal] at herrors ⊢
  generalize close e pending = closed at herrors ⊢
  obtain ⟨whole, rest, faults⟩ := closed
  dsimp only at herrors ⊢
  cases rest with
  | cons =>
    have hparen : semi.kind ≠ .sign .rightParen := by rw [hsemi]; decide
    dsimp only at herrors
    rw [if_neg hparen] at herrors
    have hlength := congrArg List.length herrors
    simp only [fail, List.length_append, List.length_singleton] at hlength
    omega
  | nil =>
    have hkept := errors_prefix_shiftEnd { r with errors := r.errors ++ faults } whole place semi
    rw [herrors] at hkept
    have hfaults : faults = [] :=
      List.append_right_eq_self.mp (hkept.eq_of_length_le (by simp))
    simp only [hfaults, List.append_nil] at herrors ⊢
    refine (shiftEnd_semicolon hsemi herrors).imp_right fun hfails t ht hequal hlevel => ?_
    rw [if_neg (by omega), if_neg hequal]
    exact hfails t ht

/-- A semicolon where something definite has to come, if it brings no error, ends a statement that
lacks nothing else, or a clause of a `for`. -/
theorem shift_semicolon {goal : Goal} (herrors : (r.shift goal semi).errors = r.errors) :
    (∃ goal', (r.shift goal semi).mode = .expecting goal' ∧ goal' ≠ .declaration) ∨
      Awaits r goal := by
  have hoperand (r : Reading) (pending : List Pending) (place : Place) :
      (r.shiftOperand pending place semi).errors ≠ r.errors := by
    simp only [shiftOperand, hsemi]
    exact errors_fail_ne
  have hstatement : (r.shiftStatement semi).errors ≠ r.errors := by
    simp only [shiftStatement, hsemi]
    exact hoperand r _ _
  cases goal with
  | declaration =>
    have hdeclaration : r.shift .declaration semi = r.shiftStatement semi := by
      simp only [shift, shiftDeclaration, hsemi]
    exact absurd (hdeclaration ▸ herrors) hstatement
  | statement => exact absurd herrors hstatement
  | operand pending place => exact absurd herrors (hoperand r pending place)
  | operator e pending place => exact shiftOperator_semicolon hsemi herrors
  | varEnd name =>
    refine .inr fun t ht hequal _ => ⟨.semicolonAfterVariable, by decide, ?_⟩
    simp only [shift]
  | forInit keyword =>
    have hmode : (r.shift (.forInit keyword) semi).mode =
        .expecting (.forCondition keyword none) := by
      simp only [shift, hsemi]
      rfl
    exact .inl ⟨_, hmode, fun h => by cases h⟩
  | forCondition keyword init =>
    have hmode : (r.shift (.forCondition keyword init) semi).mode =
        .expecting (.forStep keyword init none) := by
      simp only [shift, hsemi, if_true]
      rfl
    exact .inl ⟨_, hmode, fun h => by cases h⟩
  | forStep keyword init condition =>
    simp only [shift, hsemi, Kind.sign.injEq, reduceCtorEq, if_false] at herrors
    exact absurd herrors (hoperand r _ _)
  | varName | ifParen | whileParen | forParen =>
    simp only [shift, hsemi, Kind.sign.injEq, reduceCtorEq, if_false] at herrors
    exact absurd herrors errors_fail_ne

/-- If a semicolon and the end behind it bring no error, and no tokens are dropped, then only the
semicolon is missing: any token that neither is one nor carries the statement on fails for the lack
of it. -/
theorem step_fails_of_ends {e t : Token} (he : e.kind = .eof)
    (hmode : ∀ previous, r.mode ≠ .skipping previous)
    (hends : (r.run [semi, e]).errors = r.errors) (ht : t.kind ≠ .sign .semicolon)
    (hequal : t.kind ≠ .sign .equal) (hlevel : t.kind.level = 0) (helse : t.kind ≠ .word .else_) :
    ∃ cause ∈ unended, ∃ program,
      r.step t = ⟨[], .skipping t, program, r.errors ++ [⟨cause, t.line⟩]⟩ := by
  have hstep : (r.step semi).errors = r.errors := by
    have hkept : (r.step semi).errors <+: (r.run [semi, e]).errors :=
      errors_prefix_run (r.step semi) [e]
    rw [hends] at hkept
    exact hkept.eq_of_length_le (errors_prefix_run r [semi]).length_le
  -- What does not end with the semicolon does not end with the end token either.
  have hends' : ¬ ∃ goal, (r.step semi).mode = .expecting goal ∧ goal ≠ .declaration := by
    rintro ⟨goal, hexpecting, hgoal⟩
    obtain ⟨-, cause, faults, -, herrors⟩ := shift_rejects_eof (r.step semi) he hgoal
    have hshift : r.run [semi, e] = (r.step semi).shift goal e := by
      simp only [run, List.foldl_cons, List.foldl_nil]
      rw [step, hexpecting]
    rw [← hshift, hends, hstep] at herrors
    have hlength := congrArg List.length herrors
    simp only [List.length_append, List.length_singleton] at hlength
    omega
  cases hm : r.mode with
  | skipping previous => exact absurd hm (hmode previous)
  | expecting goal =>
    have heq (u : Token) : r.step u = r.shift goal u := by rw [step, hm]
    rw [heq] at hstep hends' ⊢
    obtain ⟨cause, hcause, hfail⟩ :=
      (shift_semicolon hsemi hstep).resolve_left hends' t ht hequal hlevel
    exact ⟨cause, hcause, r.program, hfail⟩
  | complete s =>
    have heq (u : Token) (hu : u.kind ≠ .word .else_) :
        r.step u = (r.conclude s r.outer).1.shift (r.conclude s r.outer).2 u := by
      rw [step, hm]
      simp only [if_neg hu]
    have hsemi' : semi.kind ≠ .word .else_ := by rw [hsemi]; decide
    rw [heq semi hsemi'] at hstep hends'
    rw [← errors_conclude r s r.outer] at hstep ⊢
    rw [heq t helse]
    obtain ⟨cause, hcause, hfail⟩ :=
      (shift_semicolon hsemi hstep).resolve_left hends' t ht hequal hlevel
    exact ⟨cause, hcause, _, hfail⟩

end Semicolon

/-- The words that start a statement of the language, or a declaration. -/
def statementWords : List Kind :=
  [.word .var, .word .for_, .word .if_, .word .while_, .word .print]

/-- Nothing is dropped as long as there is no error. -/
theorem mode_ne_skipping {ts : List Token} (hts : ∀ t ∈ ts, t.kind ≠ .eof)
    (herrors : (start.run ts).errors = []) (previous : Token) :
    (start.run ts).mode ≠ .skipping previous := by
  intro hmode
  obtain ⟨_, _, _, _, -, -, -, hholds⟩ := accounts_start.run hts herrors
  rw [hmode] at hholds
  exact hholds

/-- A broken statement has errors. -/
theorem Broken.errorsOf_ne_nil {ts : List Token} (h : Broken ts)
    (hts : ∀ t ∈ ts, t.kind ≠ .eof) : errorsOf ts ≠ [] := by
  obtain ⟨error, herror, -⟩ := h.breaks
  rw [errorsOf_eq_run hts [], run_append]
  exact List.ne_nil_of_mem ((errors_prefix_run _ _).subset herror)

section MissingSemicolon

variable {a b : List Token} {semi k : Token} {program : List Stmt}

/-- Behind tokens that make a program with a semicolon, a word that starts a statement or a
declaration fails for the lack of it. -/
theorem step_fails_of_parse (ha : ∀ t ∈ a, t.kind ≠ .eof) (hsemi : semi.kind = .sign .semicolon)
    (hk : k.kind ∈ statementWords) (h : parse (a ++ [semi]) = .ok program) :
    ∃ cause ∈ unended, ∃ program',
      (start.run a).step k = ⟨[], .skipping k, program', [⟨cause, k.line⟩]⟩ := by
  have hends : ∀ t ∈ a ++ [semi], t.kind ≠ .eof :=
    List.forall_mem_append.mpr ⟨ha, List.forall_mem_singleton.mpr (by rw [hsemi]; nofun)⟩
  have herrors := errorsOf_eq_run hends []
  rw [errorsOf, h, List.append_assoc, run_append] at herrors
  have hnone : (start.run a).errors = [] := by
    have hkept := errors_prefix_run (start.run a) [semi, Token.eof (streamLine ([] ++ (a ++ [semi])))]
    rw [List.singleton_append] at herrors
    rw [← herrors] at hkept
    exact List.prefix_nil.mp hkept
  have hwords : ∀ kind ∈ statementWords, kind ≠ .sign .semicolon ∧ kind ≠ .sign .equal ∧
      kind.level = 0 ∧ kind ≠ .word .else_ := by decide
  obtain ⟨ht, hequal, hlevel, helse⟩ := hwords k.kind hk
  have hfails := step_fails_of_ends hsemi rfl (mode_ne_skipping ha hnone)
    (hnone.symm ▸ herrors.symm) ht hequal hlevel helse
  rwa [hnone] at hfails

/-- The word is told for the lack of the semicolon, and the errors behind it are those of what is
left where reading resumes. -/
theorem errorsOf_append_word (ha : ∀ t ∈ a, t.kind ≠ .eof) (hb : ∀ t ∈ b, t.kind ≠ .eof)
    (hsemi : semi.kind = .sign .semicolon) (hk : k.kind ∈ statementWords)
    (h : parse (a ++ [semi]) = .ok program) :
    ∃ cause ∈ unended, errorsOf (a ++ k :: b) = ⟨cause, k.line⟩ :: errorsOf (resumption b) := by
  obtain ⟨cause, hcause, program', hstep⟩ := step_fails_of_parse ha hsemi hk h
  have hwords : ∀ kind ∈ statementWords, kind ≠ .eof ∧ kind ≠ .sign .semicolon := by decide
  obtain ⟨heof, hword⟩ := hwords k.kind hk
  have hall : ∀ t ∈ a ++ k :: b, t.kind ≠ .eof :=
    List.forall_mem_append.mpr ⟨ha, List.forall_mem_cons.mpr ⟨heof, hb⟩⟩
  have hrest : ∀ t ∈ resumption b, t.kind ≠ .eof := fun t ht =>
    hb t (dropped_append_resumption b ▸ List.mem_append_right _ ht)
  have hsplit : a ++ k :: dropped b ++ resumption b = a ++ k :: b := by
    rw [List.append_assoc, List.cons_append, dropped_append_resumption]
  refine ⟨cause, hcause, ?_⟩
  rw [errorsOf_eq_run hall [], errorsOf_eq_run hrest (a ++ k :: dropped b), hsplit,
    List.nil_append, List.append_assoc, run_append, List.cons_append, run, List.foldl_cons, hstep]
  exact errors_run_skipping hword rfl b

/-- A missing semicolon is told at the word that starts the next statement or declaration, and that
word is dropped: the errors that follow are those of what is left where reading resumes. So the
errors of the next statement and of all behind it follow exactly if they are the same as those of
what is left. They are if what is dropped is a program by itself, and no `else` is left behind it. If
it is a broken statement, its errors are hidden. -/
theorem missing_semicolon_drops_next_word (ha : ∀ t ∈ a, t.kind ≠ .eof)
    (hb : ∀ t ∈ b, t.kind ≠ .eof) (hsemi : semi.kind = .sign .semicolon)
    (hk : k.kind ∈ statementWords) (h : parse (a ++ [semi]) = .ok program) :
    ∃ cause ∈ unended,
      errorsOf (a ++ k :: b) = ⟨cause, k.line⟩ :: errorsOf (resumption b) ∧
      (errorsOf (a ++ k :: b) = ⟨cause, k.line⟩ :: errorsOf (k :: b) ↔
        errorsOf (resumption b) = errorsOf (k :: b)) ∧
      (∀ program', parse (k :: dropped b) = .ok program' →
        (∀ t ∈ (resumption b).head?, t.kind ≠ .word .else_) →
        errorsOf (resumption b) = errorsOf (k :: b)) ∧
      (Broken (k :: dropped b) →
        errorsOf (k :: b) = errorsOf (k :: dropped b) ++ errorsOf (resumption b) ∧
        errorsOf (k :: dropped b) ≠ []) := by
  obtain ⟨cause, hcause, herrors⟩ := errorsOf_append_word ha hb hsemi hk h
  have hwords : ∀ kind ∈ statementWords, kind ≠ .eof := by decide
  have hsplit : k :: b = k :: dropped b ++ resumption b := by
    rw [List.cons_append, dropped_append_resumption]
  obtain ⟨hfirst, hrest⟩ := List.forall_mem_append.mp (dropped_append_resumption b ▸ hb)
  have hnext : ∀ t ∈ k :: dropped b, t.kind ≠ .eof :=
    List.forall_mem_cons.mpr ⟨hwords k.kind hk, hfirst⟩
  refine ⟨cause, hcause, herrors, ?_, fun program' hparse helse => ?_, fun hbroken => ⟨?_, ?_⟩⟩
  · rw [herrors, List.cons_inj_right]
  · rw [hsplit, errorsOf_append_of_parse hnext hrest hparse helse]
  · rw [hsplit, hbroken.errorsOf_append hnext hrest]
  · exact hbroken.errorsOf_ne_nil hnext

end MissingSemicolon

/-- `print nil` before `var a; print ;` lacks its semicolon. The declaration is dropped, and the
error of the statement behind it stays. -/
theorem missing_semicolon_drops_next_word_of_declaration :
    let a := [.word .print, .word .nil].map ofKind
    let k := ofKind (.word .var)
    let b := [.identifier, .sign .semicolon, .word .print, .sign .semicolon].map ofKind
    parse (a ++ [ofKind (.sign .semicolon)]) =
        .ok [.print (ofKind (.word .print)) (.literal (some .nil))] ∧
      parse (k :: dropped b) = .ok [.var (ofKind .identifier) .absent] ∧
      ∃ cause ∈ unended,
        errorsOf (a ++ k :: b) = ⟨cause, 1⟩ :: errorsOf (k :: b) ∧
          errorsOf (k :: b) = [⟨.expectExpression, 1⟩] := by
  intro a k b
  have hparse : parse (a ++ [ofKind (.sign .semicolon)]) =
      .ok [.print (ofKind (.word .print)) (.literal (some .nil))] := rfl
  have hdropped : parse (k :: dropped b) = .ok [.var (ofKind .identifier) .absent] := rfl
  obtain ⟨cause, hcause, -, hiff, hwhole, -⟩ :=
    @missing_semicolon_drops_next_word a b (ofKind (.sign .semicolon)) k _ (by decide) (by decide)
      rfl (by decide) hparse
  exact ⟨hparse, hdropped, cause, hcause, hiff.mpr (hwhole _ hdropped (by decide)), by decide⟩

/-- `print nil` before `var = nil;` lacks its semicolon, and with the word `var` the error of the
declaration is lost: only the missing semicolon is told. -/
theorem missing_semicolon_hides_next_error :
    let a := [.word .print, .word .nil].map ofKind
    let b := [.word .var, .sign .equal, .word .nil, .sign .semicolon].map ofKind
    (∃ s, parse (a ++ [ofKind (.sign .semicolon)]) = .ok [s]) ∧ errorsOf a ≠ [] ∧
      errorsOf b = [⟨.expectVariableName, 1⟩] ∧
      errorsOf (a ++ b) = [⟨.semicolonAfterValue, 1⟩] ∧
      ∀ error, errorsOf (a ++ b) ≠ error :: errorsOf b := by
  intro a b
  have hb : errorsOf b = [⟨.expectVariableName, 1⟩] := by decide
  have hboth : errorsOf (a ++ b) = [⟨.semicolonAfterValue, 1⟩] := by decide
  refine ⟨⟨_, rfl⟩, by decide, hb, hboth, fun error heq => ?_⟩
  rw [hb, hboth] at heq
  cases heq

end Lox.Grammar
