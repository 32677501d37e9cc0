import Lox.Proofs.Descent.Statements
import Lox.Proofs.Grammar.Soundness

/-!
# Reading by descent is total and safe

On every stream whatsoever the outermost procedure of the descent ends, asks for no token outside
the stream and lets no error through, and what it returns are the statements or the errors that
reading gives. The tokens behind the first end token have no influence on either.
-/

namespace Lox.Descent

open Grammar Procedure Reading

variable {ts : List Token} {e : Token} {program : List Stmt}

/-- The statements and the errors of a reading, which is all that is left of it in the end. -/
def outcome (r : Reading) : List Stmt × List GrammarError := (r.program, r.errors)

/-- Dropping tokens after an error keeps pace: both stop at the same token, and the descent has a
token behind it all the while. -/
theorem runAt_skip {p : Nat} {previous : Token} {rest : List Token}
    (h : Left ts e p (previous :: rest)) (errors : List GrammarError) (program : List Stmt) :
    ∃ us rest', rest = us ++ rest' ∧
      (skip ts).runAt ⟨p + 1, errors⟩ = some (.ok (), ⟨p + 1 + us.length, errors⟩) ∧
      outcome (run ⟨[], .skipping previous, program, errors⟩ (rest ++ [e])) =
        outcome (run (goalReading .declaration [] program errors) (rest' ++ [e])) := by
  induction rest generalizing p previous with
  | nil =>
    have heof := h.isEnd
    refine ⟨[], [], rfl, ?_, ?_⟩
    · rw [skip.eq_def, runAt_bind_ok (h.tail.runAt_isAtEnd errors)]
      rfl
    · simp only [run, List.nil_append, List.foldl_cons, List.foldl_nil, goalReading, step, shift,
        shiftDeclaration, heof, expect]
      split <;> rfl
  | cons t rest ih =>
    have hskip : (skip ts).runAt ⟨p + 1, errors⟩ =
        if previous.kind = .sign .semicolon ∨ t.kind.startsStatement = true then
          some (.ok (), ⟨p + 1, errors⟩)
        else (skip ts).runAt ⟨p + 1 + 1, errors⟩ := by
      conv =>
        lhs
        rw [skip.eq_def, runAt_bind_ok (h.tail.runAt_isAtEnd errors)]
      simp only [reduceCtorEq, decide_false, Bool.false_eq_true, if_false]
      rw [runAt_bind_ok (h.runAt_previous errors)]
      by_cases hsemi : previous.kind = .sign .semicolon
      · simp only [List.headD_cons, hsemi, true_or, if_true]
        rfl
      · simp only [List.headD_cons, hsemi, false_or, if_false]
        rw [runAt_bind_ok (h.tail.runAt_peek errors), List.headD_cons]
        by_cases hstarts : t.kind.startsStatement = true
        · simp only [hstarts, if_true]
          rfl
        · simp only [if_neg hstarts]
          rw [runAt_bind_ok (h.tail.runAt_advance errors)]
    by_cases hstop : previous.kind = .sign .semicolon ∨ t.kind.startsStatement = true
    · refine ⟨[], t :: rest, rfl, by rw [hskip, if_pos hstop]; rfl, ?_⟩
      have hstep : step ⟨[], .skipping previous, program, errors⟩ t =
          (goalReading .declaration [] program errors).step t := by
        simp only [step, goalReading, Bool.or_eq_true, decide_eq_true_eq, if_pos hstop]
        exact shiftDeclaration_mode _ _
      rw [List.cons_append, run_congr_head hstep]
    · obtain ⟨us, rest', rfl, hrun, hrest⟩ := ih h.tail
      have hstep : step ⟨[], .skipping previous, program, errors⟩ t =
          ⟨[], .skipping t, program, errors⟩ := by
        simp only [step, Bool.or_eq_true, decide_eq_true_eq, if_neg hstop]
      refine ⟨t :: us, rest', rfl, ?_, ?_⟩
      · rw [hskip, if_neg hstop, hrun, List.length_cons]
        congr 3
        omega
      · rw [List.cons_append, run, List.foldl_cons, hstep, ← run, hrest]

/-- Moving on from the token of an error keeps pace. At the end token the cursor stays, and there
is a token behind it because some were taken. -/
theorem runAt_synchronize {p : Nat} {us rest : List Token} (h : Left ts e p (us ++ rest))
    (hne : us ++ rest ≠ []) (errors : List GrammarError) (program : List Stmt) :
    ∃ q rest', rest'.length < (us ++ rest).length ∧ Left ts e q rest' ∧
      (synchronize ts).runAt ⟨p + us.length, errors⟩ = some (.ok (), ⟨q, errors⟩) ∧
      outcome (run ⟨[], .skipping (rest.headD e), program, errors⟩ (rest ++ [e]).tail) =
        outcome (run (goalReading .declaration [] program errors) (rest' ++ [e])) := by
  have hhere : Left ts e (p + us.length) rest := h.append
  cases rest with
  | nil =>
    rw [List.append_nil] at h hne ⊢
    obtain ⟨us, t, rfl⟩ := List.eq_nil_or_concat us |>.resolve_left hne
    rw [List.concat_eq_append] at h hhere ⊢
    have hlast : Left ts e (p + us.length) [t] := h.append
    have hposition : p + (us ++ [t]).length = p + us.length + 1 := by
      rw [List.length_append, List.length_singleton]
      omega
    refine ⟨p + (us ++ [t]).length, [], ?_, hhere, ?_, ?_⟩
    · simp only [List.length_nil, List.length_append, List.length_singleton]
      omega
    · rw [synchronize, hposition, runAt_bind_ok (hlast.runAt_advance_end errors), skip.eq_def,
        runAt_bind_ok (hlast.tail.runAt_isAtEnd errors)]
      rfl
    · simp only [run, List.nil_append, List.tail_cons, List.foldl_cons, List.foldl_nil,
        goalReading, step, shift, shiftDeclaration, h.isEnd, expect, outcome]
  | cons t rest =>
    obtain ⟨vs, rest', rfl, hskip, houtcome⟩ := runAt_skip hhere errors program
    refine ⟨p + us.length + 1 + vs.length, rest', ?_, hhere.tail.append, ?_, houtcome⟩
    · simp only [List.length_append, List.length_cons]
      omega
    · rw [synchronize, runAt_bind_ok (hhere.runAt_advance errors), hskip]

/-- A declaration without an error is kept. -/
theorem runAt_recovering_of_ok {c c' : Cursor} {s : Stmt}
    (h : (declaration ts).runAt c = some (.ok s, c')) :
    (recovering ts).runAt c = some (.ok (some s), c') := by
  rw [recovering, runAt_tryCatch_ok]
  exact runAt_bind_ok h _

/-- A declaration with an error is dropped and the error reported, wherever the cursor is moved. -/
theorem runAt_recovering_of_raised {c : Cursor} {p q : Nat} {errors : List GrammarError}
    {error : GrammarError}
    (h : (declaration ts).runAt c = some (.error (.raised error), ⟨p, errors⟩))
    (hsynchronize : (synchronize ts).runAt ⟨p, errors ++ [error]⟩ =
      some (.ok (), ⟨q, errors ++ [error]⟩)) :
    (recovering ts).runAt c = some (.ok none, ⟨q, errors ++ [error]⟩) := by
  have hreport : (report error).runAt ⟨p, errors⟩ = some (.ok (), ⟨p, errors ++ [error]⟩) := rfl
  rw [recovering, runAt_tryCatch_error (runAt_bind_error h _), runAt_bind_ok hreport,
    runAt_bind_ok hsynchronize]
  rfl

/-- What a reading makes of the next token and of those behind it. -/
theorem run_next (r : Reading) (us rest : List Token) :
    r.run (us ++ rest ++ [e]) = ((r.run us).step (rest.headD e)).run (rest ++ [e]).tail := by
  rw [List.append_assoc, run_append]
  cases rest <;> rfl

/-- The outermost procedure ends with the statements and the errors of the reading. Each round
takes a token, be it for a declaration or for an error. -/
theorem runAt_declarations {p : Nat} {body : List Token} (h : Left ts e p body)
    (errors : List GrammarError) (program : List Stmt) {r : Reading}
    (hr : outcome (run (goalReading .declaration [] program errors) (body ++ [e])) = outcome r) :
    ∃ q, (declarations ts program).runAt ⟨p, errors⟩ = some (.ok r.program, ⟨q, r.errors⟩) := by
  induction hn : body.length using Nat.strongRecOn generalizing p body errors program with
  | ind n ih =>
    subst hn
    rw [declarations.eq_def]
    simp only [bind_pure]
    rw [runAt_bind_ok (h.runAt_isAtEnd errors)]
    by_cases hbody : body = []
    · subst hbody
      have hend := h.isEnd
      simp only [run, List.nil_append, List.foldl_cons, List.foldl_nil, goalReading, step, shift,
        shiftDeclaration, hend, expect, outcome, Prod.mk.injEq] at hr
      obtain ⟨rfl, rfl⟩ := hr
      exact ⟨p, rfl⟩
    · simp only [hbody, decide_false, Bool.false_eq_true, if_false]
      have heof : (body.headD e).kind ≠ .eof := fun heof => hbody (h.eof_iff.mp heof)
      have hdeclaration : Follows ts e program (declaration ts) body errors
          (goalReading .declaration [] program errors) (fun us _ => us ≠ [])
          (completeReading [] program) :=
        declaration_follows errors (statement_follows body.length) heof fun _ => rfl
      obtain ⟨us, rest, errors', rfl, ⟨s, hrun, hus, hstep⟩ | ⟨g, hrun, hstep⟩⟩ :=
        hdeclaration p h
      · rw [runAt_bind_ok (runAt_recovering_of_ok hrun)]
        have hlength : rest.length < (us ++ rest).length := by
          have hpos := List.length_pos_iff.mpr hus
          rw [List.length_append]
          omega
        have hkept : (completeReading [] program s errors').step (rest.headD e) =
            (goalReading .declaration [] (program ++ [s]) errors').step (rest.headD e) := by
          simp only [completeReading, goalReading, step, attachElse?, ite_self, conclude, shift]
          exact shiftDeclaration_mode _ _
        have hrest := run_next (e := e) (goalReading .declaration [] (program ++ [s]) errors') []
          rest
        refine ih rest.length hlength h.append errors' (program ++ [s]) ?_ rfl
        rw [← hr, run_next, hstep, hkept]
        exact congrArg outcome hrest
      · obtain ⟨q, rest', hlength, hleft, hsynchronize, houtcome⟩ :=
          runAt_synchronize h hbody (errors' ++ [g]) program
        rw [runAt_bind_ok (runAt_recovering_of_raised hrun hsynchronize)]
        refine ih rest'.length hlength hleft (errors' ++ [g]) program ?_ rfl
        rw [← houtcome, ← hr, run_next, hstep]

section Ends

variable {before after : List Token}

/-- At most an end token on the last line is put behind a stream. -/
theorem ended_eq_or (tokens : List Token) :
    ended tokens = tokens ∧ (tokens.find? fun t => t.kind = .eof) ≠ none ∨
      ended tokens = tokens ++ [Token.eof (streamLine tokens)] := by
  unfold ended
  split
  · next t hlast =>
    by_cases ht : t.kind = .eof
    · rw [if_pos ht]
      refine .inl ⟨rfl, fun hnone => ?_⟩
      have hne := List.find?_eq_none.mp hnone t (List.mem_of_getLast? hlast)
      exact hne (decide_eq_true ht)
    · rw [if_neg ht]
      exact .inr rfl
  · next hlast =>
    rw [List.getLast?_eq_none_iff] at hlast
    rw [hlast]
    exact .inr rfl

/-- A stream with its end is the tokens before the first end token, that token, and whatever
follows. -/
theorem exists_ended_eq (tokens : List Token) :
    ∃ tail, ended tokens = beforeEnd tokens ++ endToken tokens :: tail := by
  cases hfind : tokens.find? fun t => t.kind = .eof with
  | none =>
    have hended := (ended_eq_or tokens).resolve_left fun h => h.2 hfind
    have hend : endToken tokens = Token.eof (streamLine tokens) := by
      rw [endToken, hfind]
    exact ⟨[], by rw [hended, beforeEnd_eq_self hfind, hend]⟩
  | some t =>
    obtain ⟨ht, before, after, rfl, hbefore⟩ := List.find?_eq_some_iff_append.mp hfind
    have hnone : (before.find? fun t => decide (t.kind = .eof)) = none := by
      rw [List.find?_eq_none]
      intro u hu
      simpa only [Bool.not_eq_eq_eq_not, Bool.not_true, Bool.not_eq_true] using hbefore u hu
    have he := of_decide_eq_true ht
    rw [beforeEnd_append_end he, beforeEnd_eq_self hnone, endToken_append_end he, hnone,
      Option.getD_none]
    rcases ended_eq_or (before ++ t :: after) with ⟨hended, -⟩ | hended
    · exact ⟨after, hended⟩
    · exact ⟨after ++ [Token.eof (streamLine (before ++ t :: after))], by
        rw [hended, List.append_assoc, List.cons_append]⟩

end Ends

/-- The descent ends on every stream with what reading gives. -/
theorem parse_eq (tokens : List Token) : Descent.parse tokens = some (.ok (Lox.parse tokens)) := by
  obtain ⟨tail, htail⟩ := exists_ended_eq tokens
  have hleft : Left (ended tokens) (endToken tokens) 0 (beforeEnd tokens) :=
    ⟨⟨tail, htail⟩, fun _ => kind_ne_eof_of_mem_beforeEnd, endToken_kind tokens⟩
  obtain ⟨q, hrun⟩ := runAt_declarations hleft [] [] rfl
  rw [Descent.parse, hrun]
  rfl

/-- A stream that is turned down has an error. -/
theorem errors_ne_nil {tokens : List Token} {errors : List GrammarError}
    (h : Lox.parse tokens = .error errors) : errors ≠ [] := by
  unfold Lox.parse at h
  dsimp only at h
  split at h
  · cases h
  · next hne =>
    cases h
    exact hne

/-- The descent ends on every stream, asks for no token outside of it and lets no error through;
what it returns is what reading gives. That is the statements, or errors of grammar of which there
is at least one, and it does not depend on the tokens behind an end token. -/
theorem parse_total (tokens : List Token) :
    Descent.parse tokens = some (.ok (Lox.parse tokens)) ∧
      (∀ errors, Lox.parse tokens = .error errors → errors ≠ []) ∧
      ∀ before e after after', e.kind = .eof → tokens = before ++ e :: after →
        Lox.parse (before ++ e :: after') = Lox.parse tokens := by
  refine ⟨parse_eq tokens, fun _ => errors_ne_nil, fun before e after after' he htokens => ?_⟩
  have hbefore : beforeEnd (before ++ e :: after') = beforeEnd (before ++ e :: after) := by
    rw [beforeEnd_append_end he, beforeEnd_append_end he]
  have hend : endToken (before ++ e :: after') = endToken (before ++ e :: after) := by
    rw [endToken_append_end he, endToken_append_end he]
  rw [htokens, Lox.parse, Lox.parse, hbefore, hend]

/-- A parenthesis that nothing opened is the error, whatever follows the end token. -/
theorem parse_total_of_stray_paren :
    let paren : Token := ⟨.sign .rightParen, utf8 ")", none, 1⟩
    Lox.parse [paren, Token.eof 1, paren] = .error [⟨.expectExpression, 1⟩] ∧
      Descent.parse [paren, Token.eof 1, paren] =
        some (.ok (.error [⟨.expectExpression, 1⟩])) ∧
      Lox.parse [paren, Token.eof 1] = .error [⟨.expectExpression, 1⟩] := by
  intro paren
  have hparse : Lox.parse [paren, Token.eof 1, paren] = .error [⟨.expectExpression, 1⟩] := rfl
  obtain ⟨hdescent, -, hafter⟩ := parse_total [paren, Token.eof 1, paren]
  refine ⟨hparse, hdescent.trans (by rw [hparse]), ?_⟩
  exact (hafter [paren] (Token.eof 1) [paren] [] rfl rfl).trans hparse

end Lox.Descent
