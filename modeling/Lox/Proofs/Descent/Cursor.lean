import Lox.Proofs.Descent
import Lox.Proofs.Grammar.Completeness

/-!
# A cursor in a stream

What the steps of a descent do when the cursor is inside the stream: they never look outside, and
each is one of a few plain moves. On these moves rests the comparison of a procedure with the
reading of the same tokens one by one.
-/

namespace Lox.Descent

open Procedure

/-- What is left of a stream at a position: some tokens, none of them an end token, and then an
end token. -/
structure Left (ts : List Token) (e : Token) (p : Nat) (body : List Token) : Prop where
  /-- The tokens from the position on. -/
  drop_eq : ∃ tail, ts.drop p = body ++ e :: tail
  /-- The tokens in front are no end tokens. -/
  ne_eof : ∀ t ∈ body, t.kind ≠ .eof
  /-- The token behind them is one. -/
  isEnd : e.kind = .eof

namespace Left

variable {ts : List Token} {e t : Token} {p : Nat} {body rest : List Token}

/-- After some of the tokens the others are left. -/
theorem append {us : List Token} (h : Left ts e p (us ++ rest)) :
    Left ts e (p + us.length) rest := by
  obtain ⟨tail, htail⟩ := h.drop_eq
  refine ⟨⟨tail, ?_⟩, fun t ht => h.ne_eof t (List.mem_append_right us ht), h.isEnd⟩
  rw [← List.drop_drop, htail, List.append_assoc, List.drop_left]

/-- After a token the others are left. -/
theorem tail (h : Left ts e p (t :: rest)) : Left ts e (p + 1) rest := by
  have happend : Left ts e p ([t] ++ rest) := h
  exact happend.append

/-- The token at the position. -/
theorem getElem?_eq (h : Left ts e p body) : ts[p]? = some (body.headD e) := by
  obtain ⟨tail, htail⟩ := h.drop_eq
  rw [← Nat.add_zero p, ← List.getElem?_drop, htail]
  cases body <;> rfl

/-- The end token comes exactly when nothing is left before it. -/
theorem eof_iff (h : Left ts e p body) : (body.headD e).kind = .eof ↔ body = [] := by
  cases body with
  | nil => simp only [List.headD_nil, h.isEnd]
  | cons t rest =>
    simp only [List.headD_cons, reduceCtorEq, iff_false]
    exact h.ne_eof t List.mem_cons_self

/-- A token that is no end token is one of those left. -/
theorem exists_cons (h : Left ts e p body) (ht : (body.headD e).kind ≠ .eof) :
    ∃ t rest, body = t :: rest :=
  List.exists_cons_of_ne_nil fun hbody => ht (h.eof_iff.mpr hbody)

/-- Looking at the token to come. -/
theorem runAt_peek (h : Left ts e p body) (errors : List GrammarError) :
    (peek ts).runAt ⟨p, errors⟩ = some (.ok (body.headD e), ⟨p, errors⟩) := by
  change (tokenAt ts p).runAt ⟨p, errors⟩ = _
  rw [tokenAt, h.getElem?_eq]
  rfl

/-- Looking at the token before, right behind a token. -/
theorem runAt_previous (h : Left ts e p body) (errors : List GrammarError) :
    (previous ts).runAt ⟨p + 1, errors⟩ = some (.ok (body.headD e), ⟨p + 1, errors⟩) := by
  change (tokenAt ts p).runAt ⟨p + 1, errors⟩ = _
  rw [tokenAt, h.getElem?_eq]
  rfl

/-- Asking for the end. -/
theorem runAt_isAtEnd (h : Left ts e p body) (errors : List GrammarError) :
    (isAtEnd ts).runAt ⟨p, errors⟩ = some (.ok (decide (body = [])), ⟨p, errors⟩) := by
  rw [isAtEnd, runAt_bind_ok (h.runAt_peek errors)]
  simp only [h.eof_iff]
  rfl

/-- Asking for a kind. -/
theorem runAt_check (h : Left ts e p body) (errors : List GrammarError) {kind : Kind}
    (hkind : kind ≠ .eof) :
    (check ts kind).runAt ⟨p, errors⟩ =
      some (.ok (decide ((body.headD e).kind = kind)), ⟨p, errors⟩) := by
  rw [check, runAt_bind_ok (h.runAt_isAtEnd errors)]
  by_cases hbody : body = []
  · have hne : (body.headD e).kind ≠ kind := by
      rw [h.eof_iff.mpr hbody]
      exact hkind.symm
    simp only [hbody, decide_true, if_true] at hne ⊢
    rw [decide_eq_false hne]
    rfl
  · simp only [hbody, decide_false, Bool.false_eq_true, if_false]
    rw [runAt_bind_ok (h.runAt_peek errors)]
    rfl

/-- Moving on over a token. -/
theorem runAt_advance (h : Left ts e p (t :: rest)) (errors : List GrammarError) :
    (advance ts).runAt ⟨p, errors⟩ = some (.ok t, ⟨p + 1, errors⟩) := by
  rw [advance, runAt_bind_ok (h.runAt_isAtEnd errors)]
  exact h.runAt_previous errors

/-- Moving on at the end token: the cursor stays, and there is a token before it unless the
stream is at its start. -/
theorem runAt_advance_end (h : Left ts e p [t]) (errors : List GrammarError) :
    (advance ts).runAt ⟨p + 1, errors⟩ = some (.ok t, ⟨p + 1, errors⟩) := by
  rw [advance, runAt_bind_ok (h.tail.runAt_isAtEnd errors)]
  exact h.runAt_previous errors

/-- A token of one of the kinds is accepted. -/
theorem runAt_accept (h : Left ts e p (t :: rest)) (errors : List GrammarError)
    {kinds : List Kind} (hkinds : .eof ∉ kinds) (ht : t.kind ∈ kinds) :
    (accept ts kinds).runAt ⟨p, errors⟩ = some (.ok true, ⟨p + 1, errors⟩) := by
  induction kinds with
  | nil => cases ht
  | cons kind kinds ih =>
    have hkind : kind ≠ .eof := fun heq => hkinds (heq ▸ List.mem_cons_self)
    rw [accept, runAt_bind_ok (h.runAt_check errors hkind), List.headD_cons]
    by_cases heq : t.kind = kind
    · simp only [heq, decide_true, if_true]
      rw [runAt_bind_ok (h.runAt_advance errors)]
      rfl
    · simp only [heq, decide_false, Bool.false_eq_true, if_false]
      exact ih (fun hmem => hkinds (List.mem_cons_of_mem kind hmem))
        ((List.mem_cons.mp ht).resolve_left heq)

/-- A token of none of the kinds is not. -/
theorem runAt_accept_of_not_mem (h : Left ts e p body) (errors : List GrammarError)
    {kinds : List Kind} (hkinds : .eof ∉ kinds) (ht : (body.headD e).kind ∉ kinds) :
    (accept ts kinds).runAt ⟨p, errors⟩ = some (.ok false, ⟨p, errors⟩) := by
  induction kinds with
  | nil => rfl
  | cons kind kinds ih =>
    have hkind : kind ≠ .eof := fun heq => hkinds (heq ▸ List.mem_cons_self)
    have hne : (body.headD e).kind ≠ kind := fun heq => ht (heq ▸ List.mem_cons_self)
    rw [accept, runAt_bind_ok (h.runAt_check errors hkind)]
    simp only [hne, decide_false, Bool.false_eq_true, if_false]
    exact ih (fun hmem => hkinds (List.mem_cons_of_mem kind hmem))
      fun hmem => ht (List.mem_cons_of_mem kind hmem)

/-- A token of the kind that has to come is consumed. -/
theorem runAt_consume (h : Left ts e p (t :: rest)) (errors : List GrammarError) {kind : Kind}
    (hkind : kind ≠ .eof) (ht : t.kind = kind) (cause : GrammarCause) :
    (consume ts kind cause).runAt ⟨p, errors⟩ = some (.ok t, ⟨p + 1, errors⟩) := by
  rw [consume, runAt_bind_ok (h.runAt_check errors hkind), List.headD_cons]
  simp only [ht, decide_true, if_true]
  exact h.runAt_advance errors

/-- A token of another kind is an error. -/
theorem runAt_consume_of_ne (h : Left ts e p body) (errors : List GrammarError) {kind : Kind}
    (hkind : kind ≠ .eof) (ht : (body.headD e).kind ≠ kind) (cause : GrammarCause) :
    (consume ts kind cause).runAt ⟨p, errors⟩ =
      some (.error (.raised ⟨cause, (body.headD e).line⟩), ⟨p, errors⟩) := by
  rw [consume, runAt_bind_ok (h.runAt_check errors hkind)]
  simp only [ht, decide_false, Bool.false_eq_true, if_false]
  rw [runAt_bind_ok (h.runAt_peek errors)]
  rfl

/-- Asking for the end of a block. -/
theorem runAt_isAtBlockEnd (h : Left ts e p body) (errors : List GrammarError) :
    (isAtBlockEnd ts).runAt ⟨p, errors⟩ =
      some (.ok (decide ((body.headD e).kind = .sign .rightBrace ∨ body = [])), ⟨p, errors⟩) := by
  have hcheck := h.runAt_check errors (show Kind.sign .rightBrace ≠ .eof by decide)
  rw [isAtBlockEnd, orM, runAt_bind_ok hcheck]
  by_cases hbrace : (body.headD e).kind = .sign .rightBrace
  · simp only [hbrace, decide_true, true_or]
    rfl
  · simp only [hbrace, decide_false, false_or]
    exact h.runAt_isAtEnd errors

end Left

end Lox.Descent
