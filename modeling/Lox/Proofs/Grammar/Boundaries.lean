import Lox.Proofs.Grammar.ValidPrefix
import Lox.Proofs.Session

/-!
# Statement boundaries

Reading starts afresh behind a program and behind a statement that was given up at its semicolon:
whatever comes next is read as it would be at the start of a stream, and only the statements and
the errors so far stand in front of what it brings. A program followed by tokens that do not begin
with `else` has the errors and the statements of these. A broken statement, which ends in its only
semicolon and has no word behind its first token at which reading could resume, keeps its errors to
itself: those of the tokens behind it follow them, and none is hidden or added.
-/

namespace Lox

namespace Reading

/-- Nothing is open in a reading that drops tokens. -/
def Closed (r : Reading) : Prop := ∀ t, r.mode = .skipping t → r.outer = []

section Closed

variable (r : Reading) (t : Token)

/-- A reading with something definite to come drops no tokens. -/
theorem closed_expect (goal : Goal) : (r.expect goal).Closed := by
  intro previous h
  cases h

/-- A reading inside one more construct drops no tokens. -/
theorem closed_enter (construct : Outer) (goal : Goal) : (r.enter construct goal).Closed := by
  intro previous h
  cases h

/-- A reading after a complete statement drops no tokens. -/
theorem closed_finish (s : Stmt) : (r.finish s).Closed := by
  intro previous h
  cases h

/-- A failure gives up whatever is open. -/
theorem closed_fail (cause : GrammarCause) : (r.fail t cause).Closed := fun _ _ => rfl

/-- Nothing is open where an operand was missing. -/
theorem closed_shiftOperand (pending : List Pending) (place : Place) :
    (r.shiftOperand pending place t).Closed := by
  unfold shiftOperand
  split
  case h_10 => exact closed_fail r t _
  all_goals exact closed_expect r _

/-- Nothing is open where the end of an expression was missing. -/
theorem closed_shiftEnd (e : Expr) (place : Place) : (r.shiftEnd e place t).Closed := by
  cases place with
  | statement | printed | initializer =>
    simp only [shiftEnd]
    split
    · exact closed_finish r _
    · exact closed_fail r t _
  | ifCondition | whileCondition | forStep =>
    simp only [shiftEnd]
    split
    · exact closed_enter r _ _
    · exact closed_fail r t _
  | forCondition =>
    simp only [shiftEnd]
    split
    · exact closed_expect r _
    · exact closed_fail r t _

/-- Nothing is open where an operator or the end of an expression was missing. -/
theorem closed_shiftOperator (e : Expr) (pending : List Pending) (place : Place) :
    (r.shiftOperator e pending place t).Closed := by
  simp only [shiftOperator]
  split
  · exact closed_expect r _
  · split
    · exact closed_expect r _
    · split
      · exact closed_shiftEnd _ t _ _
      · split
        · exact closed_expect _ _
        · exact closed_fail _ t _

/-- Nothing is open where a statement was missing. -/
theorem closed_shiftStatement : (r.shiftStatement t).Closed := by
  unfold shiftStatement
  split
  case h_5 => exact closed_enter r _ _
  case h_6 => exact closed_shiftOperand r t _ _
  all_goals exact closed_expect r _

/-- Nothing is open where a declaration was missing. -/
theorem closed_shiftDeclaration : (r.shiftDeclaration t).Closed := by
  unfold shiftDeclaration
  split
  case h_2 => exact closed_finish _ _
  case h_4 => exact closed_fail r t _
  case h_5 => exact closed_shiftStatement r t
  all_goals exact closed_expect r _

/-- Nothing is open where something definite was missing. -/
theorem closed_shift (goal : Goal) : (r.shift goal t).Closed := by
  cases goal with
  | declaration => exact closed_shiftDeclaration r t
  | statement => exact closed_shiftStatement r t
  | operand pending place => exact closed_shiftOperand r t pending place
  | operator e pending place => exact closed_shiftOperator r t e pending place
  | varEnd name =>
    simp only [shift]
    split
    · exact closed_expect r _
    · exact closed_finish r _
    · exact closed_fail r t _
  | forInit k =>
    simp only [shift]
    split
    · exact closed_expect r _
    · exact closed_enter r _ _
    · exact closed_shiftOperand _ t _ _
  | forCondition =>
    simp only [shift]
    split
    · exact closed_expect r _
    · exact closed_shiftOperand r t _ _
  | forStep =>
    simp only [shift]
    split
    · exact closed_enter r _ _
    · exact closed_shiftOperand r t _ _
  | varName | ifParen | whileParen | forParen =>
    simp only [shift]
    split
    · exact closed_expect r _
    · exact closed_fail r t _

end Closed

/-- A step opens nothing while tokens are dropped. -/
theorem Closed.step {r : Reading} (h : r.Closed) (t : Token) : (r.step t).Closed := by
  unfold Reading.step
  split
  · exact closed_shift r t _
  · split
    · next outer _ => exact closed_expect { r with outer := outer } .statement
    · exact closed_shift _ t _
  · next previous hmode =>
    split
    · exact closed_shift r t _
    · exact fun _ _ => h previous hmode

/-- Nothing is ever open while tokens are dropped. -/
theorem closed_run (ts : List Token) : (start.run ts).Closed := by
  induction ts using List.reverseRecOn with
  | nil => exact closed_expect start .declaration
  | append_singleton ts t ih =>
    rw [run_append]
    exact ih.step t

end Reading

namespace Grammar

open Reading

/-- Dropping goes on up to a semicolon if no word on the way starts a statement. -/
theorem run_skipping {outer : List Outer} {program : List Stmt} {errors : List GrammarError}
    {t semi : Token} {us : List Token} (ht : t.kind ≠ .sign .semicolon)
    (hus : ∀ u ∈ us, u.kind ≠ .sign .semicolon)
    (hwords : ∀ u ∈ us ++ [semi], u.kind.startsStatement = false) :
    run ⟨outer, .skipping t, program, errors⟩ (us ++ [semi]) =
      ⟨outer, .skipping semi, program, errors⟩ := by
  have hstep {t u : Token} (ht : t.kind ≠ .sign .semicolon)
      (hu : u.kind.startsStatement = false) :
      step ⟨outer, .skipping t, program, errors⟩ u = ⟨outer, .skipping u, program, errors⟩ := by
    simp only [step, ht, hu, decide_false, Bool.or_self, Bool.false_eq_true, if_false]
  induction us generalizing t with
  | nil => exact hstep ht (hwords semi List.mem_cons_self)
  | cons u us ih =>
    obtain ⟨hu, hus⟩ := List.forall_mem_cons.mp hus
    rw [List.cons_append] at hwords ⊢
    obtain ⟨hword, hwords⟩ := List.forall_mem_cons.mp hwords
    rw [run, List.foldl_cons, hstep ht hword]
    exact ih hu hus hwords

/-- The tokens of a broken statement. -/
structure Broken (ts : List Token) : Prop where
  /-- They end in their only semicolon. -/
  semicolon : ∃ before semi, ts = before ++ [semi] ∧ semi.kind = .sign .semicolon ∧
    ∀ t ∈ before, t.kind ≠ .sign .semicolon
  /-- No word that starts a statement stands behind the first of them. -/
  words : ∀ t ∈ ts.tail, t.kind.startsStatement = false
  /-- Reading them, before any end token, meets an error that is none of a target. -/
  breaks : ∃ error ∈ (start.run ts).errors, error.cause ≠ .invalidTarget

/-- A reading that accounts for its tokens has errors of targets only. -/
theorem Accounts.cause_eq {ts : List Token} {r : Reading} (h : Accounts ts r) :
    ∀ error ∈ r.errors, error.cause = .invalidTarget := by
  obtain ⟨-, -, f₁, f₂, -, herrors, -, -⟩ := h
  rw [herrors]
  intro error herror
  obtain ⟨fault, -, rfl⟩ := List.mem_map.mp herror
  rfl

/-- A broken statement is dropped up to its semicolon, and nothing is open behind it. -/
theorem Broken.run_eq {ts : List Token} (h : Broken ts) (hts : ∀ t ∈ ts, t.kind ≠ .eof) :
    ∃ semi program errors, semi.kind = .sign .semicolon ∧
      start.run ts = ⟨[], .skipping semi, program, errors⟩ := by
  obtain ⟨error, herror, hcause⟩ := h.breaks
  have hfails := (accounts_or_failsBehind hts).resolve_left fun haccounts =>
    hcause (haccounts.cause_eq error herror)
  obtain ⟨before, t, after, hsplit, hfails⟩ := hfails
  obtain ⟨init, semi, rfl, hsemi, hinit⟩ := h.semicolon
  -- The reading at the token that cannot continue: it drops tokens from there on.
  have hmode := hfails.rejects.mode_eq
  have houter := closed_run (before ++ [t]) t hmode
  generalize hr : start.run (before ++ [t]) = r at hmode houter
  obtain ⟨outer, mode, program, errors⟩ := r
  dsimp only at hmode houter
  subst hmode houter
  have hrun : start.run (init ++ [semi]) = run ⟨[], .skipping t, program, errors⟩ after := by
    rw [hsplit, List.append_cons, run_append, hr]
  refine ⟨semi, program, errors, hsemi, ?_⟩
  rw [hrun]
  rcases List.eq_nil_or_concat after with rfl | ⟨us, u, rfl⟩
  · -- The semicolon itself is the token at fault.
    obtain ⟨-, hlast⟩ := List.append_inj' hsplit rfl
    rw [List.singleton_inj.mp hlast]
    rfl
  · rw [List.concat_eq_append] at hsplit ⊢
    rw [← List.cons_append, ← List.append_assoc] at hsplit
    obtain ⟨rfl, hlast⟩ := List.append_inj' hsplit rfl
    obtain rfl := List.singleton_inj.mp hlast
    obtain ⟨-, hdropped⟩ := List.forall_mem_append.mp hinit
    obtain ⟨ht, hus⟩ := List.forall_mem_cons.mp hdropped
    have hwords : ∀ u ∈ us ++ [semi], u.kind.startsStatement = false := by
      intro u hu
      apply h.words u
      cases before with
      | nil => exact hu
      | cons first before =>
        rw [List.append_assoc, List.cons_append, List.tail_cons]
        exact List.mem_append_right _ (List.mem_cons_of_mem t hu)
    exact run_skipping ht hus hwords

/-- A program settles into a reading at the start with its statements and errors before it. -/
theorem Program.settles {ts faults : List Token} {program : List Stmt}
    (h : Program .nearest ts program faults) :
    Settles (start.run ts) (start.after program (faults.map invalidTarget)) := by
  obtain ⟨pieces, hp, rfl, rfl, rfl⟩ := h
  have hrow := run_row hp (fun p hm => (hp p hm).reads) none [] [] []
  simp only [rowReading, row, List.nil_append] at hrow
  simpa only [after, start, List.append_nil] using hrow

/-- If the next token is taken as at the start, so are all that follow. -/
theorem run_append_of_step {a b : List Token} {program : List Stmt} {errors : List GrammarError}
    {e : Token} (h : ∀ t ∈ (b ++ [e]).head?,
      (start.run a).step t = (start.after program errors).step t) :
    start.run (a ++ b ++ [e]) = (start.run (b ++ [e])).after program errors := by
  rw [List.append_assoc, run_append, ← run_after]
  obtain ⟨t, rest, hb⟩ := List.exists_cons_of_ne_nil (l := b ++ [e]) (by simp)
  rw [hb] at h ⊢
  exact run_congr_head (h t rfl)

/-- The line of the end is that of the last token, however many stand before it. -/
theorem streamLine_append (a : List Token) {b : List Token} (hb : b ≠ []) :
    streamLine (a ++ b) = streamLine b := by
  obtain ⟨before, last, rfl⟩ := (List.eq_nil_or_concat b).resolve_left hb
  simp only [streamLine, List.concat_eq_append, ← List.append_assoc, List.getLast?_concat]

/-- Tokens without an end token are read with one on their last line. -/
theorem parse_append_end {ts : List Token} (hts : ∀ t ∈ ts, t.kind ≠ .eof) :
    parse (ts ++ [Token.eof (streamLine ts)]) = parse ts := by
  have hnone := find?_eof_eq_none hts
  have hend : endToken ts = Token.eof (streamLine ts) := by rw [endToken, hnone]
  have he : (Token.eof (streamLine ts)).kind = .eof := rfl
  unfold parse
  rw [beforeEnd_append_end he, endToken_append_end he, hnone, Option.getD_none,
    hend]

/-- The errors of tokens without an end token are those of reading them with one, on the last
line of any stream that they end. -/
theorem errorsOf_eq_run {b : List Token} (hb : ∀ t ∈ b, t.kind ≠ .eof) (a : List Token) :
    errorsOf b = (start.run (b ++ [Token.eof (streamLine (a ++ b))])).errors := by
  by_cases hnil : b = []
  · subst hnil
    rfl
  · rw [streamLine_append a hnil, ← errorsOf_eq hb rfl]
    unfold errorsOf
    rw [parse_append_end hb]

/-- If the next token is taken as at the start, the errors of what follows come behind those so
far. -/
theorem errorsOf_append {a b : List Token} {program : List Stmt} {errors : List GrammarError}
    (ha : ∀ t ∈ a, t.kind ≠ .eof) (hb : ∀ t ∈ b, t.kind ≠ .eof)
    (h : ∀ t ∈ (b ++ [Token.eof (streamLine (a ++ b))]).head?,
      (start.run a).step t = (start.after program errors).step t) :
    errorsOf (a ++ b) = errors ++ errorsOf b := by
  rw [errorsOf_eq_run (List.forall_mem_append.mpr ⟨ha, hb⟩) [], errorsOf_eq_run hb a,
    List.nil_append, run_append_of_step h]
  rfl

/-- Behind a program the errors are those of what follows, unless it begins with `else`. -/
theorem errorsOf_append_of_parse {a b : List Token} {program : List Stmt}
    (ha : ∀ t ∈ a, t.kind ≠ .eof) (hb : ∀ t ∈ b, t.kind ≠ .eof) (h : parse a = .ok program)
    (helse : ∀ t ∈ b.head?, t.kind ≠ .word .else_) : errorsOf (a ++ b) = errorsOf b := by
  have hprogram := program_of_parse h
  rw [beforeEnd_eq_self (find?_eof_eq_none ha)] at hprogram
  have hstep : ∀ t ∈ (b ++ [Token.eof (streamLine (a ++ b))]).head?,
      (start.run a).step t = (start.after program []).step t := by
    intro t ht
    refine hprogram.settles t ?_
    cases b with
    | nil =>
      cases ht
      exact nofun
    | cons first rest => exact helse t ht
  exact errorsOf_append ha hb hstep

/-- Behind a broken statement the errors are its own and then those of what follows. -/
theorem Broken.errorsOf_append {a b : List Token} (h : Broken a) (ha : ∀ t ∈ a, t.kind ≠ .eof)
    (hb : ∀ t ∈ b, t.kind ≠ .eof) : errorsOf (a ++ b) = errorsOf a ++ errorsOf b := by
  obtain ⟨semi, program, errors, hsemi, hrun⟩ := h.run_eq ha
  have hstep (t : Token) : (start.run a).step t = (start.after program errors).step t := by
    rw [hrun]
    simp only [step, hsemi, decide_true, Bool.true_or, if_true]
    simp only [after, start, List.append_nil]
    exact shiftDeclaration_mode _ _
  have hself := Grammar.errorsOf_append ha (List.forall_mem_nil _) fun t _ => hstep t
  have hnil : errorsOf [] = [] := rfl
  rw [List.append_nil, hnil, List.append_nil] at hself
  rw [hself]
  exact Grammar.errorsOf_append ha hb fun t _ => hstep t

/-- Parsing composes at statement boundaries. Behind tokens that are parsed as a program, a stream
that does not begin with `else` has its own errors and no others, and if it has none its statements
follow those of the program. Behind a broken statement a stream has its own errors too, which come
after those of the broken statement. -/
theorem parse_composes_at_boundaries {a b : List Token} (ha : ∀ t ∈ a, t.kind ≠ .eof)
    (hb : ∀ t ∈ b, t.kind ≠ .eof) :
    (∀ program, parse a = .ok program → (∀ t ∈ b.head?, t.kind ≠ .word .else_) →
      errorsOf (a ++ b) = errorsOf b ∧
        ∀ program', parse b = .ok program' → parse (a ++ b) = .ok (program ++ program')) ∧
    (Broken a → errorsOf (a ++ b) = errorsOf a ++ errorsOf b) := by
  refine ⟨fun program h helse => ⟨errorsOf_append_of_parse ha hb h helse, fun program' h' => ?_⟩,
    fun h => h.errorsOf_append ha hb⟩
  exact parse_append ha rfl ((parse_append_end ha).trans h) h'

/-- A statement `a;`, a broken one `(a) = nil );` with an error of its target and one at its last
parenthesis, and an `else` that belongs to nothing. -/
theorem parse_composes_at_boundaries_of_stray_else :
    let whole := [.identifier, .sign .semicolon].map ofKind
    let broken := [.sign .leftParen, .identifier, .sign .rightParen, .sign .equal, .word .nil,
      .sign .rightParen, .sign .semicolon].map ofKind
    let stray := [.word .else_, .sign .semicolon].map ofKind
    let statement := Stmt.expression (.name (ofKind .identifier))
    parse whole = .ok [statement] ∧ parse (whole ++ whole) = .ok [statement, statement] ∧
      errorsOf (whole ++ broken) = errorsOf broken ∧ Broken broken ∧
      errorsOf (broken ++ stray) =
        [⟨.invalidTarget, 1⟩, ⟨.semicolonAfterExpression, 1⟩, ⟨.expectExpression, 1⟩] := by
  intro whole broken stray statement
  have hwhole : parse whole = .ok [statement] := rfl
  have hbroken : Broken broken :=
    ⟨⟨broken.dropLast, ofKind (.sign .semicolon), rfl, rfl, by decide⟩, by decide,
      ⟨.semicolonAfterExpression, 1⟩, by decide, by decide⟩
  have hends : ∀ t ∈ whole ++ broken ++ stray, t.kind ≠ .eof := by decide
  obtain ⟨hfront, hs⟩ := List.forall_mem_append.mp hends
  obtain ⟨hw, hb⟩ := List.forall_mem_append.mp hfront
  have hboth := ((parse_composes_at_boundaries hw hw).1 _ hwhole (by decide)).2 _ hwhole
  have hhidden := ((parse_composes_at_boundaries hw hb).1 _ hwhole (by decide)).1
  exact ⟨hwhole, hboth, hhidden, hbroken, (parse_composes_at_boundaries hb hs).2 hbroken⟩

end Grammar

end Lox
