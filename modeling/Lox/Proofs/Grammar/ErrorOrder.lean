import Lox.Proofs.Grammar.Boundaries
import Lox.Proofs.Layout
import Lox.Proofs.Token.Lines

/-!
# The order of errors

The errors of a stream come in the order of the tokens they are found at, with one exception. An
assignment to something that is no variable is given its error where its value ends, behind the
errors that are found in the value: of two such assignments, one in the value of the other, the
inner is told first though its equals sign stands further on. So the lines of the errors of a
source go up exactly if such assignments share a line.

Which token an error is found at cannot be told from its line, as many tokens share one. Reading
the stream in which the line of each token is its position tells it.
-/

namespace Lox.Grammar

open Reading

/-- How many parentheses are open behind a token: none is closed that is not open, and no
semicolon comes while an expression goes on. -/
def nesting (depth : Nat) : Kind → Option Nat
  | .sign .leftParen => some (depth + 1)
  | .sign .rightParen => if depth = 0 then none else some (depth - 1)
  | .sign .semicolon => none
  | _ => some depth

/-- How many parentheses are open behind tokens. -/
def nestingAfter (depth : Nat) (ts : List Token) : Option Nat :=
  ts.foldlM (fun depth t => nesting depth t.kind) depth

/-- Tokens behind an equals sign that are all part of the value: neither a semicolon nor a
parenthesis from further out ends it. -/
def WithinValue (ts : List Token) : Prop := (nestingAfter 0 ts).isSome

/-- Tokens that are part of a value and leave no parenthesis open. -/
def Balanced (ts : List Token) : Prop := nestingAfter 0 ts = some 0

/-- More open parentheses around a token stay open behind it. -/
theorem nesting_succ {k : Kind} {depth depth' : Nat} (h : nesting depth k = some depth') :
    nesting (depth + 1) k = some (depth' + 1) := by
  unfold nesting at h ⊢
  split at h
  case h_2 =>
    split at h
    · cases h
    · cases h
      rw [if_neg (Nat.succ_ne_zero depth), Nat.succ_sub_one]
      exact congrArg some (by omega)
  all_goals cases h
  all_goals rfl

/-- Tokens in two parts are nested one part after the other. -/
theorem nestingAfter_append (depth : Nat) (ts us : List Token) :
    nestingAfter depth (ts ++ us) = (nestingAfter depth ts).bind fun d => nestingAfter d us :=
  List.foldlM_append

/-- More open parentheses around tokens stay open behind them. -/
theorem nestingAfter_succ {ts : List Token} {depth depth' : Nat}
    (h : nestingAfter depth ts = some depth') : nestingAfter (depth + 1) ts = some (depth' + 1) := by
  induction ts generalizing depth with
  | nil =>
    cases h
    rfl
  | cons t ts ih =>
    obtain ⟨d, hd, hrest⟩ := Option.bind_eq_some_iff.mp h
    exact Option.bind_eq_some_iff.mpr ⟨d + 1, nesting_succ hd, ih hrest⟩

/-- The first of tokens within a value are within it. -/
theorem WithinValue.of_append {ts us : List Token} (h : WithinValue (ts ++ us)) :
    WithinValue ts := by
  unfold WithinValue at h ⊢
  rw [nestingAfter_append] at h
  cases hts : nestingAfter 0 ts with
  | none =>
    rw [hts] at h
    cases h
  | some => rfl

namespace Balanced

/-- No tokens leave nothing open. -/
theorem nil : Balanced [] := rfl

/-- Balanced tokens in a row are balanced. -/
theorem append {ts us : List Token} (h : Balanced ts) (h' : Balanced us) : Balanced (ts ++ us) := by
  unfold Balanced at h h' ⊢
  rw [nestingAfter_append, h]
  exact h'

/-- A token that is neither a parenthesis nor a semicolon leaves nothing open. -/
theorem cons {t : Token} {ts : List Token} (ht : nesting 0 t.kind = some 0) (h : Balanced ts) :
    Balanced (t :: ts) :=
  Option.bind_eq_some_iff.mpr ⟨0, ht, h⟩

/-- Balanced tokens in parentheses are balanced. -/
theorem paren {l r : Token} {ts : List Token} (hl : l.kind = .sign .leftParen) (h : Balanced ts)
    (hr : r.kind = .sign .rightParen) : Balanced (l :: ts ++ [r]) := by
  have hleft : nesting 0 l.kind = some 1 := by rw [hl]; rfl
  have hlast : nesting 1 r.kind = some 0 := by rw [hr]; rfl
  have hright : nestingAfter 1 [r] = some 0 := Option.bind_eq_some_iff.mpr ⟨0, hlast, rfl⟩
  have hinner : nestingAfter 0 (l :: ts) = some 1 :=
    Option.bind_eq_some_iff.mpr ⟨1, hleft, nestingAfter_succ h⟩
  unfold Balanced
  rw [nestingAfter_append, hinner]
  exact hright

/-- The first of balanced tokens are within a value. -/
theorem withinValue {ts us : List Token} (h : Balanced (ts ++ us)) : WithinValue ts := by
  have hall : WithinValue (ts ++ us) := by
    unfold WithinValue
    rw [h]
    rfl
  exact hall.of_append

end Balanced

/-- An error together with the token it is found at and the tokens before that one. -/
structure Mark where
  /-- The tokens before the one at fault. -/
  before : List Token
  /-- The token at fault. -/
  token : Token
  /-- What is wrong. -/
  cause : GrammarCause

namespace Mark

/-- The error without its place in the stream. -/
def error (m : Mark) : GrammarError := ⟨m.cause, m.token.line⟩

/-- The error with its place in the stream in place of its line. -/
def atPosition (m : Mark) : GrammarError := ⟨m.cause, (m.before.length : Int)⟩

/-- The mark in tokens on other lines. -/
def mapLine (g : Int → Int) (m : Mark) : Mark :=
  ⟨m.before.map (Token.mapLine g), m.token.mapLine g, m.cause⟩

/-- The other error is found further on in the stream. -/
def Precedes (m m' : Mark) : Prop := ∃ between, m'.before = m.before ++ m.token :: between

/-- Two assignments to what is no variable, the other in the value of this one. -/
structure Encloses (m m' : Mark) : Prop where
  /-- The error is one of a target. -/
  target : m.cause = .invalidTarget
  /-- So is the other. -/
  target' : m'.cause = .invalidTarget
  /-- The equals sign of the other is within the value behind this one. -/
  within : ∃ between, m'.before = m.before ++ m.token :: between ∧ WithinValue between

/-- An error that encloses another is found before it in the stream. -/
theorem Encloses.precedes {m m' : Mark} (h : m.Encloses m') : m.Precedes m' := by
  obtain ⟨between, hbefore, -⟩ := h.within
  exact ⟨between, hbefore⟩

end Mark

/-- Marks of errors in tokens, in the order in which they are told. -/
structure Marked (ts : List Token) (marks : List Mark) : Prop where
  /-- Each stands in the tokens. -/
  found : ∀ m ∈ marks, m.before ++ [m.token] <+: ts
  /-- An error of a target is found at an equals sign. -/
  equals : ∀ m ∈ marks, m.cause = .invalidTarget → m.token.kind = .sign .equal
  /-- An error is told before those further on, and behind those that it encloses. -/
  ordered : marks.Pairwise fun m m' => m.Precedes m' ∨ m'.Encloses m

/-- What waits for an operand, in the tokens so far: behind each parenthesis and each equals sign
of it the tokens are balanced up to the next, and all errors behind the equals sign of an
assignment are of targets in its value. -/
inductive Waiting (marks : List Mark) : List Pending → List Token → Prop
  | nil (ts : List Token) : Waiting marks [] ts
  | unary {op : Token} {pending : List Pending} {ts : List Token} (h : Waiting marks pending ts) :
      Waiting marks (.unary op :: pending) ts
  | binary {e : Expr} {op : Token} {pending : List Pending} {ts : List Token}
      (h : Waiting marks pending ts) : Waiting marks (.binary e op :: pending) ts
  | group {l : Token} {pending : List Pending} {before between : List Token}
      (h : Waiting marks pending before) (hl : l.kind = .sign .leftParen)
      (hb : Balanced between) : Waiting marks (.group :: pending) (before ++ l :: between)
  | assign {e : Expr} {eq : Token} {pending : List Pending} {before between : List Token}
      (h : Waiting marks pending before) (heq : eq.kind = .sign .equal) (hb : Balanced between)
      (hm : ∀ m ∈ marks, m.before ++ [m.token] <+: before ∨
        m.cause = .invalidTarget ∧ ∃ between, m.before = before ++ eq :: between) :
      Waiting marks (.assign e eq :: pending) (before ++ eq :: between)

section Waiting

variable {marks : List Mark} {pending : List Pending} {ts us : List Token}

/-- What waits goes on waiting behind balanced tokens. -/
theorem Waiting.append (h : Waiting marks pending ts) (hus : Balanced us) :
    Waiting marks pending (ts ++ us) := by
  induction h with
  | nil => exact .nil _
  | unary _ ih => exact .unary ih
  | binary _ ih => exact .binary ih
  | group h hl hb =>
    rw [List.append_assoc, List.cons_append]
    exact .group h hl (hb.append hus)
  | assign h heq hb hm =>
    rw [List.append_assoc, List.cons_append]
    exact .assign h heq (hb.append hus) hm

/-- An error of a target behind all that waits is within the value of each assignment that
waits. -/
theorem Waiting.mark (h : Waiting marks pending ts) {m : Mark} (hcause : m.cause = .invalidTarget)
    (hts : ts <+: m.before) : Waiting (marks ++ [m]) pending ts := by
  induction h with
  | nil => exact .nil _
  | unary _ ih => exact .unary (ih hts)
  | binary _ ih => exact .binary (ih hts)
  | group _ hl hb ih => exact .group (ih ((List.prefix_append _ _).trans hts)) hl hb
  | @assign e eq pending before between _ heq hb hm ih =>
    refine .assign (ih ((List.prefix_append _ _).trans hts)) heq hb ?_
    refine List.forall_mem_append.mpr ⟨hm, List.forall_mem_singleton.mpr (.inr ⟨hcause, ?_⟩)⟩
    obtain ⟨rest, hrest⟩ := hts
    exact ⟨between ++ rest, by rw [← hrest, List.append_assoc, List.cons_append]⟩

/-- Operators that are joined to an operand no longer wait. -/
theorem Waiting.reduce (level : Nat) (e : Expr) (h : Waiting marks pending ts) :
    Waiting marks (Reading.reduce level e pending).2 ts := by
  fun_induction Reading.reduce level e pending with
  | case1 e op rest ih =>
    cases h with
    | unary h => exact ih h
  | case2 e left op rest hle ih =>
    cases h with
    | binary h => exact ih h
  | case3 | case4 => exact h

end Waiting

/-- A mark in the first of tokens is one in all of them. -/
theorem Marked.mono {ts us : List Token} {marks : List Mark} (h : Marked ts marks)
    (hts : ts <+: us) : Marked us marks :=
  ⟨fun m hm => (h.found m hm).trans hts, h.equals, h.ordered⟩

/-- A mark that comes last precedes no other and encloses those that it does not follow. -/
theorem Marked.concat {ts : List Token} {marks : List Mark} {m : Mark} (h : Marked ts marks)
    (hfound : m.before ++ [m.token] <+: ts)
    (hequals : m.cause = .invalidTarget → m.token.kind = .sign .equal)
    (horder : ∀ m' ∈ marks, m'.Precedes m ∨ m.Encloses m') : Marked ts (marks ++ [m]) where
  found := List.forall_mem_append.mpr ⟨h.found, List.forall_mem_singleton.mpr hfound⟩
  equals := List.forall_mem_append.mpr ⟨h.equals, List.forall_mem_singleton.mpr hequals⟩
  ordered := List.pairwise_append.mpr ⟨h.ordered, List.pairwise_singleton _ _,
    fun m' hm' => List.forall_mem_singleton.mpr (horder m' hm')⟩

/-- Tokens that begin with those before a mark and the token at fault begin with the mark. -/
theorem Mark.precedes_of_prefix {m m' : Mark} (h : m.before ++ [m.token] <+: m'.before) :
    m.Precedes m' := by
  obtain ⟨between, hbetween⟩ := h
  exact ⟨between, by rw [← hbetween, List.append_assoc, List.singleton_append]⟩

/-- Where an expression ends, the assignments that wait in it are told from the inside out, each
behind the errors in its value. -/
theorem Waiting.close (e : Expr) {pending : List Pending} {ts : List Token} {marks : List Mark}
    (h : Waiting marks pending ts) (hmarked : Marked ts marks) :
    ∃ more : List Mark, (Reading.close e pending).2.2 = more.map Mark.error ∧
      Marked ts (marks ++ more) ∧ Waiting (marks ++ more) (Reading.close e pending).2.1 ts := by
  fun_induction Reading.close e pending generalizing marks with
  | case1 e op rest ih =>
    cases h with
    | unary h => exact ih h hmarked
  | case2 e left op rest ih =>
    cases h with
    | binary h => exact ih h hmarked
  | case3 e n eq rest ih =>
    cases h with
    | assign h heq hb =>
      exact ih (h.append (.cons (by rw [heq]; rfl) hb)) hmarked
  | case4 e target eq rest hname e' left errors hclose ih =>
    cases h with
    | @assign _ _ _ before between h heq hb hm =>
      have hts : Balanced (eq :: between) := .cons (by rw [heq]; rfl) hb
      let m : Mark := ⟨before, eq, .invalidTarget⟩
      have hconcat : Marked (before ++ eq :: between) (marks ++ [m]) := by
        refine hmarked.concat ⟨between, by rw [List.append_assoc, List.singleton_append]⟩
          (fun _ => heq) fun m' hm' => ?_
        rcases hm m' hm' with hbefore | ⟨hcause, inner, hinner⟩
        · exact .inl (Mark.precedes_of_prefix hbefore)
        · -- The other error is behind the equals sign: what lies between is within its value.
          obtain ⟨rest, hrest⟩ := hmarked.found m' hm'
          rw [hinner, List.append_assoc, List.append_assoc, List.append_cancel_left_eq,
            List.cons_append, List.cons.injEq] at hrest
          refine .inr ⟨rfl, hcause, inner, hinner, ?_⟩
          rw [← hrest.2] at hb
          exact hb.withinValue
      obtain ⟨more, herrors, hmarked', hwaiting⟩ :=
        ih ((h.mark (m := m) rfl (List.prefix_refl _)).append hts) hconcat
      rw [hclose] at herrors hwaiting
      rw [List.append_assoc] at hmarked' hwaiting
      exact ⟨m :: more, congrArg (m.error :: ·) herrors, hmarked', hwaiting⟩
  | case5 => exact ⟨[], rfl, by rwa [List.append_nil], by rwa [List.append_nil]⟩

/-- Errors that have marks in the tokens so far, and what waits there. -/
structure Tracks (ts : List Token) (errors : List GrammarError) (pending : List Pending) :
    Prop where
  /-- The marks of the errors. -/
  marks : ∃ marks : List Mark, errors = marks.map Mark.error ∧ Marked ts marks ∧
    Waiting marks pending ts

/-- What waits where something definite has to come. -/
def pendingIn : Goal → List Pending
  | .operand pending _ | .operator _ pending _ => pending
  | _ => []

/-- What waits in a mode of reading. -/
def waitingIn : Mode → List Pending
  | .expecting goal => pendingIn goal
  | _ => []

/-- A reading whose errors have marks in the tokens so far. -/
def Tracked (ts : List Token) (r : Reading) : Prop := Tracks ts r.errors (waitingIn r.mode)

section Steps

variable {ts : List Token} {errors : List GrammarError} {pending : List Pending} {r : Reading}
  {t : Token}

/-- Errors have marks when nothing waits any more. -/
theorem Tracks.forget (h : Tracks ts errors pending) : Tracks ts errors [] := by
  obtain ⟨marks, herrors, hmarked, -⟩ := h
  exact ⟨marks, herrors, hmarked, .nil ts⟩

/-- A token without an error, behind which nothing waits. -/
theorem Tracks.settle (h : Tracks ts errors pending) (t : Token) :
    Tracks (ts ++ [t]) errors [] := by
  obtain ⟨marks, herrors, hmarked, -⟩ := h
  exact ⟨marks, herrors, hmarked.mono (List.prefix_append ts [t]), .nil _⟩

/-- A token that is part of an expression and no parenthesis leaves waiting what waits. -/
theorem Tracks.take (h : Tracks ts errors pending) (ht : nesting 0 t.kind = some 0) :
    Tracks (ts ++ [t]) errors pending := by
  obtain ⟨marks, herrors, hmarked, hwaiting⟩ := h
  exact ⟨marks, herrors, hmarked.mono (List.prefix_append ts [t]),
    hwaiting.append (.cons ht .nil)⟩

/-- So does an operator in front, which waits, too. -/
theorem Tracks.unary (h : Tracks ts errors pending) (op : Token) :
    Tracks ts errors (.unary op :: pending) := by
  obtain ⟨marks, herrors, hmarked, hwaiting⟩ := h
  exact ⟨marks, herrors, hmarked, .unary hwaiting⟩

/-- A left operand waits with its operator behind what it could not be joined to. -/
theorem Tracks.binary (h : Tracks ts errors pending) (level : Nat) (e left : Expr) (op : Token) :
    Tracks ts errors (.binary left op :: (reduce level e pending).2) := by
  obtain ⟨marks, herrors, hmarked, hwaiting⟩ := h
  exact ⟨marks, herrors, hmarked, .binary (hwaiting.reduce level e)⟩

/-- An opening parenthesis waits. -/
theorem Tracks.group (h : Tracks ts errors pending) (ht : t.kind = .sign .leftParen) :
    Tracks (ts ++ [t]) errors (.group :: pending) := by
  obtain ⟨marks, herrors, hmarked, hwaiting⟩ := h
  exact ⟨marks, herrors, hmarked.mono (List.prefix_append ts [t]), .group hwaiting ht .nil⟩

/-- A target waits with its equals sign. -/
theorem Tracks.assign (h : Tracks ts errors pending) (level : Nat) (e target : Expr)
    (ht : t.kind = .sign .equal) :
    Tracks (ts ++ [t]) errors (.assign target t :: (reduce level e pending).2) := by
  obtain ⟨marks, herrors, hmarked, hwaiting⟩ := h
  exact ⟨marks, herrors, hmarked.mono (List.prefix_append ts [t]),
    .assign (hwaiting.reduce level e) ht .nil fun m hm => .inl (hmarked.found m hm)⟩

/-- The end of an expression. -/
theorem Tracks.close (h : Tracks ts errors pending) (e : Expr) :
    Tracks ts (errors ++ (close e pending).2.2) (Reading.close e pending).2.1 := by
  obtain ⟨marks, rfl, hmarked, hwaiting⟩ := h
  obtain ⟨more, hmore, hmarked', hwaiting'⟩ := hwaiting.close e hmarked
  exact ⟨marks ++ more, by rw [hmore, List.map_append], hmarked', hwaiting'⟩

/-- A parenthesis is closed. -/
theorem Tracks.ungroup (h : Tracks ts errors (.group :: pending))
    (ht : t.kind = .sign .rightParen) : Tracks (ts ++ [t]) errors pending := by
  obtain ⟨marks, herrors, hmarked, hwaiting⟩ := h
  refine ⟨marks, herrors, hmarked.mono (List.prefix_append ts [t]), ?_⟩
  cases hwaiting with
  | group h hl hb =>
    rw [List.append_assoc]
    exact h.append (.paren hl hb ht)

/-- A failure is found behind all errors so far. -/
theorem Tracks.fail (h : Tracks ts r.errors pending) {cause : GrammarCause}
    (hcause : cause ≠ .invalidTarget) : Tracked (ts ++ [t]) (r.fail t cause) := by
  obtain ⟨marks, herrors, hmarked, -⟩ := h
  have hconcat : Marked (ts ++ [t]) (marks ++ [⟨ts, t, cause⟩]) :=
    (hmarked.mono (List.prefix_append ts [t])).concat (List.prefix_refl _)
      (fun h => absurd h hcause) fun m hm => .inl (Mark.precedes_of_prefix (hmarked.found m hm))
  refine ⟨marks ++ [⟨ts, t, cause⟩], ?_, hconcat, .nil _⟩
  rw [List.map_append, ← herrors]
  rfl

/-- A token of the kind that has to come leads on, and any other fails. -/
theorem Tracks.ite (h : Tracks ts r.errors pending) {r' : Reading} {k : Kind}
    {cause : GrammarCause} (hcause : cause ≠ .invalidTarget)
    (h' : t.kind = k → Tracked (ts ++ [t]) r') :
    Tracked (ts ++ [t]) (if t.kind = k then r' else r.fail t cause) := by
  split
  · next hk => exact h' hk
  · exact h.fail hcause

/-- Errors keep their marks where an operand has to come. -/
theorem Tracks.shiftOperand (h : Tracks ts r.errors pending) (place : Place) :
    Tracked (ts ++ [t]) (r.shiftOperand pending place t) := by
  unfold Reading.shiftOperand
  split
  case h_1 ht | h_2 ht => exact (h.take (by rw [ht]; rfl)).unary t
  case h_9 ht => exact h.group ht
  case h_10 => exact h.fail (by decide)
  all_goals next ht => exact h.take (by rw [ht]; rfl)

/-- Errors keep their marks after a whole expression. -/
theorem Tracks.shiftEnd (h : Tracks ts r.errors []) (e : Expr) (place : Place) :
    Tracked (ts ++ [t]) (r.shiftEnd e place t) := by
  cases place <;> exact h.ite (by decide) fun _ => h.settle t

/-- An expression ends in a parenthesis that waits, or nothing waits behind it. -/
theorem close_waiting (e : Expr) (pending : List Pending) :
    (close e pending).2.1 = [] ∨ ∃ rest, (close e pending).2.1 = .group :: rest := by
  fun_induction Reading.close e pending with
  | case1 _ _ _ ih | case2 _ _ _ _ ih | case3 _ _ _ _ ih => exact ih
  | case4 e target eq rest hname e' left errors hclose ih =>
    rw [hclose] at ih
    exact ih
  | case5 e rest hu hb hn ha =>
    cases rest with
    | nil => exact .inl rfl
    | cons p rest =>
      cases p with
      | group => exact .inr ⟨rest, rfl⟩
      | unary => exact absurd rfl (hu _ _)
      | binary => exact absurd rfl (hb _ _ _)
      | assign => exact absurd rfl (ha _ _ _)

/-- Errors keep their marks after an operand. -/
theorem Tracks.shiftOperator (h : Tracks ts r.errors pending) (e : Expr) (place : Place) :
    Tracked (ts ++ [t]) (r.shiftOperator e pending place t) := by
  unfold Reading.shiftOperator
  split
  · next hlevel =>
    have ht : nesting 0 t.kind = some 0 := by
      unfold nesting
      split <;> simp_all [Kind.level]
    exact (h.take ht).binary _ e _ t
  · split
    · next ht => exact h.assign 0 e _ ht
    · have hclosed := h.close e
      have hwaiting := close_waiting e pending
      generalize Reading.close e pending = closed at hclosed hwaiting
      obtain ⟨whole, rest, faults⟩ := closed
      dsimp only at hclosed hwaiting ⊢
      rcases hwaiting with rfl | ⟨rest, rfl⟩
      · exact Tracks.shiftEnd (r := { r with errors := r.errors ++ faults }) hclosed whole place
      · exact Tracks.ite (r := { r with errors := r.errors ++ faults }) hclosed (by decide)
          hclosed.ungroup

/-- Errors keep their marks where a statement has to come. -/
theorem Tracks.shiftStatement (h : Tracks ts r.errors []) :
    Tracked (ts ++ [t]) (r.shiftStatement t) := by
  unfold Reading.shiftStatement
  split
  case h_6 => exact h.shiftOperand .statement
  all_goals exact h.settle t

/-- Errors keep their marks where a declaration may come. -/
theorem Tracks.shiftDeclaration (h : Tracks ts r.errors []) :
    Tracked (ts ++ [t]) (r.shiftDeclaration t) := by
  unfold Reading.shiftDeclaration
  split
  case h_4 => exact h.fail (by decide)
  case h_5 => exact h.shiftStatement
  all_goals exact h.settle t

/-- Errors keep their marks where something definite has to come. -/
theorem Tracks.shift {goal : Goal} (h : Tracks ts r.errors (pendingIn goal)) :
    Tracked (ts ++ [t]) (r.shift goal t) := by
  cases goal with
  | declaration => exact h.shiftDeclaration
  | statement => exact h.shiftStatement
  | operand pending place => exact h.shiftOperand place
  | operator e pending place => exact h.shiftOperator e place
  | varName | ifParen | whileParen | forParen =>
    exact h.ite (by decide) fun _ => h.settle t
  | varEnd name =>
    simp only [Reading.shift]
    split
    case h_3 => exact h.fail (by decide)
    all_goals exact h.settle t
  | forInit k =>
    simp only [Reading.shift]
    split
    case h_3 => exact Tracks.shiftOperand (r := { r with outer := .forInit k :: r.outer }) h _
    all_goals exact h.settle t
  | forCondition | forStep =>
    simp only [Reading.shift]
    split
    · exact h.settle t
    · exact h.shiftOperand _

/-- Nothing waits for an operand where a statement has gone to its construct. -/
theorem pendingIn_conclude (r : Reading) (s : Stmt) (outer : List Outer) :
    pendingIn (r.conclude s outer).2 = [] := by
  fun_induction conclude r s outer with
  | case1 | case2 | case7 => rfl
  | case3 _ _ _ _ ih | case4 _ _ _ _ _ ih | case5 _ _ _ _ ih | case6 _ _ _ ih => exact ih

/-- Errors keep their marks in every step. -/
theorem Tracked.step (h : Tracked ts r) : Tracked (ts ++ [t]) (r.step t) := by
  unfold Tracked at h
  unfold Reading.step
  split
  · next goal hmode =>
    rw [hmode] at h
    exact Tracks.shift h
  · next s hmode =>
    split
    · exact h.settle t
    · refine Tracks.shift ?_
      rw [errors_conclude, pendingIn_conclude]
      exact h.forget
  · split
    · exact Tracks.shift h.forget
    · exact h.settle t

end Steps

/-- The errors of a reading have marks in the tokens read. -/
theorem tracked_run (ts : List Token) : Tracked ts (start.run ts) := by
  induction ts using List.reverseRecOn with
  | nil => exact ⟨[], rfl, ⟨List.forall_mem_nil _, List.forall_mem_nil _, .nil⟩, .nil []⟩
  | append_singleton ts t ih =>
    rw [run_append]
    exact ih.step

/-- The errors of a stream have marks in it, with its end token. -/
theorem exists_marked_of_parse {tokens : List Token} {errors : List GrammarError}
    (h : parse tokens = .error errors) : ∃ marks : List Mark, errors = marks.map Mark.error ∧
      Marked (beforeEnd tokens ++ [endToken tokens]) marks := by
  obtain ⟨marks, herrors, hmarked, -⟩ := tracked_run (beforeEnd tokens ++ [endToken tokens])
  unfold parse at h
  dsimp only at h
  split at h
  · cases h
  · cases h
    exact ⟨marks, herrors, hmarked⟩

section Positions

/-- A stream whose only end token is its last is read to its end. -/
theorem stream_of_end {before : List Token} {e : Token} (hbefore : ∀ t ∈ before, t.kind ≠ .eof)
    (he : e.kind = .eof) :
    beforeEnd (before ++ [e]) ++ [endToken (before ++ [e])] = before ++ [e] := by
  have hnone := find?_eof_eq_none hbefore
  rw [beforeEnd_append_end he, endToken_append_end he, hnone, Option.getD_none,
    beforeEnd_eq_self hnone]

/-- Tokens with their positions as lines are of the kinds that they were of. -/
theorem exists_mem_of_mem_placed {ts : List Token} {t : Token} (h : t ∈ placed ts) :
    ∃ t' ∈ ts, t.kind = t'.kind := by
  obtain ⟨i, hi, rfl⟩ := List.mem_mapIdx.mp h
  exact ⟨ts[i], List.getElem_mem hi, rfl⟩

/-- The stream of positions of a source is read to its end. -/
theorem stream_placed_of_scan {source : Text} {tokens : List Token}
    (h : scan source = .ok tokens) :
    beforeEnd (placed tokens) ++ [endToken (placed tokens)] = placed tokens := by
  obtain ⟨-, rfl⟩ := scan_eq_ok_iff.mp h
  have hlast : placed (sourceTokens source ++ [Token.eof (lastLine source)]) =
      placed (sourceTokens source) ++ [Token.eof (sourceTokens source).length] :=
    List.mapIdx_concat
  rw [hlast]
  refine stream_of_end (fun t ht => ?_) rfl
  obtain ⟨t', ht', hkind⟩ := exists_mem_of_mem_placed ht
  exact hkind ▸ kind_ne_eof_of_mem_sourceTokens ht'

/-- The line of a token that is found in a stream of positions counts the tokens before it. -/
theorem line_of_prefix_placed {tokens before : List Token} {t : Token}
    (h : before ++ [t] <+: placed tokens) : t.line = before.length := by
  have ht : (placed tokens)[before.length]? = some t := by
    obtain ⟨rest, hrest⟩ := h
    rw [← hrest, List.append_assoc, List.getElem?_append_right (Nat.le_refl _), Nat.sub_self]
    rfl
  rw [placed, List.getElem?_mapIdx] at ht
  obtain ⟨t', -, rfl⟩ := Option.map_eq_some_iff.mp ht
  rfl

variable (g : Int → Int)

/-- Which parentheses are open is no matter of lines. -/
theorem nestingAfter_mapLine (depth : Nat) (ts : List Token) :
    nestingAfter depth (ts.map (Token.mapLine g)) = nestingAfter depth ts :=
  List.foldlM_map

/-- The same tokens lie between two marks on other lines. -/
theorem Mark.before_mapLine {m m' : Mark} {between : List Token}
    (h : m'.before = m.before ++ m.token :: between) :
    (m'.mapLine g).before =
      (m.mapLine g).before ++ (m.mapLine g).token :: between.map (Token.mapLine g) := by
  simp only [Mark.mapLine, h, List.map_append, List.map_cons]

/-- Which error is found further on is no matter of lines, -/
theorem Mark.Precedes.mapLine {m m' : Mark} (h : m.Precedes m') :
    (m.mapLine g).Precedes (m'.mapLine g) := by
  obtain ⟨between, hbetween⟩ := h
  exact ⟨_, Mark.before_mapLine g hbetween⟩

/-- nor is which assignment is in the value of which. -/
theorem Mark.Encloses.mapLine {m m' : Mark} (h : m.Encloses m') :
    (m.mapLine g).Encloses (m'.mapLine g) := by
  obtain ⟨between, hbetween, hwithin⟩ := h.within
  refine ⟨h.target, h.target', _, Mark.before_mapLine g hbetween, ?_⟩
  rwa [WithinValue, nestingAfter_mapLine]

/-- Marks in tokens are marks in the tokens on other lines. -/
theorem Marked.mapLine {ts : List Token} {marks : List Mark} (h : Marked ts marks) :
    Marked (ts.map (Token.mapLine g)) (marks.map (Mark.mapLine g)) where
  found := List.forall_mem_map.mpr fun m hm => by
    have hmapped := (h.found m hm).map (Token.mapLine g)
    rwa [List.map_append] at hmapped
  equals := List.forall_mem_map.mpr h.equals
  ordered := List.pairwise_map.mpr (h.ordered.imp fun horder =>
    horder.imp (Mark.Precedes.mapLine g) (Mark.Encloses.mapLine g))

end Positions

/-- The errors of a source have marks at the positions where reading finds the errors. -/
theorem exists_marked_of_scan {source : Text} {tokens : List Token} {errors : List GrammarError}
    (hscan : scan source = .ok tokens) (hparse : parse tokens = .error errors) :
    ∃ marks : List Mark, errors = marks.map Mark.error ∧
      parse (placed tokens) = .error (marks.map Mark.atPosition) ∧ Marked tokens marks := by
  have hne : placed tokens ≠ [] := by
    obtain ⟨-, rfl⟩ := scan_eq_ok_iff.mp hscan
    exact placed_ne_nil (List.append_ne_nil_of_right_ne_nil _ (List.cons_ne_nil _ _))
  have hmapped := parse_mapLine (lineAt tokens) hne
  rw [map_lineAt_placed, hparse] at hmapped
  cases hplaced : parse (placed tokens) with
  | ok program =>
    rw [hplaced] at hmapped
    cases hmapped
  | error faults =>
    obtain ⟨marks, rfl, hmarked⟩ := exists_marked_of_parse hplaced
    rw [stream_placed_of_scan hscan] at hmarked
    rw [hplaced] at hmapped
    have herrors : errors = (marks.map Mark.error).map (GrammarError.mapLine (lineAt tokens)) :=
      Except.error.inj hmapped
    refine ⟨marks.map (Mark.mapLine (lineAt tokens)), ?_, ?_, ?_⟩
    · rw [herrors, List.map_map, List.map_map]
      rfl
    · rw [List.map_map]
      refine congrArg Except.error (List.map_congr_left fun m hm => ?_)
      have hline := line_of_prefix_placed (hmarked.found m hm)
      rw [Mark.error, hline, Function.comp_apply, Mark.atPosition, Mark.mapLine, List.length_map]
    · have hmoved := hmarked.mapLine (lineAt tokens)
      rwa [map_lineAt_placed] at hmoved

/-- Where the lines of tokens go up, so do those of errors that are found one behind the other. -/
theorem Mark.Precedes.line_le {tokens : List Token} {m m' : Mark}
    (hlines : tokens.Pairwise fun t t' => t.line ≤ t'.line) (h : m.Precedes m')
    (hfound : m'.before ++ [m'.token] <+: tokens) : m.token.line ≤ m'.token.line := by
  obtain ⟨between, hbetween⟩ := h
  have hread := hlines.sublist hfound.sublist
  rw [hbetween] at hread
  obtain ⟨-, -, hcross⟩ := List.pairwise_append.mp hread
  exact hcross m.token (List.mem_append_right _ List.mem_cons_self) m'.token List.mem_cons_self

/-- Where the lines of tokens go up, the lines of errors go up exactly if assignments to what is no
variable share the line of those in their values. -/
theorem Marked.pairwise_line_iff {tokens : List Token} {marks : List Mark}
    (h : Marked tokens marks) (hlines : tokens.Pairwise fun t t' => t.line ≤ t'.line) :
    (marks.map Mark.error).Pairwise (fun error error' => error.line ≤ error'.line) ↔
      marks.Pairwise fun m m' => m'.Encloses m → m.token.line = m'.token.line := by
  rw [List.pairwise_map]
  constructor
  · intro hsorted
    refine hsorted.imp_of_mem fun {m m'} hm _ hle hencloses => ?_
    exact Int.le_antisymm hle (hencloses.precedes.line_le hlines (h.found m hm))
  · intro hshared
    refine (hshared.and h.ordered).imp_of_mem fun {m m'} _ hm' ⟨hline, horder⟩ => ?_
    rcases horder with hprecedes | hencloses
    · exact hprecedes.line_le hlines (h.found m' hm')
    · exact Int.le_of_eq (hline hencloses)

/-- The errors of a source that is scanned but not parsed come in the order of the tokens they are
found at, but for assignments to what is no variable: these are told behind those in their values.
Which tokens these are is what reading the positions of the tokens in place of their lines reports.
Therefore the lines of the errors go up exactly if no two such assignments, one in the value of the
other, are on different lines. -/
theorem errors_in_source_order_iff {source : Text} {tokens : List Token}
    {errors : List GrammarError} (hscan : scan source = .ok tokens)
    (hparse : parse tokens = .error errors) :
    ∃ marks : List Mark, errors = marks.map Mark.error ∧
      parse (placed tokens) = .error (marks.map Mark.atPosition) ∧ Marked tokens marks ∧
      (errors.Pairwise (fun error error' => error.line ≤ error'.line) ↔
        marks.Pairwise fun m m' => m'.Encloses m → m.token.line = m'.token.line) := by
  obtain ⟨marks, rfl, hplaced, hmarked⟩ := exists_marked_of_scan hscan hparse
  exact ⟨marks, rfl, hplaced, hmarked, hmarked.pairwise_line_iff (pairwise_line_of_scan hscan)⟩

/-- Two assignments to `nil` on the first line, one in the value of the other, and a statement on the
second line that lacks its expression: the lines of the errors go up. The inner assignment has its
equals sign behind four tokens, the outer behind one, and nine tokens are before the semicolon where
an expression has to come. -/
theorem errors_in_source_order_iff_of_one_line :
    let source := utf8 "nil = (nil = nil);\nprint ;"
    ∃ tokens, scan source = .ok tokens ∧
      parse tokens = .error [⟨.invalidTarget, 1⟩, ⟨.invalidTarget, 1⟩, ⟨.expectExpression, 2⟩] ∧
      ∃ marks : List Mark, [⟨.invalidTarget, 1⟩, ⟨.invalidTarget, 1⟩, ⟨.expectExpression, 2⟩] =
        marks.map Mark.error ∧
        marks.map Mark.atPosition =
          [⟨.invalidTarget, 4⟩, ⟨.invalidTarget, 1⟩, ⟨.expectExpression, 9⟩] ∧
        Marked tokens marks ∧
        marks.Pairwise fun m m' => m'.Encloses m → m.token.line = m'.token.line := by
  intro source
  obtain ⟨tokens, hscan⟩ : ∃ tokens, scan source = .ok tokens := ⟨_, rfl⟩
  have hparse : parse tokens =
      .error [⟨.invalidTarget, 1⟩, ⟨.invalidTarget, 1⟩, ⟨.expectExpression, 2⟩] := by
    cases hscan
    rfl
  have hread : parse (placed tokens) =
      .error [⟨.invalidTarget, 4⟩, ⟨.invalidTarget, 1⟩, ⟨.expectExpression, 9⟩] := by
    cases hscan
    rfl
  obtain ⟨marks, herrors, hplaced, hmarked, hiff⟩ := errors_in_source_order_iff hscan hparse
  exact ⟨tokens, hscan, hparse, marks, herrors, Except.error.inj (hplaced.symm.trans hread),
    hmarked, hiff.mp (by decide)⟩

/-- An assignment to `nil` on the first line whose value is one on the second line: the error of the
second line is told first. -/
theorem errors_out_of_order_of_nested_targets :
    let source := utf8 "nil =\nnil =\nnil;"
    ∃ tokens errors, scan source = .ok tokens ∧ parse tokens = .error errors ∧
      errors = [⟨.invalidTarget, 2⟩, ⟨.invalidTarget, 1⟩] ∧
      ¬ errors.Pairwise fun error error' => error.line ≤ error'.line :=
  ⟨_, _, rfl, rfl, rfl, by decide⟩

end Lox.Grammar
