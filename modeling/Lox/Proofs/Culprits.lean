import Lox.Proofs.Grammar.ErrorOrder
import Lox.Proofs.Moments
import Lox.Proofs.Semantics.Evaluation
import Lox.Proofs.Tree.Built

/-!
# Errors and the tokens at fault

The line of an error leads to the token at fault. Errors of grammar are found at tokens of the
stream. A runtime error arises at a moment of the run, by the task of that moment itself, and all
that is taken up during a run of a source is built from the tokens of this source: so the error is
on the line of one of them, and it is the name that nothing binds or the operator whose operands
are of the wrong kind.
-/

namespace Lox

variable {P : Token → Prop}

/-- Code that is built from tokens of a class: each of its statements is. -/
def Code.Built (P : Token → Prop) : Code → Prop
  | statement s => s.Built P
  | row body => ∀ s ∈ body, s.Built P

/-- A task that is built from tokens of a class. -/
def Task.Built (P : Token → Prop) : Task → Prop
  | evaluate e => e.Built P
  | carryOut c => c.Built P

/-- The expression of a statement is built from tokens of the statement. -/
theorem Semantics.Subject.built {s : Stmt} {e : Expr} (h : Subject s e) (hs : s.Built P) :
    e.Built P := by
  cases h with
  | expression =>
    cases hs with
    | expression he => exact he
  | print =>
    cases hs with
    | print _ he => exact he
  | var n hp =>
    cases hs with
    | bare => exact absurd rfl hp
    | var _ _ he => exact he
  | conditional =>
    cases hs with
    | ifThen _ hc | ifElse _ hc => exact hc
  | loop =>
    cases hs with
    | loop _ hc => exact hc

/-- What a task takes up is built from the tokens of the task. -/
theorem Enters.built {settings : Settings} {a b : Moment} (h : Enters settings a b)
    (ha : a.task.Built P) : b.task.Built P := by
  cases h with
  | grouping =>
    cases ha with
    | grouping he => exact he
  | assigned =>
    cases ha with
    | assign _ _ he => exact he
  | operand =>
    cases ha with
    | unary _ _ he => exact he
  | logicalLeft =>
    cases ha with
    | logical _ _ hl => exact hl
  | logicalRight =>
    cases ha with
    | logical _ _ _ hr => exact hr
  | binaryLeft =>
    cases ha with
    | binary _ _ hl => exact hl
  | binaryRight =>
    cases ha with
    | binary _ _ _ hr => exact hr
  | subject h => exact h.built ha
  | thenBranch =>
    cases ha with
    | ifThen _ _ hs | ifElse _ _ hs => exact hs
  | elseBranch _ _ ht =>
    cases ha with
    | ifThen => exact absurd rfl ht
    | ifElse _ _ _ ht => exact ht
  | round =>
    cases ha with
    | loop _ _ hs => exact hs
  | nextRound => exact ha
  | block =>
    cases ha with
    | block hbody => exact hbody
  | first => exact (List.forall_mem_cons.mp ha).1
  | next => exact (List.forall_mem_cons.mp ha).2

/-- At every moment of a source what is taken up is built from tokens of the source. -/
theorem WorkUnit.Meets.built {source : Text} {settings : Settings} {m : Machine} {a : Moment}
    (h : (WorkUnit.source source).Meets settings m a) : a.task.Built (· ∈ sourceTokens source) := by
  obtain ⟨program, hprogram, hpath⟩ := h
  induction hpath with
  | refl => exact Accepts.built hprogram fun _ ht => ht
  | tail _ henters ih => exact henters.built ih

/-- The token that a cause is about: the name that nothing binds, or the operator whose operands
are of the wrong kind. No token is to blame for what sources cannot express. -/
inductive RuntimeCause.Blames : RuntimeCause → Token → Prop
  | undefinedVariable {n : Token} (hkind : n.kind = .identifier) :
      Blames (.undefinedVariable n.lexeme) n
  | notNumber {op : Token} (right : Option Value) (hkind : op.kind = .sign .minus) :
      Blames (.notNumber right) op
  | notNumbers {op : Token} (left right : Option Value)
      (hkind : op.kind ∈ Semantics.numericKinds) : Blames (.notNumbers left right) op
  | notAddable {op : Token} (left right : Option Value) (hkind : op.kind = .sign .plus) :
      Blames (.notAddable left right) op

/-- A runtime error that leads to a token. -/
structure RuntimeError.PointsAt (error : RuntimeError) (t : Token) : Prop where
  /-- It is on the line of the token. -/
  line_eq : error.line = t.line
  /-- The token is what its cause is about. -/
  blames : error.cause.Blames t

/-- An error of grammar that leads to a token. -/
structure GrammarError.PointsAt (error : GrammarError) (t : Token) : Prop where
  /-- It is on the line of the token. -/
  line_eq : error.line = t.line
  /-- An assignment that has no variable as its target is told at its equals sign. -/
  equals : error.cause = .invalidTarget → t.kind = .sign .equal

section Operations

variable {n op : Token} {error : RuntimeError}

/-- A name that cannot be looked up leads to itself. -/
theorem RuntimeError.PointsAt.of_get {a : Arena} {index : Int} (hn : n.kind = .identifier)
    (h : a.get index n = .error (.error error)) : error.PointsAt n := by
  unfold Arena.get at h
  split at h
  case h_2 =>
    cases h
    exact ⟨rfl, .undefinedVariable hn⟩
  all_goals cases h

/-- A name that cannot be assigned to leads to itself. -/
theorem RuntimeError.PointsAt.of_assign {a : Arena} {index : Int} {v : Option Value}
    (hn : n.kind = .identifier) (h : a.assign index n v = .error (.error error)) :
    error.PointsAt n := by
  unfold Arena.assign at h
  split at h
  case h_2 =>
    cases h
    exact ⟨rfl, .undefinedVariable hn⟩
  all_goals cases h

/-- An operator in front that does not fit its operand leads to itself. -/
theorem RuntimeError.PointsAt.of_applyUnary {v : Option Value}
    (hop : op.kind = .sign .bang ∨ op.kind = .sign .minus)
    (h : applyUnary op v = .error error) : error.PointsAt op := by
  have hprefixed := (Semantics.prefixed_iff op v (.error error)).mpr h
  cases hprefixed with
  | notNumber hminus => exact ⟨rfl, .notNumber v hminus⟩
  | unknown hbang hminus => rcases hop with hop | hop <;> contradiction

/-- An operator that does not fit its two operands leads to itself. -/
theorem RuntimeError.PointsAt.of_applyBinary {v w : Option Value}
    (hop : op.kind ∈ Semantics.generalKinds ++ Semantics.numericKinds)
    (h : applyBinary op v w = .error error) : error.PointsAt op := by
  have hcombined := Semantics.combined_applyBinary op v w
  rw [h] at hcombined
  cases hcombined with
  | notAddable hplus => exact ⟨rfl, .notAddable v w hplus⟩
  | notNumbers hnumeric => exact ⟨rfl, .notNumbers v w hnumeric⟩
  | unknown hgeneral hnumeric =>
    rcases List.mem_append.mp hop with hmem | hmem <;> contradiction

end Operations

/-- A task that is stopped by an error leads to one of its own tokens, and not to one of a task
that it takes up or that takes it up. -/
theorem Moment.Fails.exists_pointsAt {a : Moment} {error : RuntimeError}
    (h : a.Fails (.error error)) (ha : a.task.Built P) : ∃ t, P t ∧ error.PointsAt t := by
  cases h with
  | unsupportedExpression h => cases h <;> cases ha
  | unsupportedStatement h => cases h <;> cases ha
  | get h =>
    cases ha with
    | name hn hkind => exact ⟨_, hn, .of_get hkind h⟩
  | assign _ h =>
    cases ha with
    | assign hn hkind => exact ⟨_, hn, .of_assign hkind h⟩
  | unary _ h =>
    cases ha with
    | unary hop hkind => exact ⟨_, hop, .of_applyUnary hkind h⟩
  | binary _ _ h =>
    cases ha with
    | binary hop hkind => exact ⟨_, hop, .of_applyBinary hkind h⟩
  | define _ _ h =>
    -- Binding a name in a scope that does not exist is a fault and no error.
    unfold Arena.define at h
    split at h <;> cases h

/-- The forms that the message of a runtime error can have if a source is run. -/
inductive Complaint where
  /-- A name is not bound. -/
  | unbound
  /-- An operand is no number. -/
  | number
  /-- Two operands are not both numbers. -/
  | numbers
  /-- Two operands are neither two numbers nor two strings. -/
  | addable
  deriving DecidableEq

namespace Complaint

/-- How a message of the form ends. -/
def ending : Complaint → Text
  | unbound => utf8 "'."
  | number => utf8 " must be a number."
  | numbers => utf8 " must be numbers."
  | addable => utf8 " must both be numbers or both be strings."

/-- The kinds of tokens that a message of the form can be about. -/
def kinds : Complaint → List Kind
  | unbound => [.identifier]
  | number => [.sign .minus]
  | numbers => Semantics.numericKinds
  | addable => [.sign .plus]

/-- A message has one form: no ending ends with another. -/
theorem eq_of_suffix {c c' : Complaint} {message : Text} (h : c.ending <:+ message)
    (h' : c'.ending <:+ message) : c = c' := by
  have hapart : ∀ c c' : Complaint, c.ending <:+ c'.ending → c = c' := by
    intro c c'
    cases c <;> cases c' <;> decide
  rcases List.suffix_or_suffix_of_suffix h h' with hsuffix | hsuffix
  · exact hapart c c' hsuffix
  · exact (hapart c' c hsuffix).symm

end Complaint

/-- A token that suits a message: it is of a kind that the form of the message is about, and it is
the name that the message tells. -/
structure Token.Suits (t : Token) (message : Text) : Prop where
  /-- Its kind is one that the form is about. -/
  kind_mem : ∀ c : Complaint, c.ending <:+ message → t.kind ∈ c.kinds
  /-- A name that is told is its lexeme. -/
  lexeme_eq : ∀ name, message = utf8 "Undefined variable '" ++ name ++ utf8 "'." →
    t.lexeme = name

/-- The message of a cause has a form that is about the token to blame. -/
theorem RuntimeCause.Blames.exists_complaint {cause : RuntimeCause} {t : Token}
    (h : cause.Blames t) : ∃ c : Complaint, c.ending <:+ cause.message ∧ t.kind ∈ c.kinds := by
  cases h with
  | undefinedVariable hkind =>
    exact ⟨.unbound, List.suffix_append _ _, List.mem_singleton.mpr hkind⟩
  | notNumber right hkind =>
    exact ⟨.number, List.suffix_append _ _, List.mem_singleton.mpr hkind⟩
  | notNumbers left right hkind => exact ⟨.numbers, List.suffix_append _ _, hkind⟩
  | notAddable left right hkind =>
    exact ⟨.addable, List.suffix_append _ _, List.mem_singleton.mpr hkind⟩

/-- The token to blame suits the message of the cause. -/
theorem RuntimeCause.Blames.suits {cause : RuntimeCause} {t : Token} (h : cause.Blames t) :
    t.Suits cause.message := by
  obtain ⟨c, hending, hkind⟩ := h.exists_complaint
  have hform : ∀ c' : Complaint, c'.ending <:+ cause.message → t.kind ∈ c'.kinds := by
    intro c' h'
    rw [Complaint.eq_of_suffix h' hending]
    exact hkind
  refine ⟨hform, fun name hmessage => ?_⟩
  have hidentifier : t.kind = .identifier :=
    List.mem_singleton.mp (hform .unbound (hmessage ▸ List.suffix_append _ _))
  cases h with
  | undefinedVariable =>
    exact List.append_cancel_left (List.append_cancel_right hmessage)
  | notNumber _ hsign | notAddable _ _ hsign =>
    rw [hidentifier] at hsign
    cases hsign
  | notNumbers _ _ hnumeric =>
    rw [hidentifier] at hnumeric
    exact absurd hnumeric (by decide)

section Run

variable {settings : Settings} {m : Machine} {source : Text}

/-- A source with bad pieces is reported with the errors of scanning it. -/
theorem Machine.scan_of_lexical {errors : List LexicalError}
    (h : (m.run settings source).failure = some (.lexical errors)) :
    scan source = .error errors := by
  unfold Machine.run at h
  split at h
  · next hscan =>
    cases h
    exact hscan
  · dsimp only at h
    split at h
    · cases h
    · obtain ⟨_, -, hstopped⟩ := Option.map_eq_some_iff.mp h
      cases hstopped

/-- A source whose tokens make no program is reported with the errors of parsing them. -/
theorem Machine.parse_of_grammatical {errors : List GrammarError}
    (h : (m.run settings source).failure = some (.grammatical errors)) :
    ∃ tokens, scan source = .ok tokens ∧ parse tokens = .error errors := by
  unfold Machine.run at h
  split at h
  · cases h
  · next tokens hscan =>
    dsimp only at h
    split at h
    · next hparse =>
      cases h
      exact ⟨tokens, hscan, hparse⟩
    · obtain ⟨_, -, hstopped⟩ := Option.map_eq_some_iff.mp h
      cases hstopped

end Run

/-- An error of grammar leads to one of the tokens that the source is scanned into. -/
theorem exists_pointsAt_of_parse {source : Text} {tokens : List Token}
    {errors : List GrammarError} (hscan : scan source = .ok tokens)
    (hparse : parse tokens = .error errors) :
    ∀ error ∈ errors, ∃ t ∈ tokens, error.PointsAt t := by
  obtain ⟨marks, rfl, -, hmarked⟩ := Grammar.exists_marked_of_scan hscan hparse
  intro error herror
  obtain ⟨mark, hmark, rfl⟩ := List.mem_map.mp herror
  have hmem : mark.token ∈ tokens :=
    (hmarked.found mark hmark).subset (List.mem_append_right _ List.mem_cons_self)
  exact ⟨mark.token, hmem, rfl, hmarked.equals mark hmark⟩

/-- A runtime error leads to one of the tokens that the source is scanned into. -/
theorem exists_pointsAt_of_run {settings : Settings} {m : Machine} {source : Text}
    {error : RuntimeError}
    (h : (m.run settings source).failure = some (.stopped (.error error))) :
    ∃ tokens, scan source = .ok tokens ∧ ∃ t ∈ tokens, error.PointsAt t := by
  have hrun : ((WorkUnit.source source).run settings m).failure =
      some (.stopped (.error error)) := h
  obtain ⟨a, ha, hfails⟩ := WorkUnit.exists_meets_of_failure hrun nofun
  obtain ⟨t, ht, hpoints⟩ := hfails.exists_pointsAt ha.built
  obtain ⟨program, ⟨tokens, hscan, -⟩, -⟩ := ha
  refine ⟨tokens, hscan, t, ?_, hpoints⟩
  obtain ⟨-, rfl⟩ := scan_eq_ok_iff.mp hscan
  exact List.mem_append_left _ ht

/-- Whatever the machine on which a source is run, the line of every error leads to the token at
fault. A bad piece is on one of the lines of the source. Every other error is on the line of one of
the tokens that the source is scanned into, its end token included, and therefore on a line of the
source, too: of an equals sign, if an assignment has no variable as its target; of the name, if
nothing binds it; and of the operator, if its operands are of the wrong kind. The message of a
runtime error by itself tells which of these it is. -/
theorem reported_lines_point_at_culprits (settings : Settings) (m : Machine) (source : Text) :
    (∀ errors, (m.run settings source).failure = some (.lexical errors) →
      ∀ error ∈ errors, 1 ≤ error.line ∧ error.line ≤ 1 + (Text.newlines source : Nat)) ∧
    (∀ errors, (m.run settings source).failure = some (.grammatical errors) →
      ∃ tokens, scan source = .ok tokens ∧ ∀ error ∈ errors,
        (1 ≤ error.line ∧ error.line ≤ 1 + (Text.newlines source : Nat)) ∧
        ∃ t ∈ tokens, error.PointsAt t) ∧
    (∀ error, (m.run settings source).failure = some (.stopped (.error error)) →
      ∃ tokens, scan source = .ok tokens ∧
        (1 ≤ error.line ∧ error.line ≤ 1 + (Text.newlines source : Nat)) ∧
        ∃ t ∈ tokens, error.PointsAt t ∧ t.Suits error.cause.message) := by
  refine ⟨fun errors h error herror => ?_, fun errors h => ?_, fun error h => ?_⟩
  · have hscan : scanErrors source = errors := by
      rw [scanErrors, Machine.scan_of_lexical h]
    rw [← hscan, scanErrors_eq] at herror
    exact line_of_mem_lexicalErrors herror
  · obtain ⟨tokens, hscan, hparse⟩ := Machine.parse_of_grammatical h
    refine ⟨tokens, hscan, fun error herror => ?_⟩
    obtain ⟨t, ht, hpoints⟩ := exists_pointsAt_of_parse hscan hparse error herror
    exact ⟨hpoints.line_eq ▸ line_of_mem_scan hscan t ht, t, ht, hpoints⟩
  · obtain ⟨tokens, hscan, t, ht, hpoints⟩ := exists_pointsAt_of_run h
    exact ⟨tokens, hscan, hpoints.line_eq ▸ line_of_mem_scan hscan t ht, t, ht, hpoints,
      hpoints.blames.suits⟩

/-- A subtraction over three lines leads to its minus sign on the second, and a statement that is
not ended to the end token behind the line feed. -/
theorem reported_lines_point_at_culprits_of_two :
    let subtraction := utf8 "print nil\n-\nnil;"
    let unended := utf8 "print nil\n"
    (Machine.new.run ⟨.info, 1⟩ subtraction).failure =
        some (.stopped (.error ⟨.notNumbers (some .nil) (some .nil), 2⟩)) ∧
      (∃ tokens, scan subtraction = .ok tokens ∧
        ∃ t ∈ tokens, t.line = 2 ∧ t.kind ∈ Semantics.numericKinds) ∧
      (Machine.new.run ⟨.info, 1⟩ unended).failure =
        some (.grammatical [⟨.semicolonAfterValue, 2⟩]) ∧
      ∃ tokens, scan unended = .ok tokens ∧ ∃ t ∈ tokens, t.line = 2 := by
  intro subtraction unended
  have hstopped : (Machine.new.run ⟨.info, 1⟩ subtraction).failure =
      some (.stopped (.error ⟨.notNumbers (some .nil) (some .nil), 2⟩)) := rfl
  have hunended : (Machine.new.run ⟨.info, 1⟩ unended).failure =
      some (.grammatical [⟨.semicolonAfterValue, 2⟩]) := rfl
  refine ⟨hstopped, ?_, hunended, ?_⟩
  · obtain ⟨tokens, hscan, -, t, ht, hpoints, hsuits⟩ :=
      (reported_lines_point_at_culprits ⟨.info, 1⟩ .new subtraction).2.2 _ hstopped
    exact ⟨tokens, hscan, t, ht, hpoints.line_eq.symm,
      hsuits.kind_mem .numbers (List.suffix_append _ _)⟩
  · obtain ⟨tokens, hscan, herrors⟩ :=
      (reported_lines_point_at_culprits ⟨.info, 1⟩ .new unended).2.1 _ hunended
    obtain ⟨-, t, ht, hline, -⟩ := herrors _ List.mem_cons_self
    exact ⟨tokens, hscan, t, ht, hline.symm⟩

end Lox
