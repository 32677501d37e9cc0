import Lox.Proofs.Descent.Totality
import Lox.Proofs.Moments
import Lox.Proofs.Scanning.Totality
import Lox.Proofs.Semantics.Evaluation
import Lox.Proofs.Tree.Produced

/-!
# Sources do not go wrong

Carrying out statements that were read from sources never leads to a fault, to something that is
not supported or to an operator without a meaning. At every moment of such a run only trees of
sources are taken up, and only values are stored, never the absence of one; what is left as a
reason to stop is a name that nothing binds or operands of the wrong kind.
-/

namespace Lox

/-- Every name that is bound in the arena is bound to a value. -/
def Arena.Present (a : Arena) : Prop :=
  ∀ s ∈ a.scopes, ∀ binding ∈ s.bindings, ∃ v, binding.2 = some v

/-- What a name is bound to is one of the bindings. -/
theorem Bindings.mem_of_find? {name : Text} {value : Option Value} {b : Bindings}
    (h : b.find? name = some value) : ∃ n, (n, value) ∈ b := by
  induction b with
  | nil => cases h
  | cons head rest ih =>
    obtain ⟨n, v⟩ := head
    simp only [find?] at h
    split at h
    · cases h
      exact ⟨n, List.mem_cons_self⟩
    · obtain ⟨n', hmem⟩ := ih h
      exact ⟨n', List.mem_cons_of_mem _ hmem⟩

/-- A binding after a name is bound anew was there before or has the new value. -/
theorem Bindings.eq_or_mem_of_mem_insert {name : Text} {value : Option Value} {b : Bindings}
    {binding : Text × Option Value} (h : binding ∈ b.insert name value) :
    binding.2 = value ∨ binding ∈ b := by
  induction b with
  | nil => exact .inl (List.mem_singleton.mp h ▸ rfl)
  | cons head rest ih =>
    obtain ⟨n, v⟩ := head
    simp only [insert] at h
    split at h
    · rcases List.mem_cons.mp h with rfl | hmem
      · exact .inl rfl
      · exact .inr (List.mem_cons_of_mem _ hmem)
    · rcases List.mem_cons.mp h with rfl | hmem
      · exact .inr List.mem_cons_self
      · exact (ih hmem).imp_right (List.mem_cons_of_mem _)

namespace Arena.Present

variable {a : Arena}

/-- Binding a name to a value keeps values only. -/
theorem bind (h : a.Present) (index : Nat) (name : Text) (v : Value) :
    (a.bind index name (some v)).Present := by
  intro s hs binding hbinding
  obtain ⟨i, hi⟩ := List.mem_iff_getElem?.mp hs
  rw [Arena.bind, List.getElem?_modify] at hi
  obtain ⟨s₀, hs₀, rfl⟩ := Option.map_eq_some_iff.mp hi
  have hold := h s₀ (List.mem_of_getElem? hs₀)
  split at hbinding
  · rcases Bindings.eq_or_mem_of_mem_insert hbinding with hvalue | hmem
    · exact ⟨v, hvalue⟩
    · exact hold binding hmem
  · exact hold binding hbinding

/-- A new scope binds nothing. -/
theorem push (h : a.Present) (parent : Int) : (a.push parent).Present := by
  intro s hs
  rcases List.mem_append.mp hs with hmem | hmem
  · exact h s hmem
  · rw [List.mem_singleton.mp hmem]
    exact List.forall_mem_nil _

/-- Releasing scopes leaves those that stay as they are. -/
theorem pop (h : a.Present) (index : Nat) : (a.pop index).Present :=
  fun s hs => h s (List.mem_of_mem_take hs)

/-- What a name resolves to is a value. -/
theorem exists_of_resolveWithin (h : a.Present) {name : Text} {steps i : Nat} {index : Int}
    {value : Option Value} (hr : a.resolveWithin name steps index = .found i value) :
    ∃ v, value = some v := by
  induction steps generalizing index with
  | zero =>
    simp only [resolveWithin] at hr
    split at hr <;> cases hr
  | succ steps ih =>
    simp only [resolveWithin] at hr
    split at hr
    · cases hr
    · split at hr
      · cases hr
      · next s hscope =>
        split at hr
        · next value' hfind =>
          cases hr
          obtain ⟨n, hmem⟩ := Bindings.mem_of_find? hfind
          have hs : s ∈ a.scopes := by
            simp only [scope?] at hscope
            split at hscope
            · cases hscope
            · exact List.mem_of_getElem? hscope
          exact h s hs _ hmem
        · exact ih hr

/-- Looking a name up gives a value. -/
theorem exists_of_get (h : a.Present) {index : Int} {n : Token} {value : Option Value}
    (hget : a.get index n = .ok value) : ∃ v, value = some v := by
  unfold Arena.get at hget
  split at hget
  · next hresolve =>
    cases hget
    exact h.exists_of_resolveWithin hresolve
  all_goals cases hget

/-- Assigning a value keeps values only. -/
theorem assign (h : a.Present) {index : Int} {n : Token} {v : Value} {a' : Arena}
    (hassign : a.assign index n (some v) = .ok a') : a'.Present := by
  unfold Arena.assign at hassign
  split at hassign
  · cases hassign
    exact h.bind _ _ _
  all_goals cases hassign

/-- Binding a value in a scope that has to exist keeps values only. -/
theorem define (h : a.Present) {index : Int} {name : Text} {v : Value} {a' : Arena}
    (hdefine : a.define index name (some v) = .ok a') : a'.Present := by
  unfold Arena.define at hdefine
  split at hdefine
  · cases hdefine
    exact h.bind _ _ _
  · cases hdefine

end Arena.Present

/-- Evaluating an expression of sources leaves values only, and if it comes to something, to a
value. -/
theorem Expr.Produced.evaluate {e : Expr} (h : e.Produced) {m m' : Machine}
    {r : Except Stop (Option Value)} (hm : m.arena.Present) (heval : m.evaluate e = (r, m')) :
    m'.arena.Present ∧ ∀ value, r = .ok value → ∃ v, value = some v := by
  induction h generalizing m m' r with
  | literal v =>
    cases heval
    exact ⟨hm, fun value hvalue => ⟨v, (Except.ok.inj hvalue).symm⟩⟩
  | name n =>
    cases heval
    exact ⟨hm, fun value hvalue => hm.exists_of_get hvalue⟩
  | grouping _ ih => exact ih hm heval
  | assign n _ ih =>
    rw [Machine.evaluate_assign] at heval
    split at heval
    · next he =>
      cases heval
      exact ⟨(ih hm he).1, nofun⟩
    · next value m₁ he =>
      obtain ⟨hm₁, hvalue⟩ := ih hm he
      obtain ⟨v, rfl⟩ := hvalue value rfl
      split at heval
      · next hassign =>
        cases heval
        exact ⟨hm₁.assign hassign, fun _ heq => ⟨v, (Except.ok.inj heq).symm⟩⟩
      · cases heval
        exact ⟨hm₁, nofun⟩
  | @unary op e _ _ _ ih =>
    rw [Machine.evaluate_unary] at heval
    split at heval
    · next he =>
      cases heval
      exact ⟨(ih hm he).1, nofun⟩
    · next value m₁ he =>
      cases heval
      refine ⟨(ih hm he).1, fun _ heq => ?_⟩
      cases happly : applyUnary op value with
      | ok v =>
        rw [happly] at heq
        exact ⟨v, (Except.ok.inj heq).symm⟩
      | error =>
        rw [happly] at heq
        cases heq
  | @binary op left right _ _ _ _ ihl ihr =>
    rw [Machine.evaluate_binary] at heval
    split at heval
    · next he =>
      cases heval
      exact ⟨(ihl hm he).1, nofun⟩
    · next value m₁ he =>
      have hm₁ := (ihl hm he).1
      split at heval
      · next he' =>
        cases heval
        exact ⟨(ihr hm₁ he').1, nofun⟩
      · next value' m₂ he' =>
        cases heval
        refine ⟨(ihr hm₁ he').1, fun _ heq => ?_⟩
        cases happly : applyBinary op value value' with
        | ok v =>
          rw [happly] at heq
          exact ⟨v, (Except.ok.inj heq).symm⟩
        | error =>
          rw [happly] at heq
          cases heq
  | logical _ _ _ _ ihl ihr =>
    rw [Machine.evaluate_logical] at heval
    split at heval
    · next he =>
      cases heval
      exact ⟨(ihl hm he).1, nofun⟩
    · next value m₁ he =>
      obtain ⟨hm₁, hvalue⟩ := ihl hm he
      split at heval
      · cases heval
        exact ⟨hm₁, fun _ heq => Except.ok.inj heq ▸ hvalue value rfl⟩
      · exact ihr hm₁ heval

/-- Code of sources: each of its statements is one. -/
def Code.Produced : Code → Prop
  | statement s => s.Produced
  | row body => ∀ s ∈ body, s.Produced

/-- A run in two parts leaves values only if both parts do. -/
theorem Ran.present_andThen {r : Ran} {next : Machine → Ran} (h : r.machine.arena.Present)
    (hnext : ∀ m, m.arena.Present → (next m).machine.arena.Present) :
    (r.andThen next).machine.arena.Present := by
  unfold andThen
  split
  · exact h
  · exact hnext _ h

/-- A loop leaves values only if its condition is one of sources and its body leaves them. -/
theorem present_repeatWhile {c : Expr} {body : Machine → Ran} (hc : c.Produced)
    (hbody : ∀ m, m.arena.Present → (body m).machine.arena.Present) (rounds : Nat) {m : Machine}
    (hm : m.arena.Present) : (repeatWhile c body rounds m).machine.arena.Present := by
  induction rounds generalizing m with
  | zero => exact hm
  | succ rounds ih =>
    unfold repeatWhile
    split
    · next heval => exact (hc.evaluate hm heval).1
    · next v m' heval =>
      have hm' := (hc.evaluate hm heval).1
      split
      · exact Ran.present_andThen (hbody m' hm') fun _ h => ih h
      · exact hm'

/-- Carrying out code of sources leaves values only. -/
theorem Code.Produced.execute {c : Code} (h : c.Produced) (settings : Settings) {m : Machine}
    (hm : m.arena.Present) : (c.execute settings m).machine.arena.Present := by
  induction c generalizing m with
  | absent | classDecl | functionDecl | returning => exact hm
  | block body ih =>
    cases h with
    | block hbody => exact (ih hbody (m := ⟨_, _⟩) (hm.push m.current)).pop m.arena.depth
  | expression value =>
    cases h with
    | expression he =>
      simp only [Code.execute, Stmt.execute]
      split
      · next heval => exact (he.evaluate hm heval).1
      · next heval => exact (he.evaluate hm heval).1
  | print keyword value =>
    cases h with
    | print _ he =>
      simp only [Code.execute, Stmt.execute]
      split
      · next heval => exact (he.evaluate hm heval).1
      · next heval => exact (he.evaluate hm heval).1
      · next heval => exact (he.evaluate hm heval).1
  | var n initializer =>
    cases h with
    | bare => exact hm
    | var _ he =>
      simp only [Code.execute, Stmt.execute]
      split
      · split
        · next heval => exact (he.evaluate hm heval).1
        · next value m' heval =>
          obtain ⟨hm', hvalue⟩ := he.evaluate hm heval
          obtain ⟨v, rfl⟩ := hvalue value rfl
          unfold Machine.define
          split
          · next hdefine => exact hm'.define hdefine
          · exact hm'
      · exact hm
  | conditional keyword condition thenBranch elseBranch iht ihe =>
    have hparts : condition.Produced ∧ thenBranch.Produced ∧
        (elseBranch.isPresent = true → elseBranch.Produced) := by
      cases h with
      | ifThen _ hc hs => exact ⟨hc, hs, fun hpresent => absurd hpresent Bool.false_ne_true⟩
      | ifElse _ hc hs ht => exact ⟨hc, hs, fun _ => ht⟩
    obtain ⟨hc, hs, ht⟩ := hparts
    simp only [Code.execute, Stmt.execute] at iht ihe ⊢
    split
    · next heval => exact (hc.evaluate hm heval).1
    · next heval =>
      have hm' := (hc.evaluate hm heval).1
      split
      · exact iht hs hm'
      · split
        · next hp => exact ihe (ht hp) hm'
        · exact hm'
  | loop keyword condition body ih =>
    cases h with
    | loop _ hc hs => exact present_repeatWhile hc (fun _ => ih hs) settings.rounds hm
  | nil => exact hm
  | cons s rest ihs ihr =>
    obtain ⟨hs, hrest⟩ := List.forall_mem_cons.mp h
    exact Ran.present_andThen (ihs hs hm) fun _ => ihr hrest

/-- A task of sources. -/
def Task.Produced : Task → Prop
  | evaluate e => e.Produced
  | carryOut c => c.Produced

/-- A moment of a run of sources: its task is one of sources, and only values are stored. -/
structure Moment.Sound (a : Moment) : Prop where
  /-- The task is one of sources. -/
  produced : a.task.Produced
  /-- Every name is bound to a value. -/
  present : a.machine.arena.Present

/-- The expression of a statement of sources is one of sources. -/
theorem Semantics.Subject.produced {s : Stmt} {e : Expr} (h : Subject s e) (hs : s.Produced) :
    e.Produced := by
  cases h with
  | expression =>
    cases hs
    assumption
  | print =>
    cases hs
    assumption
  | var n hp =>
    cases hs with
    | bare => exact absurd rfl hp
    | var _ he => exact he
  | conditional =>
    cases hs <;> assumption
  | loop =>
    cases hs
    assumption

/-- From a moment of a run of sources only such moments follow. -/
theorem Enters.sound {settings : Settings} {a b : Moment} (h : Enters settings a b)
    (ha : a.Sound) : b.Sound := by
  obtain ⟨hproduced, hpresent⟩ := ha
  cases h with
  | grouping =>
    cases hproduced with
    | grouping he => exact ⟨he, hpresent⟩
  | assigned =>
    cases hproduced with
    | assign _ he => exact ⟨he, hpresent⟩
  | operand =>
    cases hproduced with
    | unary _ _ he => exact ⟨he, hpresent⟩
  | logicalLeft =>
    cases hproduced with
    | logical _ _ hl => exact ⟨hl, hpresent⟩
  | logicalRight heval =>
    cases hproduced with
    | logical _ _ hl hr => exact ⟨hr, (hl.evaluate hpresent heval).1⟩
  | binaryLeft =>
    cases hproduced with
    | binary _ _ hl => exact ⟨hl, hpresent⟩
  | binaryRight heval =>
    cases hproduced with
    | binary _ _ hl hr => exact ⟨hr, (hl.evaluate hpresent heval).1⟩
  | subject h => exact ⟨h.produced hproduced, hpresent⟩
  | thenBranch heval =>
    cases hproduced with
    | ifThen _ hc hs | ifElse _ hc hs => exact ⟨hs, (hc.evaluate hpresent heval).1⟩
  | elseBranch heval _ ht =>
    cases hproduced with
    | ifThen => exact absurd rfl ht
    | ifElse _ hc _ ht => exact ⟨ht, (hc.evaluate hpresent heval).1⟩
  | round heval =>
    cases hproduced with
    | loop _ hc hs => exact ⟨hs, (hc.evaluate hpresent heval).1⟩
  | @nextRound k c s m m' v heval =>
    cases hproduced with
    | loop k hc hs =>
      have hm' := (hc.evaluate hpresent heval).1
      have hround : Code.Produced (.statement s) := hs
      exact ⟨Stmt.Produced.loop k hc hs, hround.execute settings hm'⟩
  | block =>
    cases hproduced with
    | block hbody => exact ⟨hbody, hpresent.push _⟩
  | first => exact ⟨(List.forall_mem_cons.mp hproduced).1, hpresent⟩
  | @next s rest m =>
    obtain ⟨hs, hrest⟩ := List.forall_mem_cons.mp hproduced
    have hstatement : Code.Produced (.statement s) := hs
    exact ⟨hrest, hstatement.execute settings hpresent⟩

/-- The causes of errors that a source can have: a name that nothing binds, or operands that are
values of the wrong kind. -/
inductive RuntimeCause.Ordinary : RuntimeCause → Prop
  | undefinedVariable (name : Text) : Ordinary (.undefinedVariable name)
  | notNumber (right : Value) : Ordinary (.notNumber (some right))
  | notNumbers (left right : Value) : Ordinary (.notNumbers (some left) (some right))
  | notAddable (left right : Value) : Ordinary (.notAddable (some left) (some right))

/-- An operator in front of its operand fails in a run of sources for its kind only. -/
theorem ordinary_of_applyUnary {op : Token} {v : Value} {error : RuntimeError}
    (hop : op.kind = .sign .bang ∨ op.kind = .sign .minus)
    (h : applyUnary op (some v) = .error error) : error.cause.Ordinary := by
  have hprefixed := (Semantics.prefixed_iff op (some v) (.error error)).mpr h
  cases hprefixed with
  | notNumber => exact .notNumber v
  | unknown hbang hminus => rcases hop with hop | hop <;> contradiction

/-- An operator between two operands fails in a run of sources for their kinds only. -/
theorem ordinary_of_applyBinary {op : Token} {v w : Value} {error : RuntimeError}
    (hop : op.kind ∈ Semantics.generalKinds ++ Semantics.numericKinds)
    (h : applyBinary op (some v) (some w) = .error error) : error.cause.Ordinary := by
  have hcombined := Semantics.combined_applyBinary op (some v) (some w)
  rw [h] at hcombined
  cases hcombined with
  | notAddable => exact .notAddable v w
  | notNumbers => exact .notNumbers v w
  | unknown hgeneral hnumeric =>
    rcases List.mem_append.mp hop with hmem | hmem <;> contradiction

/-- A task of a run of sources that cannot go on in a chain of scopes is stopped by an error of an
ordinary cause. -/
theorem Moment.Fails.ordinary {a : Moment} {stop : Stop} (h : a.Fails stop) (ha : a.Sound)
    (hchained : a.machine.Chained) : ∃ error, stop = .error error ∧ error.cause.Ordinary := by
  obtain ⟨hproduced, hpresent⟩ := ha
  cases h with
  | absentExpression | absentStatement => cases hproduced
  | unsupportedExpression h => cases h <;> cases hproduced
  | unsupportedStatement h => cases h <;> cases hproduced
  | @get n m stop h =>
    exact ⟨_, hchained.inRange.eq_of_get_error h, .undefinedVariable n.lexeme⟩
  | @assign n e m m' v stop he h =>
    have hafter := (hchained.of_sameScopes (.of_evaluate he)).inRange
    exact ⟨_, hafter.eq_of_assign_error h, .undefinedVariable n.lexeme⟩
  | unary heval h =>
    cases hproduced with
    | unary hop _ he =>
      obtain ⟨v, rfl⟩ := (he.evaluate hpresent heval).2 _ rfl
      exact ⟨_, rfl, ordinary_of_applyUnary hop h⟩
  | binary hleft hright h =>
    cases hproduced with
    | binary hop _ hl hr =>
      obtain ⟨hm', hvalue⟩ := hl.evaluate hpresent hleft
      obtain ⟨v, rfl⟩ := hvalue _ rfl
      obtain ⟨w, rfl⟩ := (hr.evaluate hm' hright).2 _ rfl
      exact ⟨_, rfl, ordinary_of_applyBinary hop h⟩
  | print heval =>
    cases hproduced with
    | print _ he =>
      obtain ⟨v, hv⟩ := (he.evaluate hpresent heval).2 none rfl
      cases hv
  | define _ he h =>
    have hafter := (hchained.of_sameScopes (.of_evaluate he)).inRange
    exact absurd h (hafter.define_ne_error _ _ _)

/-- Units that are sources. -/
inductive WorkUnit.IsSource : WorkUnit → Prop
  | intro (text : Text) : IsSource (.source text)

/-- What a source carries out is code of sources. -/
theorem WorkUnit.IsSource.produced {unit : WorkUnit} (h : unit.IsSource) {program : List Stmt}
    (hprogram : unit.CarriesOut program) : Code.Produced (.row program) := by
  obtain ⟨text⟩ := h
  exact Accepts.produced hprogram

/-- Sources store values only. -/
theorem Machine.Reached.present {m : Machine} (h : m.Reached WorkUnit.IsSource) :
    m.arena.Present := by
  induction h with
  | new =>
    intro s hs
    rw [List.mem_singleton.mp hs]
    exact List.forall_mem_nil _
  | @run m unit _ settings hunit ih =>
    rcases unit.run_cases settings m with ⟨hmachine, -⟩ | ⟨program, hprogram, hmachine, -⟩
    · rw [hmachine]
      exact ih
    · rw [hmachine]
      exact (hunit.produced hprogram).execute settings ih

/-- Every moment of a run of sources is one. -/
theorem WorkUnit.Meets.sound {unit : WorkUnit} {settings : Settings} {m : Machine} {a : Moment}
    (h : unit.Meets settings m a) (hunit : unit.IsSource) (hm : m.arena.Present) : a.Sound := by
  obtain ⟨program, hprogram, hpath⟩ := h
  induction hpath with
  | refl => exact ⟨hunit.produced hprogram, hm⟩
  | tail _ henters ih => exact henters.sound ih

/-- A source that stops on a machine that sources have led to lacks rounds or has an error of an
ordinary cause. -/
theorem Machine.Reached.ordinary_of_stopped {m : Machine} (h : m.Reached WorkUnit.IsSource)
    {settings : Settings} {source : Text} {stop : Stop}
    (hstopped : (m.run settings source).failure = some (.stopped stop)) :
    stop = .unfinished ∨ ∃ error, stop = .error error ∧ error.cause.Ordinary := by
  by_cases hstop : stop = .unfinished
  · exact .inl hstop
  · have hrun : ((WorkUnit.source source).run settings m).failure = some (.stopped stop) := hstopped
    obtain ⟨a, ha, hfails⟩ := WorkUnit.exists_meets_of_failure hrun hstop
    exact .inr (hfails.ordinary (ha.sound (.intro source) h.present)
      (ha.chained h.atRest.chained))

/-- A program of a source is written out in full. -/
theorem Accepts.exists_treeText {source : Text} {program : List Stmt}
    (h : Accepts source program) :
    ∃ items, Stmt.sexps? program = some items ∧
      treeText? program = some (Text.unlines (items.map Sexp.text)) ∧
      ∀ x ∈ items, x.Complete := by
  obtain ⟨items, hitems, hcomplete⟩ :=
    Stmt.exists_sexps Quoted.quote fun s hs => (h.produced s hs).exists_sexp Quoted.quote
  exact ⟨items, hitems, by rw [treeText?, treeTextWith?, hitems]; rfl, hcomplete⟩

/-- A source never goes wrong on a machine that sources have led to. Scanning it with a cursor and
parsing its tokens by descent end without looking outside the source or the stream. At every
moment of its run what is taken up is a tree of sources, only values are stored and every access to
a scope is in range; if the run stops, and not for lack of rounds, the cause is a name that nothing
binds or operands of the wrong kind. Afterwards only values are stored. Its program can be written
out, and nothing in it is missing. -/
theorem sources_never_go_wrong {m : Machine} (h : m.Reached WorkUnit.IsSource)
    (settings : Settings) (source : Text) :
    Scanning.scan source = some (.ok (scan source)) ∧
      (∀ tokens, scan source = .ok tokens →
        Descent.parse tokens = some (.ok (parse tokens))) ∧
      (∀ a, (WorkUnit.source source).Meets settings m a → a.Sound ∧ a.machine.InRange) ∧
      (∀ stop, (m.run settings source).failure = some (.stopped stop) →
        stop = .unfinished ∨ ∃ error, stop = .error error ∧ error.cause.Ordinary) ∧
      (m.run settings source).machine.arena.Present ∧
      ∀ program, Accepts source program →
        ∃ items, Stmt.sexps? program = some items ∧
          treeText? program = some (Text.unlines (items.map Sexp.text)) ∧
          ∀ x ∈ items, x.Complete := by
  have hafter : (m.run settings source).machine.Reached WorkUnit.IsSource :=
    .run h settings (.intro source)
  refine ⟨Scanning.scan_eq source, fun tokens _ => Descent.parse_eq tokens, fun a ha => ?_,
    fun stop => h.ordinary_of_stopped, hafter.present, fun program => Accepts.exists_treeText⟩
  exact ⟨ha.sound (.intro source) h.present, (ha.chained h.atRest.chained).inRange⟩

/-- A source that asks for an unbound name stops with that error on a new machine and leaves
values only. -/
theorem sources_never_go_wrong_of_unbound_name :
    let source := utf8 "print a;"
    Machine.new.Reached WorkUnit.IsSource ∧
      (Machine.new.run ⟨.info, 1⟩ source).failure =
        some (.stopped (.error ⟨.undefinedVariable (utf8 "a"), 1⟩)) ∧
      RuntimeCause.Ordinary (.undefinedVariable (utf8 "a")) ∧
      (Machine.new.run ⟨.info, 1⟩ source).machine.arena.Present := by
  intro source
  have hfailure : (Machine.new.run ⟨.info, 1⟩ source).failure =
      some (.stopped (.error ⟨.undefinedVariable (utf8 "a"), 1⟩)) := rfl
  obtain ⟨-, -, -, hstops, hpresent, -⟩ := sources_never_go_wrong .new ⟨.info, 1⟩ source
  refine ⟨.new, hfailure, ?_, hpresent⟩
  rcases hstops _ hfailure with hunfinished | ⟨error, herror, hordinary⟩
  · cases hunfinished
  · cases herror
    exact hordinary

end Lox
