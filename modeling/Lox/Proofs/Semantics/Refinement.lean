import Lox.Proofs.Semantics.Evaluation

/-!
# Execution in the arena

On a machine that holds some frames, running code that no bound cuts off comes to exactly what
the rules derive: the same ending, the same printed lines, and a machine that holds the frames
that the rules leave.
-/

namespace Lox

/-- The machine in a scope more. -/
def Machine.opened (m : Machine) : Machine := ⟨m.arena.push m.current, m.arena.depth⟩

/-- A machine with one more scope on a chain is that of one more frame. -/
theorem Frames.opened_machine (f : Frames) : f.machine.opened = (Frames.inner [] f).machine := by
  simp only [Machine.opened, machine, push_index, depth_arena, index]

/-- A scope more is an empty frame more. -/
theorem Machine.Holds.opened {m : Machine} {g : Environment} (h : m.Holds g) :
    m.opened.Holds (.inner ∅ g) := by
  obtain ⟨f, rfl, rfl⟩ := h
  exact ⟨.inner [] f, f.opened_machine, rfl⟩

/-- Binding a name on the machine of a chain binds it in the first frame. -/
theorem Frames.machine_define (f : Frames) (name : Text) (value : Option Value) :
    f.machine.define name value = (f.define name value).machine.idle := by
  simp only [Machine.define, Machine.idle, machine, define_index, index_define]

/-- A body in a scope of its own ends as it does in one more frame, which is dropped. -/
theorem inScope_frames (settings : Settings) {body : Machine → Ran} {f f' : Frames} {b : Bindings}
    (h : (body (Frames.inner [] f).machine).machine = (Frames.inner b f').machine)
    (hindex : f'.index = f.index) :
    (inScope settings body f.machine).stop = (body (Frames.inner [] f).machine).stop ∧
      Effect.printed (inScope settings body f.machine).effects =
        Effect.printed (body (Frames.inner [] f).machine).effects ∧
      (inScope settings body f.machine).machine = f'.machine := by
  have hdepth : f.machine.arena.depth = f'.index + 1 := by
    rw [hindex]
    exact f.depth_arena
  have hcurrent : f.machine.current = f'.machine.current := by
    simp only [Frames.machine, hindex]
  have hopened := f.opened_machine
  rw [Machine.opened] at hopened
  simp only [inScope, hopened, Effect.printed_append, Effect.printed_log,
    List.append_nil, List.nil_append, true_and]
  rw [h, hdepth, hcurrent]
  exact congrArg (Machine.mk · _) (Frames.pop_inner b f')

namespace Semantics

/-- The reason to stop of an ending, if there is one. -/
def Ending.stop? : Ending → Option Stop
  | done => none
  | halted h => some h.stop

/-- Different endings have different reasons to stop. -/
theorem Ending.stop?_inj {r r' : Ending} (h : r.stop? = r'.stop?) : r = r' := by
  cases r with
  | done =>
    cases r' with
    | done => rfl
    | halted => cases h
  | halted s =>
    cases r' with
    | done => cases h
    | halted s' => exact congrArg Ending.halted (Halt.stop_inj (Option.some.inj h))

/-- A run that stops for the reason of an ending was not cut off. -/
theorem Ending.finished_of_stop_eq (r : Ending) {ran : Ran} (h : ran.stop = r.stop?) :
    ran.Finished := by
  rw [Ran.Finished, h]
  intro heq
  cases r with
  | done => cases heq
  | halted s => exact s.stop_ne_unfinished (Option.some.inj heq)

/-- A run that comes to an ending, printed lines and frames. -/
structure Gives (ran : Ran) (r : Ending) (p : List Text) (g : Environment) : Prop where
  /-- It stops for the reason of the ending. -/
  stop_eq : ran.stop = r.stop?
  /-- The machine holds the frames. -/
  holds : ran.machine.Holds g
  /-- The lines are printed. -/
  printed_eq : Effect.printed ran.effects = p

namespace Gives

variable {m : Machine} {ran : Ran} {next : Machine → Ran} {r : Ending} {p q : List Text}
  {g g' : Environment}

/-- A run that comes to an ending was not cut off. -/
theorem finished (h : Gives ran r p g) : ran.Finished := r.finished_of_stop_eq h.stop_eq

/-- Doing nothing ends at once. -/
theorem idle (hm : m.Holds g) : Gives m.idle .done [] g := ⟨rfl, hm, rfl⟩

/-- A halt ends a run. -/
theorem halt (hm : m.Holds g) (s : Halt) : Gives (m.halt s.stop) (.halted s) [] g :=
  ⟨rfl, hm, rfl⟩

/-- Binding a name binds it in the first frame. -/
theorem define (hm : m.Holds g) (name : Text) (value : Option Value) :
    Gives (m.define name value) .done [] (g.define name value) := by
  obtain ⟨f, rfl, rfl⟩ := hm
  rw [Frames.machine_define]
  exact ⟨rfl, ⟨_, rfl, f.environment_define name value⟩, rfl⟩

/-- What follows a run that is done goes on from its machine. -/
theorem andThen (h : Gives ran .done p g) (hnext : Gives (next ran.machine) r q g') :
    Gives (ran.andThen next) r (p ++ q) g' := by
  have hthen : ran.andThen next = ⟨(next ran.machine).stop, (next ran.machine).machine,
      ran.effects ++ (next ran.machine).effects⟩ := by
    simp only [Ran.andThen, h.stop_eq, Ending.stop?]
  rw [hthen]
  exact ⟨hnext.stop_eq, hnext.holds,
    by rw [Effect.printed_append, h.printed_eq, hnext.printed_eq]⟩

/-- What follows a run that is done was not cut off if the two together were not. -/
theorem finished_next (h : Gives ran .done p g) (hthen : (ran.andThen next).Finished) :
    (next ran.machine).Finished :=
  (Ran.finished_andThen_iff.mp hthen).2 h.stop_eq

/-- Nothing follows a run that has halted. -/
theorem andThen_halted {s : Halt} (h : Gives ran (.halted s) p g) :
    Gives (ran.andThen next) (.halted s) p g := by
  have hthen : ran.andThen next = ran := by simp only [Ran.andThen, h.stop_eq, Ending.stop?]
  rwa [hthen]

/-- A body run in a scope of its own is run in one more frame, which is dropped. -/
theorem inScope (settings : Settings) {body : Machine → Ran} {b : Frame} (hm : m.Holds g)
    (h : Gives (body m.opened) r p (.inner b g')) (hindex : g'.index = g.index) :
    Gives (Lox.inScope settings body m) r p g' := by
  obtain ⟨f, rfl, rfl⟩ := hm
  rw [f.opened_machine] at h
  obtain ⟨inside, hmachine, hinside⟩ := h.holds
  cases inside with
  | globals => cases hinside
  | inner b' f' =>
    obtain ⟨-, rfl⟩ := Environment.inner.inj hinside
    rw [f'.index_environment, f.index_environment] at hindex
    obtain ⟨hstop, hprinted, hclosed⟩ := inScope_frames settings hmachine hindex
    exact ⟨hstop.trans h.stop_eq, ⟨f', hclosed, rfl⟩, hprinted.trans h.printed_eq⟩

end Gives

/-- Code leaves the count of frames. -/
theorem Runs.index_eq {c : Code} {g g' : Environment} {r : Ending} {p : List Text}
    (h : Runs c g r p g') : g'.index = g.index := by
  induction h with
  | nil | absent | unsupported | varAbsent => rfl
  | cons _ _ ihs ihr => exact ihr.trans ihs
  | consHalt _ ih => exact ih
  | subjectHalt _ he | expression he | print he | printAbsent he => exact he.index_eq
  | var _ he => exact (Environment.index_define _ _ _).trans he.index_eq
  | block _ ih => exact Nat.succ.inj ih
  | ifTrue hc _ _ ih | ifFalse hc _ _ _ ih => exact ih.trans hc.index_eq
  | ifNeither hc | loopEnd hc => exact hc.index_eq
  | loopNext hc _ _ _ ihs ihl => exact (ihl.trans ihs).trans hc.index_eq
  | loopHalt hc _ _ ihs => exact ihs.trans hc.index_eq

section Loops

variable {c : Expr} {m m' : Machine} {body : Machine → Ran} {n : Nat}

/-- A loop whose condition does not come to a value stops there. -/
theorem repeatWhile_of_halt {s : Stop} (hc : m.evaluate c = (.error s, m')) :
    repeatWhile c body (n + 1) m = m'.halt s := by
  simp only [repeatWhile, hc]

/-- A loop whose condition is falsy is over. -/
theorem repeatWhile_of_falsy {v : Option Value} (hc : m.evaluate c = (.ok v, m')) (hv : Falsy v) :
    repeatWhile c body (n + 1) m = m'.idle := by
  rw [← truthy_eq_false_iff] at hv
  simp only [repeatWhile, hc, hv, Bool.false_eq_true, if_false]

/-- A loop whose condition is truthy runs its body and goes on. -/
theorem repeatWhile_of_truthy {v : Option Value} (hc : m.evaluate c = (.ok v, m'))
    (hv : ¬ Falsy v) :
    repeatWhile c body (n + 1) m = (body m').andThen (repeatWhile c body n) := by
  rw [← truthy_eq_true_iff] at hv
  simp only [repeatWhile, hc, hv, if_true]

end Loops

/-- What is derived for code is what running it gives, with enough rounds, on every machine that
holds the frames. -/
theorem Runs.exists_gives {c : Code} {g g' : Environment} {r : Ending} {p : List Text}
    (level : LogLevel) (h : Runs c g r p g') {m : Machine} (hm : m.Holds g) :
    ∃ rounds, Gives (c.execute ⟨level, rounds⟩ m) r p g' := by
  induction h generalizing m with
  | nil => exact ⟨0, .idle hm⟩
  | @cons s rest g g' g'' p q r _ _ ihs ihr =>
    obtain ⟨n, hs⟩ := ihs hm
    obtain ⟨n', hr⟩ := ihr hs.holds
    have hs' := Code.execute_extends level (Nat.le_max_left n n') _ _ hs.finished
    have hr' := Code.execute_extends level (Nat.le_max_right n n') _ _ hr.finished
    rw [← hr'] at hr
    rw [← hs'] at hs hr
    exact ⟨max n n', hs.andThen hr⟩
  | consHalt _ ih =>
    obtain ⟨n, hs⟩ := ih hm
    exact ⟨n, hs.andThen_halted⟩
  | absent => exact ⟨0, .halt hm (.fault .unknownStatement)⟩
  | unsupported hs => cases hs <;> exact ⟨0, .halt hm (.error _)⟩
  | subjectHalt hs he =>
    refine ⟨1, ?_⟩
    obtain ⟨m', heval, hm'⟩ := hm.evaluate he
    rw [mapError_error] at heval
    cases hs with
    | expression | print | conditional =>
      simp only [Code.execute, Stmt.execute, heval]
      exact .halt hm' _
    | loop =>
      simp only [Code.execute, Stmt.execute]
      rw [repeatWhile_of_halt heval]
      exact .halt hm' _
    | var n hp =>
      simp only [Code.execute, Stmt.execute, if_pos ((Expr.isPresent_iff _).mpr hp), heval]
      exact .halt hm' _
  | expression he =>
    obtain ⟨m', heval, hm'⟩ := hm.evaluate he
    refine ⟨0, ?_⟩
    simp only [Code.execute, Stmt.execute, heval, mapError_ok]
    exact .idle hm'
  | print he ht =>
    obtain ⟨m', heval, hm'⟩ := hm.evaluate he
    refine ⟨0, ?_⟩
    simp only [Code.execute, Stmt.execute, heval, mapError_ok, (shows_iff _ _).mp ht]
    exact ⟨rfl, hm', rfl⟩
  | printAbsent he =>
    obtain ⟨m', heval, hm'⟩ := hm.evaluate he
    refine ⟨0, ?_⟩
    simp only [Code.execute, Stmt.execute, heval, mapError_ok]
    exact .halt hm' (.fault .absentValue)
  | var hp he =>
    obtain ⟨m', heval, hm'⟩ := hm.evaluate he
    refine ⟨0, ?_⟩
    simp only [Code.execute, Stmt.execute, if_pos ((Expr.isPresent_iff _).mpr hp), heval,
      mapError_ok]
    exact .define hm' _ _
  | varAbsent => exact ⟨0, .idle hm⟩
  | block h ih =>
    obtain ⟨n, hbody⟩ := ih hm.opened
    exact ⟨n, hbody.inScope _ hm (Nat.succ.inj h.index_eq)⟩
  | ifTrue hc hv _ ih =>
    obtain ⟨m', heval, hm'⟩ := hm.evaluate hc
    obtain ⟨n, hs⟩ := ih hm'
    refine ⟨n, ?_⟩
    rw [← truthy_eq_true_iff] at hv
    simp only [Code.execute, Stmt.execute, heval, mapError_ok, hv, if_true]
    exact hs
  | ifFalse hc hv hp _ ih =>
    obtain ⟨m', heval, hm'⟩ := hm.evaluate hc
    obtain ⟨n, hs⟩ := ih hm'
    refine ⟨n, ?_⟩
    rw [← truthy_eq_false_iff] at hv
    simp only [Code.execute, Stmt.execute, heval, mapError_ok, hv, Bool.false_eq_true,
      if_false, if_pos ((Stmt.isPresent_iff _).mpr hp)]
    exact hs
  | ifNeither hc hv =>
    obtain ⟨m', heval, hm'⟩ := hm.evaluate hc
    refine ⟨0, ?_⟩
    rw [← truthy_eq_false_iff] at hv
    simp only [Code.execute, Stmt.execute, heval, mapError_ok, hv, Stmt.isPresent,
      Bool.false_eq_true, if_false]
    exact .idle hm'
  | loopEnd hc hv =>
    obtain ⟨m', heval, hm'⟩ := hm.evaluate hc
    refine ⟨1, ?_⟩
    simp only [Code.execute, Stmt.execute]
    rw [repeatWhile_of_falsy heval hv]
    exact .idle hm'
  | @loopNext k c s g g' g'' last v p q r hc hv _ _ ihs ihl =>
    obtain ⟨m', heval, hm'⟩ := hm.evaluate hc
    obtain ⟨n, hs⟩ := ihs hm'
    obtain ⟨n', hl⟩ := ihl hs.holds
    have hle := Nat.le_succ_of_le (Nat.le_max_left n n')
    have hle' := Nat.le_succ_of_le (Nat.le_max_right n n')
    have hs' := Code.execute_extends level hle (.statement s) _ hs.finished
    have hl' := repeatWhile_extends (Code.execute_extends level hle' (.statement s))
      (Nat.le_max_right n n') _ hl.finished
    refine ⟨max n n' + 1, ?_⟩
    simp only [Code.execute, Stmt.execute] at hs hl hs' hl' ⊢
    rw [repeatWhile_of_truthy heval hv]
    refine (hs' ▸ hs).andThen ?_
    rw [hs']
    exact hl' ▸ hl
  | loopHalt hc hv _ ihs =>
    obtain ⟨m', heval, hm'⟩ := hm.evaluate hc
    obtain ⟨n, hs⟩ := ihs hm'
    have hs' := Code.execute_extends level (Nat.le_succ n) _ _ hs.finished
    refine ⟨n + 1, ?_⟩
    simp only [Code.execute, Stmt.execute] at hs hs' ⊢
    rw [repeatWhile_of_truthy heval hv]
    exact (hs' ▸ hs).andThen_halted

/-- What running code gives is derived for it. -/
def Derived (c : Code) (settings : Settings) : Prop :=
  ∀ m g, m.Holds g → (c.execute settings m).Finished →
    ∃ r p g', Runs c g r p g' ∧ Gives (c.execute settings m) r p g'

/-- A loop is derived round by round, if its body is. -/
theorem exists_runs_loop {settings : Settings} {s : Stmt} (hbody : Derived (.statement s) settings)
    (k : Token) (c : Expr) (n : Nat) {m : Machine} {g : Environment} (hm : m.Holds g)
    (h : (repeatWhile c (fun m => s.execute settings m) n m).Finished) :
    ∃ r p g', Runs (.statement (.loop k c s)) g r p g' ∧
      Gives (repeatWhile c (fun m => s.execute settings m) n m) r p g' := by
  induction n generalizing m g with
  | zero => exact absurd rfl h
  | succ n ih =>
    obtain ⟨s' | v, g', hc⟩ := exists_evaluates c g
    all_goals obtain ⟨m', heval, hm'⟩ := hm.evaluate hc
    · rw [repeatWhile_of_halt heval]
      exact ⟨_, _, g', .subjectHalt (.loop k c s) hc, .halt hm' _⟩
    · by_cases hv : Falsy v
      · rw [repeatWhile_of_falsy heval hv]
        exact ⟨_, _, g', .loopEnd hc hv, .idle hm'⟩
      · rw [repeatWhile_of_truthy heval hv] at h ⊢
        obtain ⟨r, p, g'', hruns, hgives⟩ := hbody m' g' hm' (Ran.finished_andThen_iff.mp h).1
        cases r with
        | halted s' => exact ⟨_, p, g'', .loopHalt hc hv hruns, hgives.andThen_halted⟩
        | done =>
          obtain ⟨r, q, last, hloop, hrest⟩ := ih hgives.holds (hgives.finished_next h)
          exact ⟨r, p ++ q, last, .loopNext hc hv hruns hloop, hgives.andThen hrest⟩

/-- All code is derived. -/
theorem derived (settings : Settings) (c : Code) : Derived c settings := by
  induction c with
  | absent => exact fun m g hm _ => ⟨_, _, g, .absent, .halt hm (.fault .unknownStatement)⟩
  | classDecl n superclass methods =>
    exact fun m g hm _ =>
      ⟨_, _, g, .unsupported (.classDecl n superclass methods), .halt hm (.error _)⟩
  | functionDecl n params body =>
    exact fun m g hm _ =>
      ⟨_, _, g, .unsupported (.functionDecl n params body), .halt hm (.error _)⟩
  | returning keyword value =>
    exact fun m g hm _ =>
      ⟨_, _, g, .unsupported (.returning keyword value), .halt hm (.error _)⟩
  | expression value =>
    intro m g hm _
    obtain ⟨s | v, g', he⟩ := exists_evaluates value g
    all_goals
      obtain ⟨m', heval, hm'⟩ := hm.evaluate he
      simp only [Code.execute, Stmt.execute, heval, mapError_ok, mapError_error]
    · exact ⟨_, _, g', .subjectHalt (.expression value) he, .halt hm' _⟩
    · exact ⟨_, _, g', .expression he, .idle hm'⟩
  | print keyword value =>
    intro m g hm _
    obtain ⟨s | _ | v, g', he⟩ := exists_evaluates value g
    all_goals
      obtain ⟨m', heval, hm'⟩ := hm.evaluate he
      simp only [Code.execute, Stmt.execute, heval, mapError_ok, mapError_error]
    · exact ⟨_, _, g', .subjectHalt (.print keyword value) he, .halt hm' _⟩
    · exact ⟨_, _, g', .printAbsent he, .halt hm' (.fault .absentValue)⟩
    · exact ⟨_, _, g', .print he ((shows_iff v _).mpr rfl), rfl, hm', rfl⟩
  | var n initializer =>
    intro m g hm _
    by_cases hp : initializer = .absent
    · subst hp
      exact ⟨_, _, g, .varAbsent, .idle hm⟩
    · obtain ⟨s | v, g', he⟩ := exists_evaluates initializer g
      all_goals
        obtain ⟨m', heval, hm'⟩ := hm.evaluate he
        simp only [Code.execute, Stmt.execute, if_pos ((Expr.isPresent_iff _).mpr hp), heval,
          mapError_ok, mapError_error]
      · exact ⟨_, _, g', .subjectHalt (.var n hp) he, .halt hm' _⟩
      · exact ⟨_, _, _, .var hp he, .define hm' _ _⟩
  | block body ih =>
    intro m g hm h
    obtain ⟨r, p, g', hruns, hgives⟩ := ih m.opened _ hm.opened h
    obtain ⟨b, g'', rfl, hindex⟩ := Environment.exists_inner hruns.index_eq
    exact ⟨r, p, g'', .block hruns, hgives.inScope settings hm hindex⟩
  | conditional keyword condition thenBranch elseBranch iht ihe =>
    intro m g hm h
    obtain ⟨s | v, g', hc⟩ := exists_evaluates condition g
    all_goals
      obtain ⟨m', heval, hm'⟩ := hm.evaluate hc
      simp only [Code.execute, Stmt.execute, heval, mapError_ok, mapError_error] at h ⊢
    · exact ⟨_, _, g', .subjectHalt (.conditional keyword condition thenBranch elseBranch) hc,
        .halt hm' _⟩
    · by_cases hv : Falsy v
      · have htruthy := (truthy_eq_false_iff v).mpr hv
        simp only [htruthy, Bool.false_eq_true, if_false] at h ⊢
        by_cases hp : elseBranch = .absent
        · subst hp
          exact ⟨_, _, g', .ifNeither hc hv, .idle hm'⟩
        · rw [if_pos ((Stmt.isPresent_iff _).mpr hp)] at h ⊢
          obtain ⟨r, p, g'', hruns, hgives⟩ := ihe m' g' hm' h
          exact ⟨r, p, g'', .ifFalse hc hv hp hruns, hgives⟩
      · have htruthy := (truthy_eq_true_iff v).mpr hv
        simp only [htruthy, if_true] at h ⊢
        obtain ⟨r, p, g'', hruns, hgives⟩ := iht m' g' hm' h
        exact ⟨r, p, g'', .ifTrue hc hv hruns, hgives⟩
  | loop keyword condition body ih =>
    exact fun m g hm h => exists_runs_loop ih keyword condition settings.rounds hm h
  | nil => exact fun m g hm _ => ⟨_, _, g, .nil, .idle hm⟩
  | cons s rest ihs ihr =>
    intro m g hm h
    obtain ⟨r, p, g', hruns, hgives⟩ := ihs m g hm (Ran.finished_andThen_iff.mp h).1
    cases r with
    | halted s' => exact ⟨_, p, g', .consHalt hruns, hgives.andThen_halted⟩
    | done =>
      obtain ⟨r, q, g'', hrest, hnext⟩ := ihr _ g' hgives.holds (hgives.finished_next h)
      exact ⟨r, p ++ q, g'', .cons hruns hrest, hgives.andThen hnext⟩

/-- A unit of statements comes to an ending, printed lines and a machine under some settings. -/
structure EndsWith (settings : Settings) (program : List Stmt) (start : Machine) (r : Ending)
    (p : List Text) (m : Machine) : Prop where
  /-- It fails for the reason of the ending, if there is one. -/
  failure_eq : (start.interpret settings program).failure = r.stop?.map .stopped
  /-- The lines are printed. -/
  printed_eq : (start.interpret settings program).printed = p
  /-- The machine is left behind. -/
  machine_eq : (start.interpret settings program).machine = m
  /-- An error is reported with what it says and its line. -/
  reported : ∀ e, r = .halted (.error e) → ∀ t, Says e.cause t ↔
    (start.interpret settings program).failure.bind Failure.report? = some (.runtime t e.line)

/-- A unit comes to what carrying out its statements comes to. -/
theorem endsWith_iff (settings : Settings) (program : List Stmt) (start : Machine) (r : Ending)
    (p : List Text) (m : Machine) :
    EndsWith settings program start r p m ↔
      (executeAll settings program start).stop = r.stop? ∧
        Effect.printed (executeAll settings program start).effects = p ∧
        (executeAll settings program start).machine = m := by
  have hstop : (start.interpret settings program).failure = r.stop?.map .stopped ↔
      (executeAll settings program start).stop = r.stop? :=
    (Option.map_injective fun _ _ => Failure.stopped.inj).eq_iff
  have hprinted := start.printed_interpret settings program
  refine ⟨fun h => ⟨hstop.mp h.failure_eq, hprinted.symm.trans h.printed_eq, h.machine_eq⟩,
    fun ⟨h, hp, hm⟩ => ⟨hstop.mpr h, hprinted.trans hp, hm, ?_⟩⟩
  rintro e rfl t
  have hreport : (start.interpret settings program).failure.bind Failure.report? =
      some (.runtime e.cause.message e.line) := by
    rw [hstop.mpr h]
    rfl
  rw [says_iff, hreport, Option.some.injEq, Report.runtime.injEq, and_iff_left rfl]

/-- Statements carried out on a machine that holds some frames finish with an ending, printed lines
and a machine that holds other frames exactly if the rules derive that ending, those lines and
those frames; and then any larger count of rounds leads to the same. The machine that is left
always holds some frames, and only these. -/
theorem interpret_finishes_iff_runs (level : LogLevel) (program : List Stmt) {m : Machine}
    {g : Environment} (hm : m.Holds g) (r : Ending) (p : List Text) :
    (∀ g', (∃ rounds m', EndsWith ⟨level, rounds⟩ program m r p m' ∧ m'.Holds g') ↔
      Runs (.row program) g r p g') ∧
    (∀ g', (∃ n m', m'.Holds g' ∧
        ∀ rounds, n ≤ rounds → EndsWith ⟨level, rounds⟩ program m r p m') ↔
      Runs (.row program) g r p g') ∧
    ∀ rounds m', EndsWith ⟨level, rounds⟩ program m r p m' → ∃! g', m'.Holds g' := by
  have hsound {rounds : Nat} {m' : Machine} (h : EndsWith ⟨level, rounds⟩ program m r p m') :
      ∃ g', Runs (.row program) g r p g' ∧ m'.Holds g' := by
    obtain ⟨hstop, hprinted, hmachine⟩ := (endsWith_iff _ _ _ _ _ _).mp h
    obtain ⟨r', p', g', hruns, hgives⟩ := derived ⟨level, rounds⟩ (.row program) m g hm
      (r.finished_of_stop_eq hstop)
    obtain rfl : r' = r := Ending.stop?_inj (hgives.stop_eq.symm.trans hstop)
    obtain rfl : p' = p := hgives.printed_eq.symm.trans hprinted
    exact ⟨g', hruns, hmachine ▸ hgives.holds⟩
  have hsame {rounds : Nat} {m' : Machine} {g' : Environment}
      (h : EndsWith ⟨level, rounds⟩ program m r p m') (hm' : m'.Holds g') :
      Runs (.row program) g r p g' := by
    obtain ⟨g'', hruns, hm''⟩ := hsound h
    exact hm''.unique hm' ▸ hruns
  have hcomplete {g' : Environment} (h : Runs (.row program) g r p g') :
      ∃ n m', m'.Holds g' ∧
        ∀ rounds, n ≤ rounds → EndsWith ⟨level, rounds⟩ program m r p m' := by
    obtain ⟨n, hgives⟩ := h.exists_gives level hm
    refine ⟨n, _, hgives.holds, fun rounds hn => (endsWith_iff _ _ _ _ _ _).mpr ?_⟩
    have hextends := Code.execute_extends level hn (.row program) m hgives.finished
    rw [← hextends] at hgives
    exact ⟨hgives.stop_eq, hgives.printed_eq, congrArg Ran.machine hextends⟩
  refine ⟨fun g' => ⟨fun ⟨rounds, m', h, hm'⟩ => hsame h hm', fun h => ?_⟩,
    fun g' => ⟨fun ⟨n, m', hm', h⟩ => hsame (h n (Nat.le_refl n)) hm', hcomplete⟩,
    fun rounds m' h => ?_⟩
  · obtain ⟨n, m', hm', hends⟩ := hcomplete h
    exact ⟨n, m', hends n (Nat.le_refl n), hm'⟩
  · obtain ⟨g', -, hm'⟩ := hsound h
    exact ⟨g', hm', fun g'' hm'' => hm''.unique hm'⟩

/-- A name is assigned to in the globals, one of the same name is declared in a block, printed and
dropped, and an unbound name ends the statements. -/
theorem interpret_finishes_iff_runs_of_shadowing :
    let x := utf8 "x"
    let name (t : Text) (line : Int) : Token := ⟨.identifier, t, none, line⟩
    let print (t : Text) (line : Int) : Stmt :=
      .print ⟨.word .print, utf8 "print", none, line⟩ (.name (name t line))
    let string (s : String) : Value := .string (utf8 s)
    let program : List Stmt := [.expression (.assign (name x 1) (.literal (some (string "a")))),
      .block [.var (name x 2) (.literal (some (string "b"))), print x 2], print x 3,
      print (utf8 "y") 4]
    let machine (v : Value) : Machine := ⟨⟨[⟨[(x, some v)], -1⟩, ⟨[], 0⟩]⟩, 1⟩
    let frames (v : Value) : Environment := .inner ∅ (.globals ((∅ : Frame).insert x (some v)))
    let error : RuntimeError := ⟨.undefinedVariable (utf8 "y"), 4⟩
    (∀ v, (machine v).Holds (frames v)) ∧
      EndsWith ⟨.warning, 0⟩ program (machine .nil) (.halted (.error error))
        [utf8 "b", utf8 "a"] (machine (string "a")) ∧
      Says error.cause (utf8 "Undefined variable 'y'.") ∧
      Runs (.row program) (frames .nil) (.halted (.error error)) [utf8 "b", utf8 "a"]
        (frames (string "a")) := by
  intro x name print string program machine frames error
  have hholds (v : Value) : (machine v).Holds (frames v) :=
    ⟨.inner [] (.globals [(x, some v)]), rfl, rfl⟩
  have hends : EndsWith ⟨.warning, 0⟩ program (machine .nil) (.halted (.error error))
      [utf8 "b", utf8 "a"] (machine (string "a")) := by
    rw [endsWith_iff]
    dsimp only [x, name, print, string, program, machine, error, Ending.stop?, Halt.stop]
    decide +kernel
  have hsays : Says error.cause (utf8 "Undefined variable 'y'.") := by
    rw [says_iff]
    dsimp only [error]
    decide +kernel
  exact ⟨hholds, hends, hsays,
    ((interpret_finishes_iff_runs .warning program (hholds .nil) _ _).1 _).mp
      ⟨0, _, hends, hholds _⟩⟩

end Semantics

end Lox
