import Lox.Proofs.Grammar.Soundness
import Lox.Proofs.Lines.Reading
import Lox.Proofs.Token.Seam

/-!
# Sources in turn and sources joined

Sources that are run in turn on one machine do what they do as a single source in which line
feeds join them. The line feed ends the last token of a source, no statement reaches over it,
and the machine that one source leaves is the one on which the next would go on anyway. Only
the lines of errors differ, by the line feeds that stand before the source at fault.
-/

namespace Lox

/-- Tokens before an end token are parsed together with a further stream into the statements of
both. -/
theorem parse_append {ts us : List Token} {e : Token} {program program' : List Stmt}
    (hts : ∀ t ∈ ts, t.kind ≠ .eof) (he : e.kind = .eof) (h : parse (ts ++ [e]) = .ok program)
    (h' : parse us = .ok program') : parse (ts ++ us) = .ok (program ++ program') := by
  have hbefore (vs : List Token) : beforeEnd (ts ++ vs) = ts ++ beforeEnd vs :=
    List.takeWhile_append_of_pos fun t ht => decide_eq_true (hts t ht)
  have hend : beforeEnd [e] = [] := List.takeWhile_cons_of_neg (by simp only [he]; decide)
  have hprogram := Grammar.program_of_parse h
  rw [hbefore, hend, List.append_nil] at hprogram
  have happend := hprogram.append (Grammar.program_of_parse h')
  rw [← hbefore] at happend
  exact Grammar.Program.parse_eq happend

/-- A source that is scanned and parsed into a program. -/
def Accepts (source : Text) (program : List Stmt) : Prop :=
  ∃ tokens, scan source = .ok tokens ∧ parse tokens = .ok program

/-- A source has one program. -/
theorem Accepts.unique {source : Text} {program program' : List Stmt}
    (h : Accepts source program) (h' : Accepts source program') : program = program' := by
  obtain ⟨tokens, hscan, hparse⟩ := h
  obtain ⟨tokens', hscan', hparse'⟩ := h'
  obtain rfl : tokens = tokens' := Except.ok.inj (hscan.symm.trans hscan')
  exact Except.ok.inj (hparse.symm.trans hparse')

/-- Two sources with a line feed between them are parsed into the statements of both, those of
the second further down. -/
theorem Accepts.append_lineFeed {source more : Text} {program program' : List Stmt}
    (h : Accepts source program) (h' : Accepts more program') :
    Accepts (source ++ Text.lineFeed :: more)
      (program ++ program'.map (Stmt.mapLine (· + lastLine source))) := by
  obtain ⟨tokens, hscan, hparse⟩ := h
  obtain ⟨tokens', hscan', hparse'⟩ := h'
  obtain ⟨-, rfl⟩ := scan_eq_ok_iff.mp hscan
  have hne : tokens' ≠ [] := by
    obtain ⟨-, rfl⟩ := scan_eq_ok_iff.mp hscan'
    exact List.append_ne_nil_of_right_ne_nil _ (List.cons_ne_nil _ _)
  have hmoved : parse (tokens'.map (Token.mapLine (· + lastLine source))) =
      .ok (program'.map (Stmt.mapLine (· + lastLine source))) := by
    rw [parse_mapLine _ hne, hparse']
    rfl
  exact ⟨_, scan_append_lineFeed hscan hscan',
    parse_append (fun _ => kind_ne_eof_of_mem_sourceTokens) rfl hparse hmoved⟩

/-- A unit that comes to what a run comes to, as far as log entries do not matter. -/
structure Outcome.Shows (o : Outcome) (r : Ran) : Prop where
  /-- It fails if the run stops. -/
  failure_eq : o.failure = r.stop.map .stopped
  /-- It leaves the machine of the run. -/
  machine_eq : o.machine = r.machine
  /-- It prints what the run prints. -/
  printed_eq : o.printed = Effect.printed r.effects

/-- Running a source comes to what carrying out its program comes to. -/
theorem Accepts.shows {source : Text} {program : List Stmt} (h : Accepts source program)
    (settings : Settings) (m : Machine) :
    (m.run settings source).Shows (executeAll settings program m) := by
  obtain ⟨tokens, hscan, hparse⟩ := h
  have hrun : m.run settings source = (m.interpret settings program).after
      (settings.log (.scanned tokens.length) ++ settings.log (.parsed program.length)) := by
    simp only [Machine.run, hscan, hparse]
  have hprinted := Machine.printed_interpret settings program m
  rw [hrun]
  refine ⟨rfl, rfl, ?_⟩
  rw [← hprinted]
  simp only [Outcome.printed, Outcome.after, Effect.printed_append, Effect.printed_log,
    List.nil_append]

/-- The outcomes up to the first failure, which is the last of them. -/
def untilFailure : List Outcome → List Outcome
  | [] => []
  | o :: rest => o :: if o.failure.isNone then untilFailure rest else []

/-- The outcomes of sources that are run in turn on one machine until one fails. -/
def inTurn (settings : Settings) (m : Machine) (sources : List Text) : List Outcome :=
  untilFailure (session settings m (sources.map .source))

/-- The source that joins several with a line feed between each and the next. -/
def joined (sources : List Text) : Text := [Text.lineFeed].intercalate sources

/-- What a joined source comes to on a machine agrees with what its parts come to in turn. -/
structure Agrees (sources : List Text) (m : Machine) (o : Outcome) (turns : List Outcome) :
    Prop where
  /-- The same lines are printed. -/
  printed_eq : o.printed = turns.flatMap Outcome.printed
  /-- The same machine is left. -/
  machine_eq : o.machine = (turns.getLast?.map Outcome.machine).getD m
  /-- The joined source succeeds if all parts do. -/
  succeeds_iff : o.failure = none ↔ ∀ turn ∈ turns, turn.failure = none
  /-- If a part fails, the joined source fails for the same reason, further down by the line
  feeds in front of that part. -/
  fails : ∀ (k : Nat) (turn : Outcome) (f : Failure), turns[k]? = some turn →
    turn.failure = some f → ∃ stop, f = .stopped stop ∧ o.failure = some (.stopped
      (stop.mapLine (· + (Text.newlines ((sources.take k).flatMap Text.line) : Nat))))

/-- A line takes its own line feeds and one more. -/
theorem newlines_line (source : Text) (more : Nat) :
    ((Text.newlines (Text.line source) + more : Nat) : Int) = lastLine source + (more : Nat) := by
  have hone : Text.newlines [Text.lineFeed] = 1 := rfl
  rw [Text.line, Text.newlines_append, hone, lastLine]
  omega

/-- A reason to stop that moves by no line stays. -/
theorem Stop.mapLine_zero (stop : Stop) : stop.mapLine (· + 0) = stop := by
  cases stop with
  | error e => simp only [Stop.mapLine, RuntimeError.mapLine, Int.add_zero]
  | fault | unfinished => rfl

/-- A reason to stop that moves twice moves by both distances. -/
theorem Stop.mapLine_mapLine (a b : Int) (stop : Stop) :
    (stop.mapLine (· + a)).mapLine (· + b) = stop.mapLine (· + (b + a)) := by
  cases stop with
  | error e =>
    have hline : e.line + a + b = e.line + (b + a) := by omega
    simp only [Stop.mapLine, RuntimeError.mapLine, hline]
  | fault | unfinished => rfl

/-- Without sources nothing is done. -/
theorem Agrees.nil {m : Machine} {o : Outcome} (hfailure : o.failure = none)
    (hmachine : o.machine = m) (hprinted : o.printed = []) : Agrees [] m o [] where
  printed_eq := hprinted
  machine_eq := hmachine
  succeeds_iff := ⟨fun _ => List.forall_mem_nil _, fun _ => hfailure⟩
  fails := by
    intro k turn f hk
    rw [List.getElem?_nil] at hk
    cases hk

/-- If the first source fails, the joined source agrees with it alone. -/
theorem Agrees.of_fails {source : Text} {rest : List Text} {m : Machine} {o turn : Outcome}
    {stop : Stop} (hturn : turn.failure = some (.stopped stop))
    (ho : o.failure = some (.stopped stop)) (hmachine : o.machine = turn.machine)
    (hprinted : o.printed = turn.printed) : Agrees (source :: rest) m o [turn] where
  printed_eq := by rw [hprinted, List.flatMap_singleton]
  machine_eq := hmachine
  succeeds_iff := by
    simp only [ho, reduceCtorEq, List.mem_singleton, forall_eq, hturn]
  fails := by
    intro k turn' f hk hf
    obtain ⟨rfl, rfl⟩ : k = 0 ∧ turn' = turn := by
      cases k with
      | zero => exact ⟨rfl, (Option.some.inj hk).symm⟩
      | succ k => cases hk
    obtain rfl : f = .stopped stop := Option.some.inj (hf.symm.trans hturn)
    refine ⟨stop, rfl, ?_⟩
    rw [ho]
    exact congrArg (fun s => some (Failure.stopped s)) (Stop.mapLine_zero stop).symm

/-- If the first source succeeds, the joined source agrees with it and with what the rest comes
to on the machine it leaves. -/
theorem Agrees.of_succeeds {source : Text} {rest : List Text} {m : Machine}
    {o o' turn : Outcome} {turns : List Outcome} {stop? : Option Stop}
    (hturn : turn.failure = none) (h : Agrees rest turn.machine o' turns)
    (ho' : o'.failure = stop?.map .stopped)
    (ho : o.failure = (stop?.map (Stop.mapLine (· + lastLine source))).map .stopped)
    (hmachine : o.machine = o'.machine) (hprinted : o.printed = turn.printed ++ o'.printed) :
    Agrees (source :: rest) m o (turn :: turns) where
  printed_eq := by rw [hprinted, h.printed_eq, List.flatMap_cons]
  machine_eq := by
    rw [hmachine, h.machine_eq, List.getLast?_cons, Option.map_some, Option.getD_some,
      Option.getD_map]
  succeeds_iff := by
    have hnone : o.failure = none ↔ o'.failure = none := by
      simp only [ho, ho', Option.map_eq_none_iff]
    rw [hnone, h.succeeds_iff, List.forall_mem_cons, and_iff_right hturn]
  fails := by
    intro k turn' f hk hf
    cases k with
    | zero =>
      obtain rfl : turn = turn' := Option.some.inj hk
      rw [hturn] at hf
      cases hf
    | succ k =>
      obtain ⟨stop, rfl, hstop⟩ := h.fails k turn' f hk hf
      rw [ho', Option.map_eq_some_iff] at hstop
      obtain ⟨moved, rfl, hmoved⟩ := hstop
      obtain rfl := Failure.stopped.inj hmoved
      refine ⟨stop, rfl, ?_⟩
      rw [ho, Option.map_some, Option.map_some, Stop.mapLine_mapLine, List.take_succ_cons,
        List.flatMap_cons, Text.newlines_append, newlines_line]

/-- The outcomes in turn are that of the first source, and if it succeeds those of the rest. -/
theorem inTurn_cons (settings : Settings) (m : Machine) (source : Text) (rest : List Text) :
    inTurn settings m (source :: rest) = m.run settings source ::
      if (m.run settings source).failure.isNone then
        inTurn settings (m.run settings source).machine rest else [] := rfl

/-- Sources are accepted together if each is accepted. -/
theorem exists_accepts_joined {sources : List Text}
    (h : ∀ source ∈ sources, ∃ program, Accepts source program) :
    ∃ program, Accepts (joined sources) program := by
  induction sources with
  | nil => exact ⟨[], _, rfl, rfl⟩
  | cons source rest ih =>
    obtain ⟨⟨program, hprogram⟩, hrest⟩ := List.forall_mem_cons.mp h
    cases rest with
    | nil =>
      rw [joined, List.intercalate_singleton]
      exact ⟨program, hprogram⟩
    | cons source' rest =>
      obtain ⟨program', hprogram'⟩ := ih hrest
      rw [joined, List.intercalate_cons_cons, List.append_assoc]
      exact ⟨_, hprogram.append_lineFeed hprogram'⟩

/-- Running a joined source comes to the run of the first part and then, if that does not stop,
of the rest further down. -/
theorem Accepts.shows_joined {source : Text} {rest : List Text} {program program' : List Stmt}
    (h : Accepts source program) (h' : Accepts (joined rest) program') (settings : Settings)
    (m : Machine) :
    (m.run settings (joined (source :: rest))).Shows
      ((executeAll settings program m).andThen fun m =>
        (executeAll settings program' m).mapLine (· + lastLine source)) := by
  cases rest with
  | nil =>
    obtain rfl : program' = [] := h'.unique ⟨_, rfl, rfl⟩
    have hidle : ((executeAll settings program m).andThen fun m =>
        (executeAll settings [] m).mapLine (· + lastLine source)) =
          executeAll settings program m := by
      obtain ⟨stop, m, effects⟩ := executeAll settings program m
      cases stop with
      | some => rfl
      | none => exact congrArg (Ran.mk none m) (List.append_nil effects)
    rw [hidle, joined, List.intercalate_singleton]
    exact h.shows settings m
  | cons source' rest =>
    have hjoined : joined (source :: source' :: rest) =
        source ++ Text.lineFeed :: joined (source' :: rest) := by
      rw [joined, List.intercalate_cons_cons, List.append_assoc]
      rfl
    have hmoved : executeAll settings (program'.map (Stmt.mapLine (· + lastLine source))) =
        fun m => (executeAll settings program' m).mapLine (· + lastLine source) :=
      funext fun m => executeAll_mapLine _ settings program' m
    have hshows := (h.append_lineFeed h').shows settings m
    rw [executeAll_append, hmoved, ← hjoined] at hshows
    exact hshows

/-- A joined source agrees with its parts in turn. -/
theorem agrees_joined (settings : Settings) (m : Machine) {sources : List Text}
    (h : ∀ source ∈ sources, ∃ program, Accepts source program) :
    Agrees sources m (m.run settings (joined sources)) (inTurn settings m sources) := by
  induction sources generalizing m with
  | nil =>
    have haccepts : Accepts (joined []) [] := ⟨_, rfl, rfl⟩
    have hshows := haccepts.shows settings m
    exact .nil hshows.failure_eq hshows.machine_eq hshows.printed_eq
  | cons source rest ih =>
    obtain ⟨⟨program, hprogram⟩, hrest⟩ := List.forall_mem_cons.mp h
    obtain ⟨program', hprogram'⟩ := exists_accepts_joined hrest
    have hturn := hprogram.shows settings m
    have hshows := hprogram.shows_joined hprogram' settings m
    rw [inTurn_cons]
    cases hstop : (executeAll settings program m).stop with
    | some stop =>
      have hfailure : (m.run settings source).failure = some (.stopped stop) := by
        rw [hturn.failure_eq, hstop, Option.map_some]
      simp only [Ran.andThen, hstop] at hshows
      rw [hfailure]
      exact .of_fails hfailure (by rw [hshows.failure_eq, hstop, Option.map_some])
        (hshows.machine_eq.trans hturn.machine_eq.symm)
        (hshows.printed_eq.trans hturn.printed_eq.symm)
    | none =>
      have hfailure : (m.run settings source).failure = none := by
        rw [hturn.failure_eq, hstop, Option.map_none]
      have hnext := hprogram'.shows settings (m.run settings source).machine
      simp only [Ran.andThen, hstop, ← hturn.machine_eq] at hshows
      rw [hfailure]
      refine .of_succeeds hfailure (ih _ hrest) hnext.failure_eq hshows.failure_eq
        (hshows.machine_eq.trans hnext.machine_eq.symm) ?_
      rw [hshows.printed_eq, hturn.printed_eq, hnext.printed_eq, Effect.printed_append]
      rfl

/-- A run that shows was cut off exactly if the outcome says so. -/
theorem Outcome.Shows.cut_off_iff {o : Outcome} {r : Ran} (h : o.Shows r) :
    o.failure = some (.stopped .unfinished) ↔ ¬ r.Finished := by
  rw [h.failure_eq, Ran.Finished, ne_eq, Decidable.not_not]
  exact (Option.map_injective fun _ _ => Failure.stopped.inj).eq_iff (b := some .unfinished)

/-- A source that is cut off on a machine however many rounds its loops may take. -/
def Diverges (level : LogLevel) (source : Text) (m : Machine) : Prop :=
  ∀ rounds, (m.run ⟨level, rounds⟩ source).failure = some (.stopped .unfinished)

/-- Sources one of which diverges in its turn, on the machine that those before it leave. -/
inductive DivergesInTurn (level : LogLevel) : List Text → Machine → Prop
  | first {source : Text} {rest : List Text} {m : Machine} (h : Diverges level source m) :
      DivergesInTurn level (source :: rest) m
  | later {source : Text} {rest : List Text} {m : Machine} {rounds : Nat}
      (h : (m.run ⟨level, rounds⟩ source).failure = none)
      (hrest : DivergesInTurn level rest (m.run ⟨level, rounds⟩ source).machine) :
      DivergesInTurn level (source :: rest) m

/-- A source diverges exactly if its program is cut off however many rounds its loops may take. -/
theorem Accepts.diverges_iff {source : Text} {program : List Stmt} (h : Accepts source program)
    (level : LogLevel) (m : Machine) :
    Diverges level source m ↔ ∀ rounds, ¬ (executeAll ⟨level, rounds⟩ program m).Finished :=
  forall_congr' fun rounds => (h.shows ⟨level, rounds⟩ m).cut_off_iff

/-- A joined source diverges exactly if, however many rounds loops may take, its first part is
cut off or is done and the rest is cut off. -/
theorem Accepts.diverges_joined_iff {source : Text} {rest : List Text}
    {program program' : List Stmt} (h : Accepts source program)
    (h' : Accepts (joined rest) program') (level : LogLevel) (m : Machine) :
    Diverges level (joined (source :: rest)) m ↔ ∀ rounds,
      (executeAll ⟨level, rounds⟩ program m).Finished →
        (executeAll ⟨level, rounds⟩ program m).stop = none ∧
        ¬ (executeAll ⟨level, rounds⟩ program'
          (executeAll ⟨level, rounds⟩ program m).machine).Finished := by
  refine forall_congr' fun rounds => ?_
  rw [(h.shows_joined h' ⟨level, rounds⟩ m).cut_off_iff, Ran.finished_andThen_iff,
    Ran.finished_mapLine_iff, not_and, Classical.not_imp]

/-- A joined source diverges exactly if one of its parts does in its turn. -/
theorem diverges_joined_iff (level : LogLevel) (m : Machine) {sources : List Text}
    (h : ∀ source ∈ sources, ∃ program, Accepts source program) :
    Diverges level (joined sources) m ↔ DivergesInTurn level sources m := by
  induction sources generalizing m with
  | nil =>
    have haccepts : Accepts (joined []) [] := ⟨_, rfl, rfl⟩
    have hidle : (executeAll ⟨level, 0⟩ [] m).Finished := Ran.finished_of_stop_eq_none rfl
    constructor
    · intro hd
      exact absurd hidle ((haccepts.diverges_iff level m).mp hd 0)
    · intro hd
      cases hd
  | cons source rest ih =>
    obtain ⟨⟨program, hprogram⟩, hrest⟩ := List.forall_mem_cons.mp h
    obtain ⟨program', hprogram'⟩ := exists_accepts_joined hrest
    have hshows (rounds : Nat) := hprogram.shows ⟨level, rounds⟩ m
    rw [hprogram.diverges_joined_iff hprogram']
    constructor
    · intro hd
      by_cases hfirst : ∀ rounds, ¬ (executeAll ⟨level, rounds⟩ program m).Finished
      · exact .first ((hprogram.diverges_iff level m).mpr hfirst)
      · obtain ⟨n, hn⟩ := Classical.not_forall.mp hfirst
        rw [Classical.not_not] at hn
        obtain ⟨hstop, -⟩ := hd n hn
        have hlater : ∀ rounds, ¬ (executeAll ⟨level, rounds⟩ program'
            (executeAll ⟨level, n⟩ program m).machine).Finished := by
          intro k hk
          have hmore := executeAll_extends level (Nat.le_max_left n k) program m hn
          have hmore' := executeAll_extends level (Nat.le_max_right n k) program' _ hk
          have hboth := hd (max n k) (hmore ▸ hn)
          rw [hmore, hmore'] at hboth
          exact hboth.2 hk
        rw [← hprogram'.diverges_iff, ← (hshows n).machine_eq, ih _ hrest] at hlater
        exact .later (by rw [(hshows n).failure_eq, hstop, Option.map_none]) hlater
    · intro hd rounds hfinished
      cases hd with
      | first hd => exact absurd hfinished ((hprogram.diverges_iff level m).mp hd rounds)
      | @later _ _ _ n hnone hlater =>
        rw [(hshows n).failure_eq, Option.map_eq_none_iff] at hnone
        have hn := Ran.finished_of_stop_eq_none hnone
        rw [← ih _ hrest, (hshows n).machine_eq, hprogram'.diverges_iff] at hlater
        rw [executeAll_eq_of_finished hfinished hn]
        exact ⟨hnone, hlater rounds⟩

/-- Sources that are accepted one by one, joined by line feeds and run as one, print what they
print in turn and leave the same machine. The joined source succeeds if all of them do; if one
fails, it fails for the same reason, further down by the line feeds in front of that one; and it
diverges if one of them does in its turn. -/
theorem run_joined_agrees_inTurn (level : LogLevel) (m : Machine) (sources : List Text)
    (h : ∀ source ∈ sources, ∃ program, Accepts source program) :
    (∀ rounds, Agrees sources m (m.run ⟨level, rounds⟩ (joined sources))
      (inTurn ⟨level, rounds⟩ m sources)) ∧
    (Diverges level (joined sources) m ↔ DivergesInTurn level sources m) :=
  ⟨fun rounds => agrees_joined ⟨level, rounds⟩ m h, diverges_joined_iff level m h⟩

/-- Three sources of which the second fails on its third line, and the joined source on its
fourth. -/
theorem run_joined_agrees_inTurn_of_three :
    let sources := [utf8 "var a = \"x\"; // the first", utf8 "print a;\n\nprint b;",
      utf8 "print a;"]
    (∀ source ∈ sources, ∃ program, Accepts source program) ∧
      (Machine.new.run ⟨.info, 1⟩ (joined sources)).printed = [utf8 "x"] ∧
      (Machine.new.run ⟨.info, 1⟩ (joined sources)).failure =
        some (.stopped (.error ⟨.undefinedVariable (utf8 "b"), 4⟩)) ∧
      (Diverges .info (joined sources) .new ↔ DivergesInTurn .info sources .new) := by
  intro sources
  have haccepts : ∀ source ∈ sources, ∃ program, Accepts source program :=
    List.forall_mem_cons.mpr ⟨⟨_, _, rfl, rfl⟩, List.forall_mem_cons.mpr ⟨⟨_, _, rfl, rfl⟩,
      List.forall_mem_cons.mpr ⟨⟨_, _, rfl, rfl⟩, List.forall_mem_nil _⟩⟩⟩
  obtain ⟨hagrees, hdiverges⟩ := run_joined_agrees_inTurn .info .new sources haccepts
  obtain ⟨stop, hstop, hfails⟩ := (hagrees 1).fails 1 _ _ rfl rfl
  obtain rfl := Failure.stopped.inj hstop
  exact ⟨haccepts, (hagrees 1).printed_eq, hfails, hdiverges⟩

end Lox
