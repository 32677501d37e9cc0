import Lox.Command
import Lox.Proofs.Safety

/-!
# Errors stay with their unit

A source succeeds, holds lexical errors, holds errors of grammar or is stopped by one runtime
error. In the second and the third case the machine is the one before, and so it is behind a blank
source. A session is therefore the same without such sources, as far as the other units are
concerned, and the prompt goes on behind every error. A script tells of its errors behind its
output, and its exit code tells of which kind they are.
-/

namespace Lox

/-- What a step makes of inputs in order, each on the state that the one before leaves. -/
def inOrder {σ ι ο : Type} (step : σ → ι → ο) (state : ο → σ) : σ → List ι → List ο
  | _, [] => []
  | s, input :: rest => step s input :: inOrder step state (state (step s input)) rest

/-- The results that belong to the inputs of a choice. -/
def resultsOf {ι ο : Type} (keep : ι → Bool) (inputs : List ι) (results : List ο) : List ο :=
  ((inputs.zip results).filter fun p => keep p.1).map Prod.snd

/-- The first result belongs to the choice if its input does. -/
theorem resultsOf_cons {ι ο : Type} (keep : ι → Bool) (input : ι) (rest : List ι) (result : ο)
    (results : List ο) :
    resultsOf keep (input :: rest) (result :: results) =
      if keep input then result :: resultsOf keep rest results
      else resultsOf keep rest results := by
  rw [resultsOf, List.zip_cons_cons, List.filter_cons, apply_ite (List.map Prod.snd), List.map_cons]
  rfl

/-- Inputs that leave the state alone can be left out: the others come to the same. -/
theorem inOrder_filter {σ ι ο : Type} {step : σ → ι → ο} {state : ο → σ} {keep : ι → Bool}
    {inputs : List ι}
    (h : ∀ input ∈ inputs, keep input = false → ∀ s, state (step s input) = s) (s : σ) :
    inOrder step state s (inputs.filter keep) =
      resultsOf keep inputs (inOrder step state s inputs) := by
  induction inputs generalizing s with
  | nil => rfl
  | cons input rest ih =>
    obtain ⟨hinput, hrest⟩ := List.forall_mem_cons.mp h
    rw [List.filter_cons, inOrder, resultsOf_cons]
    cases hkeep : keep input with
    | true => simp only [if_true, inOrder, ih hrest]
    -- Behind an input that is left out the rest starts on the same state.
    | false => simp only [Bool.false_eq_true, if_false, hinput hkeep, ih hrest]

/-- The units of a session are run in order. -/
theorem session_eq_inOrder (settings : Settings) (m : Machine) (units : List WorkUnit) :
    session settings m units =
      inOrder (fun m unit => unit.run settings m) Outcome.machine m units := by
  induction units generalizing m with
  | nil => rfl
  | cons unit rest ih => rw [session, inOrder, ih]

section Blank

/-- Letters and digits are ASCII characters. -/
theorem Segment.lt_of_isNamePart {b : UInt8} (h : Segment.isNamePart b = true) : b < 0x80 := by
  simp only [Segment.isNamePart, Text.isLetter, Text.isDigit, Bool.or_eq_true, Bool.and_eq_true,
    decide_eq_true_eq, beq_iff_eq, UInt8.le_iff_toNat_le, UInt8.lt_iff_toNat_lt,
    ← UInt8.toNat_inj, UInt8.reduceToNat] at h ⊢
  omega

/-- A byte that is no ASCII character starts a character that is unexpected. -/
theorem Segment.first_of_not_ascii {b : UInt8} (hb : ¬ b < 0x80) (rest : Text) :
    Segment.first b rest = .unexpected (Rune.first b rest) := by
  have hne (c : UInt8) (hc : c < 0x80) : b ≠ c := fun h => hb (h ▸ hc)
  have hpart : Segment.isNamePart b = false := by
    rw [← Bool.not_eq_true]
    exact fun h => hb (Segment.lt_of_isNamePart h)
  obtain ⟨hletter, hdigit⟩ := Bool.or_eq_false_iff.mp hpart
  rw [Segment.first, hdigit, hletter]
  · rfl
  all_goals exact hne _ (by decide)

/-- Where white space starts, a source has no token, and its first segment is as long as the
white space. -/
theorem Segment.first_of_isSpace {b : UInt8} {rest : Text}
    (h : (Rune.first b rest).isSpace = true) :
    (∀ line, (Segment.first b rest).token? line = none) ∧
      (Segment.first b rest).text.length = (Rune.first b rest).bytes.length := by
  by_cases hb : b < 0x80
  · have hlead : b.toNat < 0x80 := UInt8.lt_iff_toNat_lt.mp hb
    rw [Rune.first_one rest hlead] at h ⊢
    have hcode : b = 0x09 ∨ b = 0x0A ∨ b = 0x0B ∨ b = 0x0C ∨ b = 0x0D ∨ b = 0x20 := by
      simp only [Rune.isSpace, Bool.or_eq_true, Bool.and_eq_true, decide_eq_true_eq, beq_iff_eq,
        ← UInt8.toNat_inj, UInt8.reduceToNat] at h ⊢
      omega
    rcases hcode with rfl | rfl | rfl | rfl | rfl | rfl <;> exact ⟨fun _ => rfl, rfl⟩
  · rw [Segment.first_of_not_ascii hb]
    exact ⟨fun _ => rfl, rfl⟩

/-- White space holds no token. -/
theorem Segment.token?_of_isSpace {text : Text} {skip : Nat}
    (h : (Rune.splitFrom skip text).all Rune.isSpace = true) :
    ∀ s ∈ Segment.splitFrom skip text, ∀ line, s.token? line = none := by
  induction text generalizing skip with
  | nil =>
    cases skip <;> exact List.forall_mem_nil _
  | cons b rest ih =>
    cases skip with
    | succ skip => exact ih h
    | zero =>
      obtain ⟨hspace, hrest⟩ := Bool.and_eq_true_iff.mp h
      obtain ⟨htoken, hlength⟩ := Segment.first_of_isSpace hspace
      -- The segment is as long as the character, so both go on at the same byte.
      rw [← hlength] at hrest
      exact List.forall_mem_cons.mpr ⟨htoken, ih hrest⟩

/-- A blank source has no token. -/
theorem sourceTokens_of_isBlank {source : Text} (h : Text.isBlank source = true) :
    sourceTokens source = [] := by
  rw [sourceTokens, List.filterMap_eq_nil_iff]
  intro s hs
  have hmem : s.2 ∈ Segment.split source := by
    rw [← Segment.map_snd_numbered 1 (Segment.split source)]
    exact List.mem_map_of_mem hs
  exact Segment.token?_of_isSpace h s.2 hmem s.1

/-- A blank source that is accepted has no statements. -/
theorem Accepts.eq_nil_of_isBlank {source : Text} {program : List Stmt}
    (h : Accepts source program) (hblank : Text.isBlank source = true) : program = [] := by
  obtain ⟨tokens, hscan, hparse⟩ := h
  obtain ⟨-, rfl⟩ := scan_eq_ok_iff.mp hscan
  rw [sourceTokens_of_isBlank hblank, List.nil_append] at hparse
  exact (Except.ok.inj hparse).symm

end Blank

/-- Sources that leave the machine alone: those that are turned down before anything is carried
out, and blank ones. -/
inductive WorkUnit.Idle : WorkUnit → Prop
  | turnedDown {text : Text} (h : ¬ ∃ program, Accepts text program) : Idle (.source text)
  | blank {text : Text} (h : Text.isBlank text = true) : Idle (.source text)

/-- An idle unit leaves the machine alone. -/
theorem WorkUnit.Idle.machine_run {unit : WorkUnit} (h : unit.Idle) (settings : Settings)
    (m : Machine) : (unit.run settings m).machine = m := by
  rcases unit.run_cases settings m with ⟨hmachine, -⟩ | ⟨program, hprogram, hmachine, -⟩
  · exact hmachine
  · cases h with
    | turnedDown h => exact absurd ⟨program, hprogram⟩ h
    | blank h =>
      rw [hmachine, Accepts.eq_nil_of_isBlank hprogram h]
      rfl

/-- Idle units can be left out of a session: the others come to the same. -/
theorem session_filter {settings : Settings} {units : List WorkUnit} {keep : WorkUnit → Bool}
    (h : ∀ unit ∈ units, keep unit = false → unit.Idle) (m : Machine) :
    session settings m (units.filter keep) = resultsOf keep units (session settings m units) := by
  rw [session_eq_inOrder, session_eq_inOrder]
  exact inOrder_filter (fun unit hunit hkeep => (h unit hunit hkeep).machine_run settings) m

/-- How a source ends that is run on a machine: it succeeds, it is turned down for lexical errors
or for errors of grammar and has done nothing, or one runtime error stops it. -/
inductive Outcome.Settled (source : Text) (m : Machine) (o : Outcome) : Prop
  | succeeded {program : List Stmt} (haccepts : Accepts source program) (h : o.failure = none)
  | misspelled {errors : List LexicalError} (hscan : scan source = .error errors)
      (h : o.failure = some (.lexical errors)) (hne : errors ≠ []) (hprinted : o.printed = [])
      (hmachine : o.machine = m)
  | ungrammatical {tokens : List Token} {errors : List GrammarError}
      (hscan : scan source = .ok tokens) (hparse : parse tokens = .error errors)
      (h : o.failure = some (.grammatical errors)) (hne : errors ≠ []) (hprinted : o.printed = [])
      (hmachine : o.machine = m)
  | aborted {program : List Stmt} {error : RuntimeError} (haccepts : Accepts source program)
      (h : o.failure = some (.stopped (.error error)))

/-- A source that cannot be scanned has an error. -/
theorem lexicalErrors_ne_nil {source : Text} {errors : List LexicalError}
    (h : scan source = .error errors) : errors ≠ [] := by
  unfold scan at h
  split at h
  · cases h
  · next hne =>
    cases h
    exact hne

/-- A source that is not cut off is settled, on a machine that sources have led to. -/
theorem Machine.Reached.settled {m : Machine} (h : m.Reached WorkUnit.IsSource)
    {settings : Settings} {source : Text}
    (hfinished : (m.run settings source).failure ≠ some (.stopped .unfinished)) :
    (m.run settings source).Settled source m := by
  cases hscan : scan source with
  | error errors =>
    simp only [Machine.run, hscan]
    exact .misspelled hscan rfl (lexicalErrors_ne_nil hscan) (Effect.printed_log _ _) rfl
  | ok tokens =>
    cases hparse : parse tokens with
    | error errors =>
      simp only [Machine.run, hscan, hparse]
      refine .ungrammatical hscan hparse rfl (Descent.errors_ne_nil hparse) ?_ rfl
      rw [Outcome.printed, Effect.printed_append, Effect.printed_log, Effect.printed_log]
      rfl
    | ok program =>
      have haccepts : Accepts source program := ⟨tokens, hscan, hparse⟩
      have hfailure := (haccepts.shows settings m).failure_eq
      cases hstop : (executeAll settings program m).stop with
      | none =>
        rw [hstop] at hfailure
        exact .succeeded haccepts hfailure
      | some stop =>
        rw [hstop] at hfailure
        rcases h.ordinary_of_stopped hfailure with rfl | ⟨error, rfl, -⟩
        · exact absurd hfailure hfinished
        · exact .aborted haccepts hfailure

/-- A unit that fails is told of in as many lines as its report counts for. -/
theorem Outcome.length_errorLines {o : Outcome} {f : Failure} {report : Report}
    (hfailure : o.failure = some f) (hreport : f.report? = some report) :
    o.errorLines.length = report.count := by
  rw [errorLines, hfailure, Option.bind_some, hreport, Report.allLines, Report.length_lines]

/-- A settled unit tells of no error exactly if it succeeds. -/
theorem Outcome.Settled.errorLines_eq_nil_iff {source : Text} {m : Machine} {o : Outcome}
    (h : o.Settled source m) : o.errorLines = [] ↔ o.failure = none := by
  rw [← List.length_eq_zero_iff]
  cases h with
  | succeeded _ h =>
    rw [errorLines, h]
    exact ⟨fun _ => rfl, fun _ => rfl⟩
  | misspelled _ h hne | ungrammatical _ _ h hne =>
    rw [length_errorLines h rfl, h, Report.count, List.length_map, List.length_eq_zero_iff]
    exact ⟨fun hnil => absurd hnil hne, nofun⟩
  | aborted _ h =>
    rw [length_errorLines h rfl, h]
    exact ⟨nofun, nofun⟩

/-- An exit code that tells how a unit ended. -/
structure Outcome.Coded (o : Outcome) (code : Nat) : Prop where
  /-- Zero if there was no error. -/
  zero_iff : code = 0 ↔ o.failure = none
  /-- 65 if the source was turned down. -/
  dataError_iff : code = 65 ↔ (∃ errors, o.failure = some (.lexical errors)) ∨
    ∃ errors, o.failure = some (.grammatical errors)
  /-- 70 if a runtime error stopped it. -/
  software_iff : code = 70 ↔ ∃ error, o.failure = some (.stopped (.error error))

/-- The exit code of a settled unit tells how it ended. -/
theorem Outcome.Settled.coded {source : Text} {m : Machine} {o : Outcome}
    (h : o.Settled source m) : o.Coded o.exitCode.number := by
  cases h with
  | succeeded _ h | misspelled _ h | ungrammatical _ _ h | aborted _ h =>
    constructor <;> simp [exitCode, h, ExitCode.number]

/-- What is told of a script: whether it succeeds, and the lines that are shown. -/
structure Script.Told (succeeds : Bool) (shown : List Shown) : Prop where
  /-- It is said to succeed exactly if no error is shown. -/
  succeeds_iff : succeeds = true ↔ ∀ line, .err line ∉ shown
  /-- Output is not shown behind an error. -/
  ordered : shown.Pairwise fun a b => ∀ error line, a = .err error → b ≠ .out line

/-- What a settled source shows tells whether it succeeds, with its errors behind its output. -/
theorem Outcome.Settled.told {source : Text} {m : Machine} {o : Outcome}
    (h : o.Settled source m) : Script.Told o.failure.isNone o.shown where
  succeeds_iff := by
    rw [Option.isNone_iff_eq_none, ← h.errorLines_eq_nil_iff, List.eq_nil_iff_forall_not_mem]
    refine forall_congr' fun line => not_congr ?_
    simp [shown]
  ordered := by
    refine List.pairwise_append.mpr ⟨?_, ?_, ?_⟩
    · exact List.pairwise_map.mpr (List.pairwise_of_forall fun _ _ _ _ h => nomatch h)
    · exact List.pairwise_map.mpr (List.pairwise_of_forall fun _ _ _ _ _ h => nomatch h)
    · intro a ha b hb error line herror
      obtain ⟨text, -, rfl⟩ := List.mem_map.mp ha
      cases herror

namespace Prompt

/-- What lines come to that are entered in order: for each the machine afterwards and what is
written. -/
def turns (settings : Settings) (m : Machine) (lines : List Text) : List (Machine × Console) :=
  inOrder (enter settings) Prod.fst m lines

/-- What is written by turns: the prompt in front of each, and in front of the end. -/
def transcript (prompt : Text) : List (Machine × Console) → Console
  | [] => .ofOut (prompt ++ utf8 "\n")
  | turn :: rest => .ofOut prompt ++ turn.2 ++ transcript prompt rest

/-- A conversation writes what its turns write. -/
theorem converse_eq_transcript (settings : Settings) (prompt : Text) (m : Machine)
    (lines : List Text) :
    converse settings prompt m lines = transcript prompt (turns settings m lines) := by
  induction lines generalizing m with
  | nil => rfl
  | cons line rest ih =>
    simp only [converse, ih]
    rfl

/-- A line that is idle leaves the machine alone. -/
theorem enter_of_idle {line : Text} (h : (WorkUnit.source line).Idle) (settings : Settings)
    (m : Machine) : (enter settings m line).1 = m := by
  unfold enter
  split
  · rfl
  · exact h.machine_run settings m

/-- Idle lines can be left out: the others come to the same. -/
theorem turns_filter {settings : Settings} {lines : List Text} {keep : Text → Bool}
    (h : ∀ line ∈ lines, keep line = false → (WorkUnit.source line).Idle) (m : Machine) :
    turns settings m (lines.filter keep) = resultsOf keep lines (turns settings m lines) :=
  inOrder_filter (fun line hline hkeep => enter_of_idle (h line hline hkeep) settings) m

/-- Blank lines write nothing. -/
theorem console_of_isBlank {settings : Settings} {m : Machine} {lines : List Text} :
    ∀ turn ∈ resultsOf Text.isBlank lines (turns settings m lines), turn.2 = .empty := by
  induction lines generalizing m with
  | nil => exact List.forall_mem_nil _
  | cons line rest ih =>
    rw [turns, inOrder, resultsOf_cons]
    cases hblank : Text.isBlank line with
    | false => exact ih
    | true =>
      refine List.forall_mem_cons.mpr ⟨?_, ih⟩
      rw [enter, if_pos hblank]

/-- Lines that are not blank are run in order as the units of a session. -/
theorem turns_eq_session {settings : Settings} {lines : List Text}
    (h : ∀ line ∈ lines, Text.isBlank line = false) (m : Machine) :
    turns settings m lines =
      (Lox.session settings m (lines.map .source)).map fun o => (o.machine, o.console) := by
  induction lines generalizing m with
  | nil => rfl
  | cons line rest ih =>
    obtain ⟨hline, hrest⟩ := List.forall_mem_cons.mp h
    have henter : enter settings m line =
        ((m.run settings line).machine, (m.run settings line).console) := by
      rw [enter, hline, if_neg Bool.false_ne_true]
    rw [turns, inOrder, henter, List.map_cons, Lox.session, List.map_cons]
    exact congrArg (List.cons _) (ih hrest _)

/-- What the lines that are not blank come to is what the units of a session come to. -/
theorem resultsOf_turns (settings : Settings) (m : Machine) (lines : List Text) :
    resultsOf (fun line => !Text.isBlank line) lines (turns settings m lines) =
      (Lox.session settings m ((lines.filter fun line => !Text.isBlank line).map .source)).map
        fun o => (o.machine, o.console) := by
  rw [← turns_filter, turns_eq_session]
  · intro line hline
    exact Bool.not_eq_true' _ ▸ (List.mem_filter.mp hline).2
  · intro line _ hblank
    exact .blank (Bool.not_eq_false' _ ▸ hblank)

end Prompt

namespace Command

/-- A call that runs a source as a script: the arguments name its file, which can be read, and the
preferences can be used. -/
inductive RunsScript (rounds : Nat) (around : Surroundings) : Settings → Text → Prop
  | intro {flags : Flags} {p : Preferences} {path source : Text}
      (hflags : Flags.none.parse around.arguments = .ok flags) (hrest : flags.rest = [path])
      (hload : Preferences.load around.files around.home flags.config = (p, none))
      (hread : around.files.read (Path.absolute around.files.workingPath path) = .ok source) :
      RunsScript rounds around (settings rounds flags p) source

/-- A call that starts a session at the prompt: the arguments name no file, the preferences can be
used, and the line editor delivers lines up to the end of the input. -/
inductive Prompts (editor : Prompt.Editor) (rounds : Nat) (around : Surroundings) :
    Settings → Text → List Text → Prop
  | intro {flags : Flags} {p : Preferences} {lines : List Text}
      (hflags : Flags.none.parse around.arguments = .ok flags) (hrest : flags.rest = [])
      (hload : Preferences.load around.files around.home flags.config = (p, none))
      (hlines : editor.deliver p.prompt around.input = .ok lines) :
      Prompts editor rounds around (settings rounds flags p) p.prompt lines

variable {editor : Prompt.Editor} {rounds : Nat} {around : Surroundings} {s : Settings}

/-- A call that runs a script ends with the exit code of its run. -/
theorem RunsScript.code_eq {source : Text} (h : RunsScript rounds around s source) :
    (interpret editor rounds around).ending.code = (Machine.new.run s source).exitCode := by
  obtain ⟨hflags, hrest, hload, hread⟩ := h
  simp only [interpret, hflags, hrest, hload, List.length_singleton, Nat.lt_irrefl, if_false,
    script, hread, Script.ofRead, Script.ofSource]

/-- What is said when the history is kept goes to the second stream. -/
theorem exists_saveHistory (s : Settings) (files : Directory) (path history : Text) : ∃ said, (saveHistory s files path history).1 = .ofErr said := by
  unfold saveHistory
  split
  · exact ⟨[], rfl⟩
  · exact ⟨_, rfl⟩

/-- Keeping the history changes no exit code and adds to the second stream only. -/
theorem prompt_ending (editor : Prompt.Editor) (s : Settings) (p : Preferences)
    (around : Surroundings) :
    let ending := Prompt.session s p.prompt (editor.deliver p.prompt around.input)
    ∃ said, (prompt editor s p around).ending =
      ⟨ending.code, ending.console ++ .ofErr said⟩ := by
  intro ending
  unfold prompt
  dsimp only
  split
  · have hnothing : ending.console ++ Console.ofErr [] = ending.console :=
      congrArg₂ Console.mk (List.append_nil _) (List.append_nil _)
    exact ⟨[], by rw [hnothing]⟩
  · obtain ⟨said, hsaid⟩ := exists_saveHistory s around.files (p.historyPath around.home)
      (editor.history (around.files.read (p.historyPath around.home)).toOption
        (Prompt.added (editor.deliver p.prompt around.input)))
    exact ⟨said, by rw [hsaid]⟩

/-- A call at the prompt comes to the session of its lines, and says at most that they could not be
kept. -/
theorem Prompts.ending_eq {prompt : Text} {lines : List Text}
    (h : Prompts editor rounds around s prompt lines) :
    let ending := Prompt.session s prompt (.ok lines)
    ∃ said, (interpret editor rounds around).ending =
      ⟨ending.code, ending.console ++ .ofErr said⟩ := by
  obtain @⟨flags, p, lines, hflags, hrest, hload, hlines⟩ := h
  have hending := prompt_ending editor (settings rounds flags p) p around
  rw [hlines] at hending
  simp only [interpret, hflags, hrest, hload, List.length_nil, Nat.not_lt_zero, if_false]
  exact hending

end Command

/-- The prompt goes on behind every line. -/
structure Prompt.GoesOn (settings : Settings) (lines : List Text) : Prop where
  /-- The lines that are not blank are run in order as the units of one session. Each writes what
  it prints, and then its errors. -/
  runs : resultsOf (fun line => !Text.isBlank line) lines (turns settings .new lines) =
    (Lox.session settings .new ((lines.filter fun line => !Text.isBlank line).map .source)).map
      fun o => (o.machine,
        ⟨Text.unlines o.printed, logText o.logged ++ Text.unlines o.errorLines⟩)
  /-- Blank lines write nothing. -/
  silent : ∀ turn ∈ resultsOf Text.isBlank lines (turns settings .new lines), turn.2 = .empty
  /-- Lines that are turned down or blank can be left out: the others come to the same. -/
  skips : ∀ keep : Text → Bool,
    (∀ line ∈ lines, keep line = false → (WorkUnit.source line).Idle) →
      turns settings .new (lines.filter keep) = resultsOf keep lines (turns settings .new lines)

/-- Errors stay with their unit. A source that is not cut off, on a machine that sources have led
to, succeeds, is turned down for errors of one phase and has done nothing, or is stopped by one
runtime error. Sources that are turned down or blank can be left out of a session, and lines of
the prompt as well: the other units come to the same, the machines that they leave included. The
prompt runs all lines that its editor delivers and that are not blank on one machine, in order, and
ends with zero. A script is said to succeed exactly if no error is shown, shows its errors behind
its output, and ends with the exit code of its kind of failure. -/
theorem errors_stay_with_their_unit {m : Machine} (h : m.Reached WorkUnit.IsSource)
    (settings : Settings) :
    (∀ source, (m.run settings source).failure ≠ some (.stopped .unfinished) →
      (m.run settings source).Settled source m) ∧
    (∀ (units : List WorkUnit) (keep : WorkUnit → Bool),
      (∀ unit ∈ units, keep unit = false → unit.Idle) →
        session settings m (units.filter keep) =
          resultsOf keep units (session settings m units)) ∧
    (∀ lines, Prompt.GoesOn settings lines) ∧
    (∀ prompt lines, Prompt.session settings prompt (.ok lines) = ⟨.ok, .ofOut Prompt.banner ++
      Prompt.transcript prompt (Prompt.turns settings .new lines)⟩) ∧
    (∀ editor rounds around prompt lines,
      Command.Prompts editor rounds around settings prompt lines →
        let ending := (Command.interpret editor rounds around).ending
        ending.code.number = 0 ∧ ∃ said, ending.console =
          (Prompt.session settings prompt (.ok lines)).console ++ .ofErr said) ∧
    ∀ source, (Machine.new.run settings source).failure ≠ some (.stopped .unfinished) →
      Script.Told (runSource settings source).1 (runSource settings source).2 ∧
        ∀ editor rounds around, Command.RunsScript rounds around settings source →
          (Machine.new.run settings source).Coded
            (Command.interpret editor rounds around).ending.code.number := by
  refine ⟨fun source => h.settled, fun units keep hidle => session_filter hidle m,
    fun lines => ⟨Prompt.resultsOf_turns settings .new lines, Prompt.console_of_isBlank,
      fun keep hidle => Prompt.turns_filter hidle .new⟩, ?_, ?_, ?_⟩
  · intro prompt lines
    rw [Prompt.session, Prompt.converse_eq_transcript]
  · intro editor rounds around prompt lines hprompts
    obtain ⟨said, hending⟩ := hprompts.ending_eq
    dsimp only
    rw [hending]
    exact ⟨rfl, said, rfl⟩
  · intro source hfinished
    have hsettled := Machine.Reached.new.settled hfinished
    refine ⟨hsettled.told, fun editor rounds around hscript => ?_⟩
    rw [hscript.code_eq]
    exact hsettled.coded

/-- A session without a line that does not parse and without a blank one prints the same. A prompt
that is given such lines goes on behind them and ends with zero, and a script that asks for an
unbound name ends with 70. -/
theorem errors_stay_with_their_unit_of_bad_lines :
    let settings : Settings := ⟨.warning, 1⟩
    let lines := [utf8 "var a = \"x\";", utf8 "print (;", utf8 "print a; print b;", utf8 " \t",
      utf8 "print a;"]
    let units := lines.map WorkUnit.source
    let keep (unit : WorkUnit) : Bool := match unit with
      | .source text => !Text.isBlank text && text != utf8 "print (;"
      | .statements _ => true
    let files := Directory.ofFiles [utf8 "w"] [(utf8 "a.lox", utf8 "print b;")]
    let called : Surroundings := ⟨[utf8 "a.lox"], [], none, files⟩
    let asked : Surroundings := ⟨[], [], none, files⟩
    let editor : Prompt.Editor := ⟨fun _ _ => .ok lines, fun _ _ => []⟩
    let ending := (Command.interpret editor 1 asked).ending
    Machine.new.Reached WorkUnit.IsSource ∧
      (session settings .new units).map Outcome.printed =
        [[], [], [utf8 "x"], [], [utf8 "x"]] ∧
      (session settings .new (units.filter keep)).map Outcome.printed =
        [[], [utf8 "x"], [utf8 "x"]] ∧
      (Machine.new.run settings (utf8 "print (;")).Settled (utf8 "print (;") .new ∧
      Prompt.session settings (utf8 "> ") (.ok lines) = ⟨.ok,
        Prompt.banner ++ utf8 "> > > x\n> > x\n> \n",
        utf8 ("[line 1] ParseError Expect expression.\n" ++
          "[line 1] RuntimeError Undefined variable 'b'.\n")⟩ ∧
      ending.code.number = 0 ∧
      ending.console.out = Prompt.banner ++ utf8 "> > > x\n> > x\n> \n" ∧
      (Command.interpret editor 1 called).ending.code.number = 70 := by
  intro settings lines units keep files called asked editor ending
  obtain ⟨hsettled, hsession, -, htranscript, hprompt, hscript⟩ :=
    errors_stay_with_their_unit .new settings
  have hidle : ∀ unit ∈ units, keep unit = false → unit.Idle := by
    have hbad : ¬ ∃ program, Accepts (utf8 "print (;") program := by
      rintro ⟨program, tokens, hscan, hparse⟩
      obtain rfl := Except.ok.inj hscan
      cases hparse
    have hblank : Text.isBlank (utf8 " \t") = true := rfl
    exact List.forall_mem_cons.mpr ⟨nofun, List.forall_mem_cons.mpr ⟨fun _ => .turnedDown hbad,
      List.forall_mem_cons.mpr ⟨nofun, List.forall_mem_cons.mpr ⟨fun _ => .blank hblank,
        List.forall_mem_cons.mpr ⟨nofun, List.forall_mem_nil _⟩⟩⟩⟩⟩
  have hasked : Command.Prompts editor 1 asked settings (utf8 "> ") lines :=
    @Command.Prompts.intro editor 1 asked Flags.none .default lines rfl rfl rfl rfl
  have hcalled : Command.RunsScript 1 called settings (utf8 "print b;") :=
    @Command.RunsScript.intro 1 called ⟨[], false, false, [utf8 "a.lox"]⟩ .default _ _ rfl rfl rfl
      rfl
  have hwritten : Prompt.session settings (utf8 "> ") (.ok lines) = ⟨.ok,
      Prompt.banner ++ utf8 "> > > x\n> > x\n> \n",
      utf8 ("[line 1] ParseError Expect expression.\n" ++
        "[line 1] RuntimeError Undefined variable 'b'.\n")⟩ := by
    rw [htranscript]
    dsimp only [settings, lines]
    decide +kernel
  obtain ⟨hcode, said, hconsole⟩ := hprompt editor 1 asked _ _ hasked
  refine ⟨.new, ?_, ?_, hsettled _ nofun, hwritten, hcode, ?_, ?_⟩
  · dsimp only [settings, lines, units]
    decide +kernel
  · rw [hsession units keep hidle]
    dsimp only [settings, lines, units, keep]
    decide +kernel
  · rw [hconsole, hwritten, Console.append_out, Console.ofErr, List.append_nil]
  · exact ((hscript (utf8 "print b;") nofun).2 editor 1 called hcalled).software_iff.mpr ⟨_, rfl⟩

end Lox
