import Lox.Proofs.Isolation

/-!
# The commands agree on errors

Three commands are given sources: two list the tokens and the tree, one runs the source as a
script. The listings write the text of all errors of a phase as one line, the interpreter writes
one line for each error. Both come to the same bytes, so that the commands say the same about a
source that is turned down, and they turn down the same sources: the list of tokens asks for no
more than a scan, the other two for a program.
-/

namespace Lox

/-- Texts set apart by line feeds and ended by one are lines. -/
theorem Text.line_join {ts : List Text} (h : ts ≠ []) :
    line (join [lineFeed] ts) = unlines ts := by
  induction ts with
  | nil => exact absurd rfl h
  | cons t rest ih =>
    cases rest with
    | nil => exact (List.append_nil _).symm
    | cons t' rest =>
      calc line (join [lineFeed] (t :: t' :: rest))
          = line t ++ line (join [lineFeed] (t' :: rest)) := List.append_assoc _ _ _
        _ = unlines (t :: t' :: rest) := by
          rw [ih (List.cons_ne_nil _ _)]
          rfl

namespace Report

/-- The texts of several errors are those of each. -/
theorem texts_eq_map (members : List Report) : texts members = members.map text := by
  induction members with
  | nil => rfl
  | cons report rest ih => rw [texts, ih, List.map_cons]

/-- The text of several errors. -/
theorem text_several (members : List Report) :
    (several members).text = Text.join [Text.lineFeed] (members.map text) := by
  rw [text, texts_eq_map]

/-- Lines that tell of an error. -/
structure ToldBy (report : Report) (lines : List Text) : Prop where
  /-- There are as many as the error counts for. -/
  length_eq : lines.length = report.count
  /-- Set apart by line feeds they are the text of the error. -/
  join_eq : Text.join [Text.lineFeed] lines = report.text

/-- An error is told by its lines. -/
theorem toldBy_lines (report : Report) : report.ToldBy report.lines where
  length_eq := report.length_lines
  join_eq := by
    cases report with
    | several members => rw [text]; rfl
    | lexical | grammatical | runtime | other => exact Text.join_singleton _ _

end Report

/-- The error that a unit fails with is told by its lines about errors. -/
theorem Outcome.toldBy_errorLines {o : Outcome} {report : Report}
    (h : o.failure.bind Failure.report? = some report) : report.ToldBy o.errorLines := by
  rw [errorLines, h]
  exact report.toldBy_lines

/-- The ending of a source that is turned down for errors: nothing is shown but the errors, one a
line. -/
structure Ending.TurnsDown (e : Ending) (members : List Report) : Prop where
  /-- The exit code says that the source holds errors. -/
  number_eq : e.code.number = 65
  /-- There is no output. -/
  out_eq : e.console.out = []
  /-- The errors are told in order. -/
  err_eq : e.console.err = Text.unlines (members.map Report.text)

/-- A listing turns a source down by the text of all its errors. -/
theorem Listing.turnsDown_rejected {members : List Report} (h : members ≠ []) :
    (rejected (.several members)).TurnsDown members := by
  refine ⟨rfl, rfl, ?_⟩
  calc (rejected (.several members)).console.err
      = Text.line (Text.join [Text.lineFeed] (members.map Report.text)) := by
        rw [← Report.text_several]
        rfl
    _ = Text.unlines (members.map Report.text) :=
        Text.line_join fun hnil => h (List.map_eq_nil_iff.mp hnil)

/-- The log of an interpreter that was told nothing: only warnings and what is worse. -/
abbrev Settings.silent (rounds : Nat) : Settings := ⟨.warning, rounds⟩

/-- A script turns a source down that fails with several errors and has done nothing. -/
theorem Script.turnsDown_ofSource {rounds : Nat} {path source : Text} {f : Failure}
    {members : List Report} {m : Machine}
    (hrun : Machine.new.run (.silent rounds) source = ⟨some f, m, []⟩)
    (hreport : f.report? = some (.several members))
    (hcode : (⟨some f, m, []⟩ : Outcome).exitCode = .dataError) :
    (ofSource (.silent rounds) path source).TurnsDown members := by
  have hlines : (⟨some f, m, []⟩ : Outcome).errorLines = members.map Report.text := by
    rw [Outcome.errorLines, Option.bind_some, hreport, ← Report.texts_eq_map]
    rfl
  refine ⟨?_, ?_, ?_⟩
  · simp only [ofSource, hrun, hcode]
    rfl
  · simp only [ofSource, hrun]
    rfl
  · simp only [ofSource, hrun, Console.append_err, Outcome.console, hlines]
    rfl

namespace Command

/-- A call that gives a command a source: the arguments name its file, which can be read. The
interpreter is asked for no detailed log and finds no preferences. -/
inductive Gets (around : Surroundings) (source : Text) : Command → Prop
  | listing (l : Listing) {path : Text} (harguments : around.arguments = [path])
      (hread : around.files.read path = .ok source) : Gets around source (.listing l)
  | interpreter {flags : Flags} {path : Text}
      (hflags : Flags.none.parse around.arguments = .ok flags) (hrest : flags.rest = [path])
      (hverbose : flags.verbose = false) (hconfig : flags.config = [])
      (hpreferences : ∀ place, Preferences.source? around.home [] = some place →
        ∃ failure, around.files.read place = .error failure ∧ failure.cause = .missing)
      (hread : around.files.read (Path.absolute around.files.workingPath path) = .ok source) :
      Gets around source .interpreter

/-- Without a file of preferences the defaults hold. -/
theorem load_eq_default {files : Directory} {home : Option Text}
    (h : ∀ place, Preferences.source? home [] = some place →
      ∃ failure, files.read place = .error failure ∧ failure.cause = .missing) :
    Preferences.load files home [] = (.default, none) := by
  unfold Preferences.load
  split
  · rfl
  · next place hplace =>
    obtain ⟨failure, hread, hmissing⟩ := h place hplace
    rw [hread, Preferences.ofRead, hmissing]
    rfl

variable {around : Surroundings} {source : Text}

/-- A listing shows the source that it is given. -/
theorem Gets.ending_listing {l : Listing} (h : Gets around source (.listing l)) (rounds : Nat) :
    ((Command.listing l).run rounds around).ending = l.ofSource source := by
  obtain ⟨-, harguments, hread⟩ := h
  simp only [run, harguments, Listing.run, hread, Listing.ofRead]

/-- The interpreter runs the source that it is given as a script, with a silent log. -/
theorem Gets.ending_interpreter (h : Gets around source .interpreter) (rounds : Nat) :
    ∃ path, (Command.interpreter.run rounds around).ending =
      Script.ofSource (.silent rounds) path source := by
  obtain @⟨-, -⟩ | @⟨flags, path, hflags, hrest, hverbose, hconfig, hpreferences, hread⟩ := h
  have hload := load_eq_default hpreferences
  have hsettings : settings rounds flags .default = .silent rounds := by
    rw [settings, hverbose]
    rfl
  refine ⟨Path.absolute around.files.workingPath path, ?_⟩
  simp only [run, interpret, hflags, hrest, hconfig, hload, List.length_singleton,
    Nat.lt_irrefl, if_false, script, hread, Script.ofRead, hsettings]

end Command

/-- What the commands make of a source that holds lexical errors: each turns it down for them. -/
theorem turnsDown_of_misspelled {source : Text} {errors : List LexicalError}
    (hscan : scan source = .error errors) :
    (∀ l : Listing, (l.ofSource source).TurnsDown (errors.map LexicalError.report)) ∧
      ∀ rounds path, (Script.ofSource (.silent rounds) path source).TurnsDown
        (errors.map LexicalError.report) := by
  have hne : errors.map LexicalError.report ≠ [] :=
    fun hnil => lexicalErrors_ne_nil hscan (List.map_eq_nil_iff.mp hnil)
  constructor
  · intro l
    rw [Listing.ofSource, hscan]
    exact Listing.turnsDown_rejected hne
  · intro rounds path
    have hrun : Machine.new.run (.silent rounds) source = ⟨some (.lexical errors), .new, []⟩ := by
      simp only [Machine.run, hscan]
      rfl
    exact Script.turnsDown_ofSource hrun rfl rfl

/-- What the commands make of a source whose tokens make no program: those that ask for a program
turn it down. -/
theorem turnsDown_of_ungrammatical {source : Text} {tokens : List Token}
    {errors : List GrammarError} (hscan : scan source = .ok tokens)
    (hparse : parse tokens = .error errors) :
    (Listing.tree.ofSource source).TurnsDown (errors.map GrammarError.report) ∧
      ∀ rounds path, (Script.ofSource (.silent rounds) path source).TurnsDown
        (errors.map GrammarError.report) := by
  have hne : errors.map GrammarError.report ≠ [] :=
    fun hnil => Descent.errors_ne_nil hparse (List.map_eq_nil_iff.mp hnil)
  constructor
  · simp only [Listing.ofSource, hscan, Listing.ofTree, hparse]
    exact Listing.turnsDown_rejected hne
  · intro rounds path
    have hrun : Machine.new.run (.silent rounds) source =
        ⟨some (.grammatical errors), .new, []⟩ := by
      simp only [Machine.run, hscan, hparse]
      rfl
    exact Script.turnsDown_ofSource hrun rfl rfl

/-- A source that can be scanned has its tokens listed. -/
theorem Listing.code_tokens {source : Text} {scanned : List Token}
    (hscan : scan source = .ok scanned) : (Listing.tokens.ofSource source).code = .ok := by
  simp only [ofSource, hscan]
  rfl

/-- A source that is accepted has its tree listed, and all of it. -/
theorem Accepts.listing_tree {source : Text} {program : List Stmt} (h : Accepts source program) :
    ∃ text, treeText? program = some text ∧
      Listing.tree.ofSource source = ⟨.ok, .ofOut text⟩ := by
  obtain ⟨items, -, htext, -⟩ := h.exists_treeText
  obtain ⟨tokens, hscan, hparse⟩ := h
  refine ⟨_, htext, ?_⟩
  simp only [Listing.ofSource, hscan, Listing.ofTree, hparse, htext]
  rfl

/-- A script that is accepted and not cut off succeeds or is stopped by a runtime error, and its
exit code says so. -/
theorem Accepts.script_code {source : Text} {program : List Stmt} (h : Accepts source program)
    (rounds : Nat) (path : Text)
    (hfinished : (Machine.new.run (.silent rounds) source).failure ≠
      some (.stopped .unfinished)) :
    ((Machine.new.run (.silent rounds) source).failure = none ∧
        (Script.ofSource (.silent rounds) path source).code.number = 0) ∨
      ∃ error, (Machine.new.run (.silent rounds) source).failure =
          some (.stopped (.error error)) ∧
        (Script.ofSource (.silent rounds) path source).code.number = 70 := by
  have hsettled := Machine.Reached.new.settled hfinished
  have hcoded := hsettled.coded
  cases hsettled with
  | succeeded _ hnone => exact .inl ⟨hnone, hcoded.zero_iff.mpr hnone⟩
  | aborted _ herror => exact .inr ⟨_, herror, hcoded.software_iff.mpr ⟨_, herror⟩⟩
  | misspelled hscan =>
    obtain ⟨tokens, hscan', -⟩ := h
    rw [hscan] at hscan'
    cases hscan'
  | ungrammatical hscan hparse =>
    obtain ⟨tokens, hscan', hparse'⟩ := h
    rw [hscan] at hscan'
    cases hscan'
    rw [hparse] at hparse'
    cases hparse'

/-- The commands agree on what is an error. A source that cannot be scanned is turned down by all
three, in the same bytes; one whose tokens make no program has its tokens listed and is turned
down by the other two, in the same bytes. A source that is accepted has its tree listed, and as a
script it succeeds or is stopped by a runtime error unless it is cut off. An error is told in as
many lines as it counts for, and these set apart by line feeds are its text. -/
theorem commands_agree_on_errors {source : Text} {forTokens forTree forScript : Surroundings}
    (htokens : Command.Gets forTokens source (.listing .tokens))
    (htree : Command.Gets forTree source (.listing .tree))
    (hscript : Command.Gets forScript source .interpreter) (rounds : Nat) :
    let tokens := ((Command.listing .tokens).run rounds forTokens).ending
    let tree := ((Command.listing .tree).run rounds forTree).ending
    let script := (Command.interpreter.run rounds forScript).ending
    (∀ errors, scan source = .error errors →
      tokens.TurnsDown (errors.map LexicalError.report) ∧
        tree.TurnsDown (errors.map LexicalError.report) ∧
        script.TurnsDown (errors.map LexicalError.report)) ∧
    (∀ scanned errors, scan source = .ok scanned → parse scanned = .error errors →
      tokens.code.number = 0 ∧ tree.TurnsDown (errors.map GrammarError.report) ∧
        script.TurnsDown (errors.map GrammarError.report)) ∧
    (∀ program, Accepts source program →
      tokens.code.number = 0 ∧
      (∃ text, treeText? program = some text ∧ tree = ⟨.ok, .ofOut text⟩) ∧
      ((Machine.new.run (.silent rounds) source).failure ≠ some (.stopped .unfinished) →
        ((Machine.new.run (.silent rounds) source).failure = none ∧ script.code.number = 0) ∨
          ∃ error, (Machine.new.run (.silent rounds) source).failure =
            some (.stopped (.error error)) ∧ script.code.number = 70)) ∧
    (∀ report : Report, report.ToldBy report.lines) ∧
    ∀ (o : Outcome) (report : Report), o.failure.bind Failure.report? = some report →
      report.ToldBy o.errorLines := by
  obtain ⟨path, hending⟩ := hscript.ending_interpreter rounds
  dsimp only
  rw [htokens.ending_listing, htree.ending_listing, hending]
  refine ⟨fun errors hscan => ?_, fun scanned errors hscan hparse => ?_,
    fun program haccepts => ?_, Report.toldBy_lines, fun _ _ => Outcome.toldBy_errorLines⟩
  · obtain ⟨hlistings, hscripts⟩ := turnsDown_of_misspelled hscan
    exact ⟨hlistings .tokens, hlistings .tree, hscripts rounds path⟩
  · obtain ⟨hlisting, hscripts⟩ := turnsDown_of_ungrammatical hscan hparse
    refine ⟨?_, hlisting, hscripts rounds path⟩
    rw [Listing.code_tokens hscan]
    rfl
  · refine ⟨?_, haccepts.listing_tree, haccepts.script_code rounds path⟩
    obtain ⟨scanned, hscan, -⟩ := haccepts
    rw [Listing.code_tokens hscan]
    rfl

/-- A source with a bad character and a byte that is no character is turned down in two lines by
each command. -/
theorem commands_agree_on_errors_of_bad_bytes :
    let source := utf8 "print $;\n" ++ [0xFF]
    let files := Directory.ofFiles [utf8 "w"] [(utf8 "a.lox", source)]
    let listed : Surroundings := ⟨[utf8 "a.lox"], [], none, files⟩
    let called : Surroundings := ⟨[utf8 "-no-color", utf8 "a.lox"], [], some (utf8 "/w"), files⟩
    let said := utf8 ("[line 1] LexError `$` Unexpected character.\n" ++
      "[line 2] LexError `\uFFFD` Unexpected character.\n")
    ((Command.listing .tokens).run 1 listed).ending.console.err = said ∧
      ((Command.listing .tree).run 1 listed).ending.console.err = said ∧
      (Command.interpreter.run 1 called).ending.console.err = said := by
  intro source files listed called said
  have htokens : Command.Gets listed source (.listing .tokens) := .listing .tokens rfl rfl
  have htree : Command.Gets listed source (.listing .tree) := .listing .tree rfl rfl
  have hcalled : Command.Gets called source .interpreter :=
    @Command.Gets.interpreter called source ⟨[], false, true, [utf8 "a.lox"]⟩ _ rfl rfl rfl rfl
      (fun place hplace => ⟨_, by cases hplace; rfl, rfl⟩) rfl
  obtain ⟨hmisspelled, -⟩ := commands_agree_on_errors htokens htree hcalled 1
  obtain ⟨hlisted, hshown, hrun⟩ := hmisspelled _ rfl
  rw [hlisted.err_eq, hshown.err_eq, hrun.err_eq]
  dsimp only [said]
  decide +kernel

end Lox
