import Mathlib.Data.List.Forall2
import Lox.Proofs.Tree.Produced

/-!
# Layout has no influence on a source

Blanks, comments and line breaks set tokens apart and put them on lines. Two sources with tokens
of the same kinds and bytes do the same on every machine: they print the same lines, leave the
same machine, and both succeed, both fail or both go on for ever. Their errors are the same in
number, order and cause; only lines may differ, and each line is that of a token which stands at
the same position in both streams.

The proof compares neither source with the other. Both streams are one stream with other lines:
the one in which the line of each token is its position. Reading and running that stream once says
which position each error has, and moving its tokens to their lines gives either source.
-/

namespace Lox

/-- What a token is, but for its line: its kind and its bytes. -/
def Token.spelled (t : Token) : Kind × Text := (t.kind, t.lexeme)

/-- Two lines that are those of tokens at one position of two streams. -/
def SamePlace (tokens tokens' : List Token) (line line' : Int) : Prop :=
  ∃ (i : Nat) (t t' : Token), tokens[i]? = some t ∧ tokens'[i]? = some t' ∧ line = t.line ∧
    line' = t'.line

/-- Failures that are the same but for lines, which are those of tokens at one position. -/
inductive Failure.Alike (tokens tokens' : List Token) : Failure → Failure → Prop
  /-- The errors of grammar agree one by one. -/
  | grammatical {errors errors' : List GrammarError}
      (h : List.Forall₂ (fun e e' => e.cause = e'.cause ∧
        SamePlace tokens tokens' e.line e'.line) errors errors') :
      Alike tokens tokens' (.grammatical errors) (.grammatical errors')
  | error {cause : RuntimeCause} {line line' : Int} (h : SamePlace tokens tokens' line line') :
      Alike tokens tokens' (.stopped (.error ⟨cause, line⟩)) (.stopped (.error ⟨cause, line'⟩))
  | fault (f : Fault) : Alike tokens tokens' (.stopped (.fault f)) (.stopped (.fault f))
  | unfinished : Alike tokens tokens' (.stopped .unfinished) (.stopped .unfinished)

/-- Outcomes of two sources with the given tokens that are the same but for lines of errors. -/
structure Outcome.Alike (tokens tokens' : List Token) (o o' : Outcome) : Prop where
  /-- The same lines are printed. -/
  printed_eq : o'.printed = o.printed
  /-- The same machine is left. -/
  machine_eq : o'.machine = o.machine
  /-- Both succeed, or both fail alike. -/
  failure_rel : Option.Rel (Failure.Alike tokens tokens') o.failure o'.failure

/-- The stream with the position of each token as its line. -/
def placed (tokens : List Token) : List Token :=
  tokens.mapIdx fun i t => { t with line := (i : Int) }

/-- The line of the token at a position. -/
def lineAt (tokens : List Token) (position : Int) : Int :=
  ((tokens[position.toNat]?).map Token.line).getD 0

/-- The position itself if it is one of a stream of the given length, else one at its edge. -/
def clamp (length : Nat) (position : Int) : Int := min (max position 0) ((length : Int) - 1)

/-- Positions leave no stream empty that was not. -/
theorem placed_ne_nil {tokens : List Token} (h : tokens ≠ []) : placed tokens ≠ [] := by
  rwa [ne_eq, placed, List.mapIdx_eq_nil_iff]

/-- Every stream is its stream of positions with each token on its line. -/
theorem map_lineAt_placed (tokens : List Token) :
    (placed tokens).map (Token.mapLine (lineAt tokens)) = tokens := by
  apply List.ext_getElem?
  intro i
  simp only [placed, List.getElem?_map, List.getElem?_mapIdx]
  cases ht : tokens[i]? with
  | none => rfl
  | some t =>
    have hline : lineAt tokens (i : Int) = t.line := by
      simp only [lineAt, Int.toNat_natCast, ht, Option.map_some, Option.getD_some]
    simp only [Option.map_some, Token.mapLine, hline]

/-- The positions of a stream stay when they are held inside it. -/
theorem map_clamp_placed (tokens : List Token) :
    (placed tokens).map (Token.mapLine (clamp tokens.length)) = placed tokens := by
  apply List.ext_getElem?
  intro i
  simp only [placed, List.getElem?_map, List.getElem?_mapIdx]
  cases ht : tokens[i]? with
  | none => rfl
  | some t =>
    have hi : i < tokens.length := (List.getElem?_eq_some_iff.mp ht).1
    have hline : clamp tokens.length (i : Int) = (i : Int) := by
      unfold clamp
      omega
    simp only [Option.map_some, Token.mapLine, hline]

/-- A position that stays when it is held inside two streams of one length is that of a token in
both. -/
theorem samePlace_of_clamp {tokens tokens' : List Token} {position : Int} (hne : tokens ≠ [])
    (hlength : tokens'.length = tokens.length) (h : clamp tokens.length position = position) :
    SamePlace tokens tokens' (lineAt tokens position) (lineAt tokens' position) := by
  have hpos : 0 < tokens.length := List.length_pos_iff.mpr hne
  have hi : position.toNat < tokens.length := by
    unfold clamp at h
    omega
  have ht := List.getElem?_eq_getElem hi
  have ht' := List.getElem?_eq_getElem (hlength ▸ hi)
  refine ⟨position.toNat, _, _, ht, ht', ?_, ?_⟩
  · simp only [lineAt, ht, Option.map_some, Option.getD_some]
  · simp only [lineAt, ht', Option.map_some, Option.getD_some]

/-- Errors of grammar in a stream of positions stay when positions are held inside it. -/
theorem clamp_of_parse_error {tokens : List Token} (hne : tokens ≠ [])
    {errors : List GrammarError} (h : parse (placed tokens) = .error errors) :
    ∀ e ∈ errors, clamp tokens.length e.line = e.line := by
  have hparse := parse_mapLine (clamp tokens.length) (placed_ne_nil hne)
  rw [map_clamp_placed, h] at hparse
  have herrors : errors = errors.map (GrammarError.mapLine (clamp tokens.length)) :=
    Except.error.inj hparse
  intro e he
  have hsame := List.map_inj_left.mp ((List.map_id errors).trans herrors) e he
  exact (congrArg GrammarError.line hsame).symm

/-- The runtime error of a program that is read from a stream of positions stays when positions
are held inside the stream. -/
theorem clamp_of_stop_error {tokens : List Token} (hne : tokens ≠ []) {program : List Stmt}
    (h : parse (placed tokens) = .ok program) {settings : Settings} {m : Machine}
    {e : RuntimeError} (hstop : (executeAll settings program m).stop = some (.error e)) :
    clamp tokens.length e.line = e.line := by
  have hparse := parse_mapLine (clamp tokens.length) (placed_ne_nil hne)
  rw [map_clamp_placed, h] at hparse
  have hprogram : program = program.map (Stmt.mapLine (clamp tokens.length)) :=
    Except.ok.inj hparse
  have hrun := executeAll_mapLine (clamp tokens.length) settings program m
  rw [← hprogram] at hrun
  have hmapped : some (.error e) = some (Stop.error (e.mapLine (clamp tokens.length))) := by
    have hfields := congrArg Ran.stop hrun
    simp only [Ran.mapLine, hstop] at hfields
    exact hfields
  have herror := Stop.error.inj (Option.some.inj hmapped)
  exact (congrArg RuntimeError.line herror).symm

/-- The tokens of a source that was scanned are written in it, or mark its end. -/
theorem written_or_eof_of_scan {source : Text} {tokens : List Token}
    (h : scan source = .ok tokens) {t : Token} (ht : t ∈ tokens) :
    t.Written ∨ t = Token.eof (lastLine source) := by
  obtain ⟨-, rfl⟩ := scan_eq_ok_iff.mp h
  rcases List.mem_append.mp ht with hmem | hmem
  · exact .inl (written_of_mem_sourceTokens hmem)
  · exact .inr (List.mem_singleton.mp hmem)

/-- Two tokens of sources that are spelled alike denote the same value, if any. -/
theorem literal_eq_of_spelled {source source' : Text} {tokens tokens' : List Token}
    (h : scan source = .ok tokens) (h' : scan source' = .ok tokens') {t t' : Token}
    (ht : t ∈ tokens) (ht' : t' ∈ tokens') (hspelled : t.spelled = t'.spelled) :
    t.literal = t'.literal := by
  have hkind : t.kind = t'.kind := congrArg Prod.fst hspelled
  have hlexeme : t.lexeme = t'.lexeme := congrArg Prod.snd hspelled
  rcases written_or_eof_of_scan h ht with hw | rfl
  · rcases written_or_eof_of_scan h' ht' with hw' | rfl
    · rw [Token.Written, hlexeme] at hw
      exact (Pattern.unique hw hw').2
    · exact absurd hkind (Pattern.kind_ne_eof hw)
  · rcases written_or_eof_of_scan h' ht' with hw' | rfl
    · exact absurd hkind.symm (Pattern.kind_ne_eof hw')
    · rfl

/-- Sources that are spelled alike have one stream of positions. -/
theorem placed_eq_of_spelled {source source' : Text} {tokens tokens' : List Token}
    (h : scan source = .ok tokens) (h' : scan source' = .ok tokens')
    (hspelled : tokens.map Token.spelled = tokens'.map Token.spelled) :
    placed tokens' = placed tokens := by
  apply List.ext_getElem?
  intro i
  have hi : (tokens[i]?).map Token.spelled = (tokens'[i]?).map Token.spelled := by
    rw [← List.getElem?_map, hspelled, List.getElem?_map]
  simp only [placed, List.getElem?_mapIdx]
  cases ht : tokens[i]? with
  | none =>
    rw [ht, Option.map_none, eq_comm, Option.map_eq_none_iff] at hi
    rw [hi]
  | some t =>
    rw [ht, Option.map_some, eq_comm, Option.map_eq_some_iff] at hi
    obtain ⟨t', ht', hsame⟩ := hi
    have hliteral := literal_eq_of_spelled h h' (List.mem_of_getElem? ht)
      (List.mem_of_getElem? ht') hsame.symm
    have hkind : t'.kind = t.kind := congrArg Prod.fst hsame
    have hlexeme : t'.lexeme = t.lexeme := congrArg Prod.snd hsame
    rw [ht', Option.map_some, Option.map_some, hkind, hlexeme, hliteral]

/-- A source whose tokens are no program fails with its errors of grammar, prints nothing and
leaves the machine. -/
theorem Machine.run_of_parse_error {source : Text} {tokens : List Token}
    {errors : List GrammarError} (hscan : scan source = .ok tokens)
    (hparse : parse tokens = .error errors) (settings : Settings) (m : Machine) :
    (m.run settings source).failure = some (.grammatical errors) ∧
      (m.run settings source).machine = m ∧ (m.run settings source).printed = [] := by
  have hrun : m.run settings source = ⟨some (.grammatical errors), m,
      settings.log (.scanned tokens.length) ++ settings.log (.parseFailed errors.length)⟩ := by
    simp only [Machine.run, hscan, hparse]
  rw [hrun]
  refine ⟨rfl, rfl, ?_⟩
  simp only [Outcome.printed, Effect.printed_append, Effect.printed_log, List.append_nil]

/-- Two reasons to stop that one at a position has on the lines of two streams are alike. -/
theorem Failure.alike_of_stop {tokens tokens' : List Token} (hne : tokens ≠ [])
    (hlength : tokens'.length = tokens.length) {stop : Stop}
    (hclamp : ∀ e, stop = .error e → clamp tokens.length e.line = e.line) :
    Failure.Alike tokens tokens' (.stopped (stop.mapLine (lineAt tokens)))
      (.stopped (stop.mapLine (lineAt tokens'))) := by
  cases stop with
  | error e => exact .error (samePlace_of_clamp hne hlength (hclamp e rfl))
  | fault f => exact .fault f
  | unfinished => exact .unfinished

/-- Sources that are spelled alike come to the same on every machine, but for lines. -/
theorem Outcome.alike_run {source source' : Text} {tokens tokens' : List Token}
    (h : scan source = .ok tokens) (h' : scan source' = .ok tokens')
    (hspelled : tokens.map Token.spelled = tokens'.map Token.spelled) (settings : Settings)
    (m : Machine) :
    Outcome.Alike tokens tokens' (m.run settings source) (m.run settings source') := by
  have hne : tokens ≠ [] := by
    obtain ⟨-, rfl⟩ := scan_eq_ok_iff.mp h
    exact List.append_ne_nil_of_right_ne_nil _ (List.cons_ne_nil _ _)
  have hlength : tokens'.length = tokens.length := by
    rw [← List.length_map (f := Token.spelled), ← hspelled, List.length_map]
  -- Both streams are one placed stream on other lines, so what is read from it decides for both.
  have hparse := parse_mapLine (lineAt tokens) (placed_ne_nil hne)
  rw [map_lineAt_placed] at hparse
  have hparse' := parse_mapLine (lineAt tokens') (placed_ne_nil hne)
  rw [← placed_eq_of_spelled h h' hspelled, map_lineAt_placed,
    placed_eq_of_spelled h h' hspelled] at hparse'
  cases hread : parse (placed tokens) with
  | error errors =>
    rw [hread] at hparse hparse'
    obtain ⟨hfailure, hmachine, hprinted⟩ := Machine.run_of_parse_error h hparse settings m
    obtain ⟨hfailure', hmachine', hprinted'⟩ := Machine.run_of_parse_error h' hparse' settings m
    refine ⟨hprinted'.trans hprinted.symm, hmachine'.trans hmachine.symm, ?_⟩
    rw [hfailure, hfailure']
    refine .some (.grammatical ?_)
    rw [List.forall₂_map_left_iff, List.forall₂_map_right_iff, List.forall₂_same]
    intro e he
    exact ⟨rfl, samePlace_of_clamp hne hlength (clamp_of_parse_error hne hread e he)⟩
  | ok program =>
    rw [hread] at hparse hparse'
    have hshows := Accepts.shows ⟨tokens, h, hparse⟩ settings m
    have hshows' := Accepts.shows ⟨tokens', h', hparse'⟩ settings m
    rw [executeAll_mapLine] at hshows hshows'
    refine ⟨hshows'.printed_eq.trans hshows.printed_eq.symm,
      hshows'.machine_eq.trans hshows.machine_eq.symm, ?_⟩
    rw [hshows.failure_eq, hshows'.failure_eq]
    cases hstop : (executeAll settings program m).stop with
    | none =>
      simp only [Ran.mapLine, hstop, Option.map_none]
      exact .none
    | some stop =>
      simp only [Ran.mapLine, hstop, Option.map_some]
      refine .some (Failure.alike_of_stop hne hlength fun e he => ?_)
      exact clamp_of_stop_error hne hread (he ▸ hstop)

/-- Of two alike failures both say that a source was cut off, or neither does. -/
theorem Failure.Alike.unfinished_iff {tokens tokens' : List Token} {f f' : Option Failure}
    (h : Option.Rel (Failure.Alike tokens tokens') f f') :
    f = some (.stopped .unfinished) ↔ f' = some (.stopped .unfinished) := by
  cases h with
  | none => exact ⟨nofun, nofun⟩
  | some h =>
    cases h with
    | grammatical | error | fault => exact ⟨nofun, nofun⟩
    | unfinished => exact ⟨fun _ => rfl, fun _ => rfl⟩

/-- Two sources that are scanned into tokens of the same kinds and bytes print the same on every
machine and leave the same machine. Both succeed, both diverge, or both fail, with the same errors
in the same order, each on the line of a token at the same position of both streams. -/
theorem run_independent_of_layout {source source' : Text} {tokens tokens' : List Token}
    (h : scan source = .ok tokens) (h' : scan source' = .ok tokens')
    (hspelled : tokens.map Token.spelled = tokens'.map Token.spelled) (level : LogLevel)
    (m : Machine) :
    (∀ rounds, Outcome.Alike tokens tokens' (m.run ⟨level, rounds⟩ source)
      (m.run ⟨level, rounds⟩ source')) ∧
    (Diverges level source m ↔ Diverges level source' m) := by
  have halike (rounds : Nat) := Outcome.alike_run h h' hspelled ⟨level, rounds⟩ m
  refine ⟨halike, forall_congr' fun rounds => ?_⟩
  exact Failure.Alike.unfinished_iff (halike rounds).failure_rel

/-- A program on one line, and the same program over three lines with a comment: both fail over
the same name, which is the second token, on the first and on the third line. -/
theorem run_independent_of_layout_of_comment :
    let source := utf8 "print a;"
    let source' := utf8 "print // a name\n\n\ta ;"
    let tokens := sourceTokens source ++ [Token.eof 1]
    let tokens' := sourceTokens source' ++ [Token.eof 3]
    scan source = .ok tokens ∧ scan source' = .ok tokens' ∧
      tokens.map Token.spelled = tokens'.map Token.spelled ∧
      (Machine.new.run ⟨.info, 0⟩ source).failure =
        some (.stopped (.error ⟨.undefinedVariable (utf8 "a"), 1⟩)) ∧
      (Machine.new.run ⟨.info, 0⟩ source').failure =
        some (.stopped (.error ⟨.undefinedVariable (utf8 "a"), 3⟩)) ∧
      Outcome.Alike tokens tokens' (Machine.new.run ⟨.info, 0⟩ source)
        (Machine.new.run ⟨.info, 0⟩ source') ∧
      (Diverges .info source .new ↔ Diverges .info source' .new) := by
  intro source source' tokens tokens'
  have h : scan source = .ok tokens := rfl
  have h' : scan source' = .ok tokens' := rfl
  have hspelled : tokens.map Token.spelled = tokens'.map Token.spelled := by decide +kernel
  obtain ⟨halike, hdiverges⟩ := run_independent_of_layout h h' hspelled .info .new
  exact ⟨h, h', hspelled, rfl, rfl, halike 0, hdiverges⟩

end Lox
