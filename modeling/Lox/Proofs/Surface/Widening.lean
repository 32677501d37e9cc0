import Lox.Proofs.Semantics.Refinement
import Lox.Proofs.Surface

/-!
# An empty scope more

A statement does not declare anything in the scope in which it stands. It therefore does the same
when an empty scope is put in there, or further out: the same names are found in the same scopes,
and what it declares in scopes of its own stays in front of the empty one. A row declares in its
scope, so that the empty one has to be further out.
-/

namespace Lox.Surface

open Semantics

/-- Frames with an empty one put in behind as many as given. -/
inductive Widens : Nat → Frames → Frames → Prop
  | here (f : Frames) : Widens 0 f (.inner [] f)
  | inner {n : Nat} {f g : Frames} (b : Bindings) (h : Widens n f g) :
      Widens (n + 1) (.inner b f) (.inner b g)

namespace Widens

variable {n : Nat} {f g : Frames}

/-- An empty frame binds no name. -/
theorem lookup_eq (h : Widens n f g) (name : Text) : g.lookup name = f.lookup name := by
  induction h with
  | here f => rfl
  | inner b _ ih => rw [Frames.lookup, Frames.lookup, ih]

/-- There is one frame more. -/
theorem index_eq (h : Widens n f g) : g.index = f.index + 1 := by
  induction h with
  | here f => rfl
  | inner b _ ih => rw [Frames.index, Frames.index, ih]

/-- A name is assigned to in the same frame, or in none. -/
theorem assign? (h : Widens n f g) (name : Text) (value : Option Value) :
    (f.assign? name value = none ∧ g.assign? name value = none) ∨
      ∃ f' g', f.assign? name value = some f' ∧ g.assign? name value = some g' ∧
        Widens n f' g' := by
  induction h with
  | here f =>
    have houter : (Frames.inner [] f).assign? name value =
        (f.assign? name value).map (Frames.inner []) := rfl
    rw [houter]
    cases f.assign? name value with
    | none => exact .inl ⟨rfl, rfl⟩
    | some f' => exact .inr ⟨f', _, rfl, rfl, .here f'⟩
  | inner b h ih =>
    simp only [Frames.assign?]
    cases b.find? name with
    | some old => exact .inr ⟨_, _, rfl, rfl, .inner _ h⟩
    | none =>
      rcases ih with ⟨hf, hg⟩ | ⟨f', g', hf, hg, h'⟩
      · exact .inl ⟨by rw [hf]; rfl, by rw [hg]; rfl⟩
      · exact .inr ⟨_, _, by rw [hf]; rfl, by rw [hg]; rfl, .inner b h'⟩

/-- A name is bound in front of the empty frame. -/
theorem define (h : Widens (n + 1) f g) (name : Text) (value : Option Value) :
    Widens (n + 1) (f.define name value) (g.define name value) := by
  cases h with
  | inner b h => exact .inner _ h

/-- Both have the same count of frames before and after if one has. -/
theorem index_eq_of (h : Widens n f g) {f' g' : Frames} (h' : Widens n f' g')
    (hindex : f'.index = f.index) : g'.index = g.index := by
  rw [h.index_eq, h'.index_eq, hindex]

/-- An expression comes to the same in both chains. -/
theorem evaluate_arena (h : Widens n f g) (e : Expr) :
    ∃ (result : Except Stop (Option Value)) (f' g' : Frames),
      e.evaluate f.index f.arena = (result, f'.arena) ∧
        e.evaluate g.index g.arena = (result, g'.arena) ∧ f'.index = f.index ∧
          Widens n f' g' := by
  induction e generalizing f g with
  | absent | literal | call | get | set | super | receiver =>
    exact ⟨_, f, g, rfl, rfl, rfl, h⟩
  | grouping e ih => exact ih h
  | name n =>
    refine ⟨_, f, g, rfl, ?_, rfl, h⟩
    rw [Expr.evaluate, Frames.get_index, Frames.get_index, h.lookup_eq]
  | assign n e ih =>
    obtain ⟨stop | v, f', g', hf, hg, hindex, h'⟩ := ih h
    all_goals simp only [Expr.evaluate, hf, hg]
    · exact ⟨.error stop, f', g', rfl, rfl, hindex, h'⟩
    · rw [← hindex, ← h.index_eq_of h' hindex, Frames.assign_index, Frames.assign_index]
      rcases h'.assign? n.lexeme v with ⟨hnone, hnone'⟩ | ⟨f₁, g₁, hsome, hsome', h₁⟩
      · rw [hnone, hnone']
        exact ⟨_, f', g', rfl, rfl, rfl, h'⟩
      · rw [hsome, hsome']
        exact ⟨.ok v, f₁, g₁, rfl, rfl, Frames.index_assign? hsome, h₁⟩
  | logical left op right ihl ihr =>
    obtain ⟨stop | v, f', g', hf, hg, hindex, h'⟩ := ihl h
    all_goals simp only [Expr.evaluate, hf, hg]
    · exact ⟨.error stop, f', g', rfl, rfl, hindex, h'⟩
    · split
      · exact ⟨.ok v, f', g', rfl, rfl, hindex, h'⟩
      · rw [← hindex, ← h.index_eq_of h' hindex]
        exact ihr h'
  | unary op e ih =>
    obtain ⟨stop | v, f', g', hf, hg, hindex, h'⟩ := ih h
    all_goals simp only [Expr.evaluate, hf, hg]
    · exact ⟨.error stop, f', g', rfl, rfl, hindex, h'⟩
    · rw [ofApplied_eq, ofApplied_eq]
      exact ⟨_, f', g', rfl, rfl, hindex, h'⟩
  | binary left op right ihl ihr =>
    obtain ⟨stop | v, f', g', hf, hg, hindex, h'⟩ := ihl h
    all_goals simp only [Expr.evaluate, hf, hg]
    · exact ⟨.error stop, f', g', rfl, rfl, hindex, h'⟩
    · rw [← hindex, ← h.index_eq_of h' hindex]
      obtain ⟨stop | w, f'', g'', hf', hg', hindex', h''⟩ := ihr h'
      all_goals simp only [hf', hg']
      · exact ⟨.error stop, f'', g'', rfl, rfl, hindex', h''⟩
      · rw [ofApplied_eq, ofApplied_eq]
        exact ⟨_, f'', g'', rfl, rfl, hindex', h''⟩

/-- So it does on the machines of the chains. -/
theorem evaluate (h : Widens n f g) (e : Expr) :
    ∃ result f' g', f.machine.evaluate e = (result, f'.machine) ∧
      g.machine.evaluate e = (result, g'.machine) ∧ f'.index = f.index ∧ Widens n f' g' := by
  obtain ⟨result, f', g', hf, hg, hindex, h'⟩ := h.evaluate_arena e
  refine ⟨result, f', g', ?_, ?_, hindex, h'⟩
  · simp only [Machine.evaluate, Frames.machine, hf, hindex]
  · simp only [Machine.evaluate, Frames.machine, hg, h.index_eq_of h' hindex]

end Widens

/-- Runs that come to the same, but for an empty frame behind as many as given; the frames without
it are as many as given. -/
structure Widened (n index : Nat) (r r' : Ran) : Prop where
  /-- Both end alike. -/
  stop_eq : r'.stop = r.stop
  /-- Both print the same lines. -/
  printed_eq : Effect.printed r'.effects = Effect.printed r.effects
  /-- The frames differ in the empty one only. -/
  frames : ∃ f g : Frames, r.machine = f.machine ∧ r'.machine = g.machine ∧ f.index = index ∧
    Widens n f g

/-- What is carried out comes to the same with an empty frame more behind as many as given. -/
def Widening (n : Nat) (body : Machine → Ran) : Prop :=
  ∀ f g, Widens n f g → Widened n f.index (body f.machine) (body g.machine)

namespace Widening

variable {n : Nat} {body next yes no : Machine → Ran}

/-- Doing nothing comes to the same. -/
theorem idle : Widening n Machine.idle :=
  fun f g h => ⟨rfl, rfl, f, g, rfl, rfl, rfl, h⟩

/-- Stopping comes to the same. -/
theorem halt (stop : Stop) : Widening n fun m => m.halt stop :=
  fun f g h => ⟨rfl, rfl, f, g, rfl, rfl, rfl, h⟩

/-- Binding a name comes to the same in front of the empty frame. -/
theorem define (name : Text) (value : Option Value) :
    Widening (n + 1) fun m => m.define name value := by
  intro f g h
  dsimp only
  rw [Frames.machine_define, Frames.machine_define]
  exact ⟨rfl, rfl, _, _, rfl, rfl, f.index_define name value, h.define name value⟩

/-- What follows a value comes to the same if it does behind each. -/
theorem valued (e : Expr) {next : Option Value → Machine → Ran} (h : ∀ v, Widening n (next v)) :
    Widening n fun m => m.valued e next := by
  intro f g hw
  obtain ⟨result, f', g', hf, hg, hindex, hw'⟩ := hw.evaluate e
  simp only [Machine.valued, hf, hg]
  rw [← hindex]
  cases result with
  | error stop => exact halt stop f' g' hw'
  | ok v => exact h v f' g' hw'

/-- What follows a condition comes to the same if it does in both cases. -/
theorem branch (c : Expr) (hyes : Widening n yes) (hno : Widening n no) :
    Widening n fun m => m.branch c yes no := by
  refine valued c fun v => ?_
  cases hv : Value.truthy v with
  | true => simpa only [if_true] using hyes
  | false => simpa only [Bool.false_eq_true, if_false] using hno

/-- What is carried out in two parts comes to the same if both parts do. -/
theorem andThen (h : Widening n body) (hnext : Widening n next) :
    Widening n fun m => (body m).andThen next := by
  intro f g hw
  obtain ⟨hstop, hprinted, f', g', hf, hg, hindex, hw'⟩ := h f g hw
  simp only [Ran.andThen, hstop]
  cases (body f.machine).stop with
  | some stop => exact ⟨hstop, hprinted, f', g', hf, hg, hindex, hw'⟩
  | none =>
    obtain ⟨hstop', hprinted', hframes⟩ := hnext f' g' hw'
    rw [hf, hg, ← hindex]
    refine ⟨hstop', ?_, hframes⟩
    rw [Effect.printed_append, Effect.printed_append, hprinted, hprinted']

/-- What has a scope of its own comes to the same if it does with the empty frame behind that. -/
theorem inScope (settings : Settings) (h : Widening (n + 1) body) :
    Widening n (Lox.inScope settings body) := by
  intro f g hw
  obtain ⟨hstop, hprinted, f₁, g₁, hf, hg, hindex, hw₁⟩ := h _ _ (.inner [] hw)
  -- The frame of the scope is in front of the empty one on the way out as well.
  cases hw₁ with
  | @inner _ f' g' b hw' =>
    have hindex' : f'.index = f.index := Nat.succ.inj hindex
    have hsame : g'.index = g.index := by
      rw [hw'.index_eq, hw.index_eq, hindex']
    obtain ⟨hstopf, hprintedf, hmachinef⟩ := inScope_frames settings hf hindex'
    obtain ⟨hstopg, hprintedg, hmachineg⟩ := inScope_frames settings hg hsame
    exact ⟨by rw [hstopf, hstopg, hstop], by rw [hprintedf, hprintedg, hprinted], f', g',
      hmachinef, hmachineg, hindex', hw'⟩

/-- A loop comes to the same if its body does. -/
theorem repeatWhile (c : Expr) (h : Widening n body) (rounds : Nat) :
    Widening n (Lox.repeatWhile c body rounds) := by
  induction rounds with
  | zero => exact halt .unfinished
  | succ rounds ih => exact branch c (h.andThen ih) idle

end Widening

/-- The condition that a `for` has if it is left out. -/
def holding : Expr := .literal (some (.bool true))

/-- The rounds of a `for` are those of a loop that has the last clause in its body. -/
theorem forRounds_eq_repeatWhile (condition step : Option Expr) (body : Machine → Ran)
    (rounds : Nat) :
    forRounds condition step body rounds = repeatWhile (condition.getD holding)
      (fun m => (body m).andThen (advance step)) rounds := by
  induction rounds with
  | zero => rfl
  | succ rounds ih =>
    funext m
    simp only [forRounds, ih]
    cases condition with
    | none => rfl
    | some c => rfl

namespace Widening

variable {n : Nat} {body : Machine → Ran} (settings : Settings)

/-- An expression comes to the same. -/
theorem expression (e : Expr) : Widening n ((Stmt.expression e).execute settings) :=
  valued e fun _ => idle

/-- The printing of a value comes to the same. -/
theorem print (k : Token) (e : Expr) : Widening n ((Stmt.print k e).execute settings) := by
  have hprint : (Stmt.print k e).execute settings = fun m => m.valued e fun v m => match v with
      | none => m.halt (.fault .absentValue)
      | some v => ⟨none, m, [.print v.text]⟩ := by
    funext m
    simp only [Stmt.execute, Machine.valued]
    rcases m.evaluate e with ⟨stop | (_ | v), m'⟩ <;> rfl
  rw [hprint]
  refine valued e fun v => ?_
  cases v with
  | none => exact halt (.fault .absentValue)
  | some v => exact fun f g h => ⟨rfl, rfl, f, g, rfl, rfl, rfl, h⟩

/-- The declaration of a variable comes to the same in front of the empty frame. -/
theorem var (name : Token) (e : Expr) : Widening (n + 1) ((Stmt.var name e).execute settings) := by
  cases he : e.isPresent with
  | true =>
    have hvar : (Stmt.var name e).execute settings =
        fun m => m.valued e fun v m => m.define name.lexeme v := by
      funext m
      simp only [Stmt.execute, he, if_true]
      rfl
    rw [hvar]
    exact valued e fun v => define name.lexeme v
  | false =>
    have hvar : (Stmt.var name e).execute settings = Machine.idle := by
      funext m
      simp only [Stmt.execute, he, Bool.false_eq_true, if_false]
    rw [hvar]
    exact idle

/-- The last clause of a `for` comes to the same. -/
theorem advance (step : Option Expr) : Widening n (Surface.advance step) := by
  cases step with
  | none => exact idle
  | some e => exact valued e fun _ => idle

/-- The rounds of a `for` come to the same if its body does. -/
theorem forRounds (condition step : Option Expr) (h : Widening n body) (rounds : Nat) :
    Widening n (Surface.forRounds condition step body rounds) := by
  rw [forRounds_eq_repeatWhile]
  exact (h.andThen (advance step)).repeatWhile _ rounds

/-- A `for` comes to the same if its body does, in the current scope and in that of the loop. -/
theorem executeFor (init : Option Opening) (condition step : Option Expr)
    (h : ∀ n, Widening n body) :
    Widening n (Surface.executeFor settings init condition step body) := by
  cases init with
  | none => exact (h n).forRounds condition step settings.rounds
  | some first =>
    refine inScope settings (andThen ?_ ((h (n + 1)).forRounds condition step settings.rounds))
    cases first with
    | var name e => exact var settings name e
    | expression e => exact expression settings e

end Widening

mutual

/-- A statement comes to the same with an empty frame more, wherever it is put in. -/
theorem Statement.widening (settings : Settings) : (s : Statement) → (n : Nat) →
    Widening n (s.execute settings)
  | .expression e, _ => .expression settings e
  | .print k e, _ => .print settings k e
  | .block body, n => (body.widening settings n).inScope settings
  | .ifThen _ c s, n => (s.widening settings n).branch c .idle
  | .ifElse _ c s t, n => (s.widening settings n).branch c (t.widening settings n)
  | .whileLoop _ c s, n => (s.widening settings n).repeatWhile c settings.rounds
  | .forLoop _ init c step s, _ => .executeFor settings init c step fun n => s.widening settings n

/-- A row comes to the same with an empty frame more behind that in which it declares. -/
theorem Row.widening (settings : Settings) : (row : Row) → (n : Nat) →
    Widening (n + 1) (row.execute settings)
  | .nil, _ => .idle
  | .var name e rest, n => (Widening.var settings name e).andThen (rest.widening settings n)
  | .statement s rest, n => (s.widening settings (n + 1)).andThen (rest.widening settings n)

end

end Lox.Surface
