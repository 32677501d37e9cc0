import Lox.Proofs.Execution
import Lox.Proofs.Semantics.BigStep

/-!
# Evaluation in the arena

Operators, messages and expressions come to what the rules say. Every expression comes to
something, and the rules leave nothing open: what they derive in some frames is what evaluation
gives in a chain that holds them.
-/

namespace Lox

namespace Semantics

/-- Printing a value shows its text. -/
theorem shows_iff (v : Value) (t : Text) : Shows v t ↔ v.text = t := by
  constructor
  · intro h
    cases h <;> rfl
  · rintro rfl
    cases v with
    | nil => exact .nil
    | bool b =>
      cases b with
      | true => exact .yes
      | false => exact .no
    | number x => exact .number x
    | string s => exact .string s

/-- A message shows an operand by its text. -/
theorem names_iff (v : Option Value) (t : Text) : Names v t ↔ Value.shown v = t := by
  constructor
  · intro h
    cases h with
    | value h => exact (shows_iff _ _).mp h
    | absent => rfl
  · rintro rfl
    cases v with
    | none => exact .absent
    | some v => exact .value ((shows_iff _ _).mpr rfl)

/-- What is not supported is called by its name. -/
theorem calls_iff (feature : Feature) (t : Text) : Calls feature t ↔ feature.text = t := by
  constructor
  · intro h
    cases h <;> rfl
  · rintro rfl
    cases feature <;> constructor

/-- An error says its message. -/
theorem says_iff (c : RuntimeCause) (t : Text) : Says c t ↔ c.message = t := by
  constructor
  · intro h
    cases h with
    | undefinedVariable | unknownUnary | unknownBinary => rfl
    | notNumber h => rw [RuntimeCause.message, (names_iff _ _).mp h]
    | notNumbers h h' | notAddable h h' =>
      rw [RuntimeCause.message, (names_iff _ _).mp h, (names_iff _ _).mp h']
    | unsupported h => rw [RuntimeCause.message, (calls_iff _ _).mp h]
  · rintro rfl
    cases c with
    | undefinedVariable name => exact .undefinedVariable name
    | notNumber v => exact .notNumber ((names_iff v _).mpr rfl)
    | notNumbers v w => exact .notNumbers ((names_iff v _).mpr rfl) ((names_iff w _).mpr rfl)
    | notAddable v w => exact .notAddable ((names_iff v _).mpr rfl) ((names_iff w _).mpr rfl)
    | unknownUnary lexeme => exact .unknownUnary lexeme
    | unknownBinary lexeme => exact .unknownBinary lexeme
    | unsupported feature => exact .unsupported ((calls_iff feature _).mpr rfl)

/-- A value is counted as false exactly if it is falsy. -/
theorem truthy_eq_false_iff (v : Option Value) : Value.truthy v = false ↔ Falsy v := by
  constructor
  · intro h
    unfold Value.truthy at h
    split at h
    · exact .inl rfl
    · exact .inr (h ▸ rfl)
    · cases h
  · rintro (rfl | rfl) <;> rfl

/-- A value is counted as true exactly if it is not falsy. -/
theorem truthy_eq_true_iff (v : Option Value) : Value.truthy v = true ↔ ¬ Falsy v := by
  rw [← truthy_eq_false_iff, Bool.not_eq_false]

/-- Values are counted as equal exactly if they have the same content. -/
theorem equal_eq_true_iff (v w : Option Value) : Value.equal v w = true ↔ Same v w := by
  constructor
  · intro h
    unfold Value.equal at h
    split at h
    · exact .nil
    · exact eq_of_beq h ▸ .bool _
    · exact .number h
    · exact eq_of_beq h ▸ .string _
    · cases h
  · intro h
    cases h with
    | nil => rfl
    | bool b => exact beq_self_eq_true b
    | number h => exact h
    | string s => exact beq_self_eq_true s

/-- A left operand decides exactly if the right one is not evaluated. -/
theorem decides_eq_true_iff (op : Token) (v : Option Value) :
    decides op v = true ↔ Decides op v := by
  by_cases hop : op.kind = .word .or
  · simp only [decides, Decides, hop, if_true, truthy_eq_true_iff, true_and, ne_eq, not_true,
      false_and, or_false]
  · simp only [decides, Decides, hop, if_false, Bool.not_eq_true', truthy_eq_false_iff, false_and,
      ne_eq, not_false_eq_true, true_and, false_or]

/-- The rules for an operator in front of its operand derive what it gives. -/
theorem prefixed_iff (op : Token) (v : Option Value) (r : Except RuntimeError Value) :
    Prefixed op v r ↔ applyUnary op v = r := by
  constructor
  · intro h
    cases h with
    | @not b hop hb =>
      rw [← truthy_eq_false_iff, ← Bool.not_eq_true', ← Bool.eq_iff_iff] at hb
      simp only [applyUnary, hop, hb]
    | negative hop h => simp only [applyUnary, hop, h]
    | notNumber hop h =>
      simp only [applyUnary, hop]
      rfl
    | unknown hbang hminus =>
      unfold applyUnary
      split
      · next hop => exact absurd hop hbang
      · next hop => exact absurd hop hminus
      · rfl
  · rintro rfl
    unfold applyUnary
    split
    · next hop => exact .not hop (by rw [Bool.not_eq_true', truthy_eq_false_iff])
    · next hop =>
      split
      · exact .negative hop rfl
      · next h => exact .notNumber hop fun x hx => h x hx
    · next hbang hminus => exact .unknown hbang hminus

/-- A kind has an operator on numbers exactly if it is one of those that need them. -/
theorem numeric_iff (k : Kind) (x y : Float) (v : Value) :
    Numeric x y k v ↔ ∃ apply, numberOperator? k = some apply ∧ v = apply x y := by
  constructor
  · intro h
    cases h <;> exact ⟨_, rfl, rfl⟩
  · rintro ⟨apply, hk, rfl⟩
    unfold numberOperator? at hk
    split at hk
    · cases hk; exact .difference
    · cases hk; exact .product
    · cases hk; exact .quotient
    · cases hk; exact .greater
    · cases hk; exact .greaterEqual
    · cases hk; exact .less
    · cases hk; exact .lessEqual
    · cases hk

/-- Those kinds are listed. -/
theorem mem_numericKinds_iff (k : Kind) :
    k ∈ numericKinds ↔ ∃ apply, numberOperator? k = some apply := by
  constructor
  · intro h
    simp only [numericKinds, List.mem_cons, List.not_mem_nil, or_false] at h
    rcases h with rfl | rfl | rfl | rfl | rfl | rfl | rfl <;> exact ⟨_, rfl⟩
  · rintro ⟨apply, hk⟩
    unfold numberOperator? at hk
    split at hk
    case h_8 => cases hk
    all_goals decide

/-- A sum of two numbers or two strings, and the error of any other. -/
theorem add_eq (op : Token) (v w : Option Value) :
    (∃ x y, v = some (.number x) ∧ w = some (.number y) ∧ add op v w = .ok (.number (x + y))) ∨
    (∃ s t, v = some (.string s) ∧ w = some (.string t) ∧ add op v w = .ok (.string (s ++ t))) ∨
    (¬ BothNumbers v w ∧ ¬ BothStrings v w ∧ add op v w = .error ⟨.notAddable v w, op.line⟩) := by
  unfold add
  split
  · exact .inl ⟨_, _, rfl, rfl, rfl⟩
  · exact .inr (.inl ⟨_, _, rfl, rfl, rfl⟩)
  · next hn hs =>
    refine .inr (.inr ⟨?_, ?_, rfl⟩)
    · rintro ⟨x, y, rfl, rfl⟩
      exact hn x y rfl rfl
    · rintro ⟨s, t, rfl, rfl⟩
      exact hs s t rfl rfl

/-- An operator on two numbers, and the error of any other operands. -/
theorem applyNumbers_eq (apply : Float → Float → Value) (op : Token) (v w : Option Value) :
    (∃ x y, v = some (.number x) ∧ w = some (.number y) ∧
      applyNumbers apply op v w = .ok (apply x y)) ∨
    (¬ BothNumbers v w ∧ applyNumbers apply op v w = .error ⟨.notNumbers v w, op.line⟩) := by
  unfold applyNumbers
  split
  · exact .inl ⟨_, _, rfl, rfl, rfl⟩
  · next hn =>
    refine .inr ⟨?_, rfl⟩
    rintro ⟨x, y, rfl, rfl⟩
    exact hn x y rfl rfl

/-- An operator of a kind that needs two numbers is applied to them. -/
theorem applyBinary_of_some {op : Token} {apply : Float → Float → Value}
    (h : numberOperator? op.kind = some apply) (v w : Option Value) :
    applyBinary op v w = applyNumbers apply op v w := by
  unfold applyBinary
  split
  case h_4 => rw [h]
  all_goals
    next hop =>
      rw [hop] at h
      cases h

/-- A kind that is no operator has an error. -/
theorem applyBinary_of_none {op : Token} (hop : op.kind ∉ generalKinds)
    (h : numberOperator? op.kind = none) (v w : Option Value) :
    applyBinary op v w = .error ⟨.unknownBinary op.lexeme, op.line⟩ := by
  unfold applyBinary
  split
  case h_4 =>
    rw [h]
    rfl
  all_goals
    next hkind =>
      rw [hkind] at hop
      exact absurd (by decide) hop

/-- What the rules derive for an operator between two operands is what it gives. -/
theorem Combined.applyBinary_eq {op : Token} {v w : Option Value} {r : Except RuntimeError Value}
    (h : Combined op v w r) : applyBinary op v w = r := by
  cases h with
  | equal hop hb =>
    rw [← equal_eq_true_iff, ← Bool.eq_iff_iff] at hb
    simp only [applyBinary, hop, hb]
  | unequal hop hb =>
    rw [← equal_eq_true_iff, Bool.not_eq_true, ← Bool.not_eq_true', ← Bool.eq_iff_iff] at hb
    simp only [applyBinary, hop, hb]
  | sum hop hl hr => simp only [applyBinary, hop, hl, hr, add]
  | joined hop hl hr => simp only [applyBinary, hop, hl, hr, add]
  | notAddable hop hn hs =>
    simp only [applyBinary, hop]
    rcases add_eq op v w with ⟨x, y, hl, hr, -⟩ | ⟨s, t, hl, hr, -⟩ | ⟨-, -, h⟩
    · exact absurd ⟨x, y, hl, hr⟩ hn
    · exact absurd ⟨s, t, hl, hr⟩ hs
    · exact h
  | numeric hop hl hr =>
    obtain ⟨apply, hk, rfl⟩ := (numeric_iff _ _ _ _).mp hop
    rw [applyBinary_of_some hk, hl, hr, applyNumbers]
  | notNumbers hop hn =>
    obtain ⟨apply, hk⟩ := (mem_numericKinds_iff _).mp hop
    rw [applyBinary_of_some hk]
    rcases applyNumbers_eq apply op v w with ⟨x, y, hl, hr, -⟩ | ⟨-, h⟩
    · exact absurd ⟨x, y, hl, hr⟩ hn
    · exact h
  | unknown hgeneral hnumeric =>
    refine applyBinary_of_none hgeneral ?_ v w
    cases hk : numberOperator? op.kind with
    | none => rfl
    | some apply => exact absurd ((mem_numericKinds_iff _).mpr ⟨apply, hk⟩) hnumeric

/-- What an operator between two operands gives is derived by the rules. -/
theorem combined_applyBinary (op : Token) (v w : Option Value) :
    Combined op v w (applyBinary op v w) := by
  unfold applyBinary
  split
  · next hop => exact .equal hop (equal_eq_true_iff v w)
  · next hop =>
    refine .unequal hop ?_
    rw [← equal_eq_true_iff, Bool.not_eq_true, Bool.not_eq_true']
  · next hop =>
    rcases add_eq op v w with ⟨x, y, hl, hr, h⟩ | ⟨s, t, hl, hr, h⟩ | ⟨hn, hs, h⟩
    · exact h ▸ .sum hop hl hr
    · exact h ▸ .joined hop hl hr
    · exact h ▸ .notAddable hop hn hs
  · next hequal hunequal hplus =>
    split
    · next apply hk =>
      rcases applyNumbers_eq apply op v w with ⟨x, y, hl, hr, h⟩ | ⟨hn, h⟩
      · exact h ▸ .numeric ((numeric_iff _ _ _ _).mpr ⟨apply, hk, rfl⟩) hl hr
      · exact h ▸ .notNumbers ((mem_numericKinds_iff _).mpr ⟨apply, hk⟩) hn
    · next hk =>
      refine .unknown ?_ fun hnumeric => ?_
      · simp only [generalKinds, List.mem_cons, List.not_mem_nil, or_false, not_or]
        exact ⟨hequal, hunequal, hplus⟩
      · obtain ⟨apply, happly⟩ := (mem_numericKinds_iff _).mp hnumeric
        rw [hk] at happly
        cases happly

/-- The reason to stop that a halt is. -/
def Halt.stop : Halt → Stop
  | error e => .error e
  | fault f => .fault f

/-- No halt is that of a loop cut off. -/
theorem Halt.stop_ne_unfinished (h : Halt) : h.stop ≠ .unfinished := by
  cases h <;> exact nofun

/-- Different halts are different reasons to stop. -/
theorem Halt.stop_inj {h h' : Halt} (heq : h.stop = h'.stop) : h = h' := by
  cases h <;> cases h' <;> cases heq <;> rfl

/-- What an operator gives is what the expression around it comes to. -/
theorem ofApplied_eq (arena : Arena) (r : Except RuntimeError Value) :
    Evaluated.ofApplied arena r = ((applied r).mapError Halt.stop, arena) := by
  cases r <;> rfl

/-- Evaluating an expression leaves the count of frames. -/
theorem Evaluates.index_eq {e : Expr} {g g' : Environment} {r : Except Halt (Option Value)}
    (h : Evaluates e g r g') : g'.index = g.index := by
  induction h with
  | absent | literal | name | unbound | unsupported => rfl
  | grouping _ ih | assignUnbound _ _ ih | assignHalt _ ih | logicalLeft _ _ ih
  | logicalHalt _ ih | unary _ _ ih | unaryHalt _ ih | binaryLeftHalt _ ih => exact ih
  | assign _ ha ih => exact (Environment.index_assign? ha).trans ih
  | logicalRight _ _ _ ih ihr | binary _ _ _ ih ihr | binaryRightHalt _ _ ih ihr =>
    exact ihr.trans ih

/-- What is derived for an expression is what evaluating it gives in a chain that holds the
frames. -/
theorem Evaluates.exists_evaluate {e : Expr} {g g' : Environment}
    {r : Except Halt (Option Value)} (h : Evaluates e g r g') (f : Frames)
    (hf : f.environment = g) :
    ∃ f' : Frames, f'.environment = g' ∧ f'.index = f.index ∧
      e.evaluate f.index f.arena = (r.mapError Halt.stop, f'.arena) := by
  induction h generalizing f with
  | absent | literal => exact ⟨f, hf, rfl, rfl⟩
  | grouping _ ih => exact ih f hf
  | name h | unbound h =>
    rw [← hf, Frames.lookup_environment] at h
    exact ⟨f, hf, rfl, by rw [Expr.evaluate, Frames.get_index, h]; rfl⟩
  | assign _ ha ih =>
    obtain ⟨f', hf', hindex, heval⟩ := ih f hf
    rw [← hf', Frames.assign?_environment] at ha
    obtain ⟨f'', hassign, hf''⟩ := Option.map_eq_some_iff.mp ha
    refine ⟨f'', hf'', (Frames.index_assign? hassign).trans hindex, ?_⟩
    simp only [Expr.evaluate, heval, mapError_ok]
    rw [← hindex, Frames.assign_index, hassign]
  | assignUnbound _ ha ih =>
    obtain ⟨f', hf', hindex, heval⟩ := ih f hf
    rw [← hf', Frames.assign?_environment] at ha
    have hassign := Option.map_eq_none_iff.mp ha
    refine ⟨f', hf', hindex, ?_⟩
    simp only [Expr.evaluate, heval, mapError_ok, mapError_error]
    rw [← hindex, Frames.assign_index, hassign]
    rfl
  | assignHalt _ ih | logicalHalt _ ih | unaryHalt _ ih | binaryLeftHalt _ ih =>
    obtain ⟨f', hf', hindex, heval⟩ := ih f hf
    refine ⟨f', hf', hindex, ?_⟩
    simp only [Expr.evaluate, heval, mapError_error]
  | logicalLeft _ hd ih =>
    obtain ⟨f', hf', hindex, heval⟩ := ih f hf
    refine ⟨f', hf', hindex, ?_⟩
    rw [← decides_eq_true_iff] at hd
    simp only [Expr.evaluate, heval, mapError_ok, hd, if_true]
  | logicalRight _ hd _ ih ihr =>
    obtain ⟨f', hf', hindex, heval⟩ := ih f hf
    obtain ⟨f'', hf'', hindex', hright⟩ := ihr f' hf'
    refine ⟨f'', hf'', hindex'.trans hindex, ?_⟩
    rw [← decides_eq_true_iff] at hd
    rw [hindex] at hright
    simp only [Expr.evaluate, heval, mapError_ok]
    rw [if_neg hd, hright]
  | unary _ ho ih =>
    obtain ⟨f', hf', hindex, heval⟩ := ih f hf
    refine ⟨f', hf', hindex, ?_⟩
    simp only [Expr.evaluate, heval, mapError_ok, (prefixed_iff _ _ _).mp ho, ofApplied_eq]
  | binary _ _ ho ih ihr =>
    obtain ⟨f', hf', hindex, heval⟩ := ih f hf
    obtain ⟨f'', hf'', hindex', hright⟩ := ihr f' hf'
    refine ⟨f'', hf'', hindex'.trans hindex, ?_⟩
    rw [hindex] at hright
    simp only [Expr.evaluate, heval, mapError_ok, hright, ho.applyBinary_eq, ofApplied_eq]
  | binaryRightHalt _ _ ih ihr =>
    obtain ⟨f', hf', hindex, heval⟩ := ih f hf
    obtain ⟨f'', hf'', hindex', hright⟩ := ihr f' hf'
    refine ⟨f'', hf'', hindex'.trans hindex, ?_⟩
    rw [hindex] at hright
    simp only [Expr.evaluate, heval, mapError_ok, mapError_error, hright]
  | unsupported h => cases h <;> exact ⟨f, hf, rfl, rfl⟩

/-- Every expression comes to something. -/
theorem exists_evaluates (e : Expr) (g : Environment) : ∃ r g', Evaluates e g r g' := by
  induction e generalizing g with
  | absent => exact ⟨_, g, .absent⟩
  | literal v => exact ⟨_, g, .literal⟩
  | grouping e ih =>
    obtain ⟨r, g', h⟩ := ih g
    exact ⟨r, g', .grouping h⟩
  | name n =>
    cases h : g.lookup n.lexeme with
    | some v => exact ⟨_, g, .name h⟩
    | none => exact ⟨_, g, .unbound h⟩
  | assign n e ih =>
    obtain ⟨r | v, g', h⟩ := ih g
    · exact ⟨_, g', .assignHalt h⟩
    · cases ha : g'.assign? n.lexeme v with
      | some g'' => exact ⟨_, g'', .assign h ha⟩
      | none => exact ⟨_, g', .assignUnbound h ha⟩
  | logical left op right ihl ihr =>
    obtain ⟨r | v, g', h⟩ := ihl g
    · exact ⟨_, g', .logicalHalt h⟩
    · by_cases hd : Decides op v
      · exact ⟨_, g', .logicalLeft h hd⟩
      · obtain ⟨r, g'', hr⟩ := ihr g'
        exact ⟨r, g'', .logicalRight h hd hr⟩
  | unary op e ih =>
    obtain ⟨r | v, g', h⟩ := ih g
    · exact ⟨_, g', .unaryHalt h⟩
    · exact ⟨_, g', .unary h ((prefixed_iff op v _).mpr rfl)⟩
  | binary left op right ihl ihr =>
    obtain ⟨r | v, g', h⟩ := ihl g
    · exact ⟨_, g', .binaryLeftHalt h⟩
    · obtain ⟨r | w, g'', hr⟩ := ihr g'
      · exact ⟨_, g'', .binaryRightHalt h hr⟩
      · exact ⟨_, g'', .binary h hr (combined_applyBinary op v w)⟩
  | call callee paren arguments => exact ⟨_, g, .unsupported (.call callee paren arguments)⟩
  | get object n => exact ⟨_, g, .unsupported (.get object n)⟩
  | set object n value => exact ⟨_, g, .unsupported (.set object n value)⟩
  | super keyword method => exact ⟨_, g, .unsupported (.super keyword method)⟩
  | receiver keyword => exact ⟨_, g, .unsupported (.receiver keyword)⟩

end Semantics

/-- What is derived for an expression is what evaluating it gives on a machine that holds the
frames. -/
theorem Machine.Holds.evaluate {m : Machine} {g : Environment} (hm : m.Holds g) {e : Expr}
    {g' : Environment} {r : Except Semantics.Halt (Option Value)}
    (h : Semantics.Evaluates e g r g') :
    ∃ m', m.evaluate e = (r.mapError Semantics.Halt.stop, m') ∧ m'.Holds g' := by
  obtain ⟨f, rfl, hf⟩ := hm
  obtain ⟨f', hf', hindex, heval⟩ := h.exists_evaluate f hf
  refine ⟨f'.machine, ?_, f', rfl, hf'⟩
  simp only [Machine.evaluate, Frames.machine, heval, hindex]

end Lox
