import Lox.Execute

/-!
# Frames

The scopes of a chain without their indices: bindings inside one another. A name belongs to the
innermost that hold it. The scopes form a chain in the arena, the globals at index zero and each
further frame right after the one around it; on such a chain the operations of the arena are
those of the frames.
-/

namespace Lox

/-- The bindings of a chain of scopes from the innermost outwards; there is at least one. -/
inductive Frames where
  /-- The globals alone. -/
  | globals (bindings : Bindings)
  /-- A frame inside others. -/
  | inner (bindings : Bindings) (outer : Frames)

namespace Frames

/-- What a name is bound to in the first frame that holds it. -/
def lookup (name : Text) : Frames → Option (Option Value)
  | globals b => b.find? name
  | inner b outer =>
    match b.find? name with
    | some value => some value
    | none => outer.lookup name

/-- The frames with a new value for a name in the first frame that holds it. -/
def assign? (name : Text) (value : Option Value) : Frames → Option Frames
  | globals b =>
    match b.find? name with
    | some _ => some (globals (b.insert name value))
    | none => none
  | inner b outer =>
    match b.find? name with
    | some _ => some (inner (b.insert name value) outer)
    | none => (outer.assign? name value).map (inner b)

/-- The frames with a name bound in the first frame. -/
def define (name : Text) (value : Option Value) : Frames → Frames
  | globals b => globals (b.insert name value)
  | inner b outer => inner (b.insert name value) outer

/-- The index of the innermost frame. -/
def index : Frames → Nat
  | globals _ => 0
  | inner _ outer => outer.index + 1

/-- The chain of scopes that the frames make, the globals first. -/
def scopes : Frames → List Scope
  | globals b => [⟨b, Arena.noScope⟩]
  | inner b outer => outer.scopes ++ [⟨b, outer.index⟩]

/-- The arena that holds exactly the chain. -/
def arena (f : Frames) : Arena := ⟨f.scopes⟩

/-- The machine whose arena is the chain and whose scope is the innermost. -/
def machine (f : Frames) : Machine := ⟨f.arena, f.index⟩

/-- The innermost frame has the last index. -/
theorem length_scopes (f : Frames) : f.scopes.length = f.index + 1 := by
  induction f with
  | globals b => rfl
  | inner b outer ih => rw [scopes, List.length_append, ih, index, List.length_singleton]

/-- Binding a name leaves the count of frames. -/
theorem index_define (name : Text) (value : Option Value) (f : Frames) :
    (f.define name value).index = f.index := by
  cases f <;> rfl

/-- What the innermost frame binds. -/
def first : Frames → Bindings
  | globals b => b
  | inner b _ => b

/-- The index of the frame around the innermost. -/
def parent : Frames → Int
  | globals _ => Arena.noScope
  | inner _ outer => outer.index

/-- The scopes around the innermost. -/
def enclosing : Frames → List Scope
  | globals _ => []
  | inner _ outer => outer.scopes

/-- The chain ends in the scope of the innermost frame. -/
theorem scopes_eq (f : Frames) : f.scopes = f.enclosing ++ [⟨f.first, f.parent⟩] := by
  cases f <;> rfl

/-- The scopes around the innermost are as many as its index. -/
theorem length_enclosing (f : Frames) : f.enclosing.length = f.index := by
  cases f with
  | globals b => rfl
  | inner b outer => exact outer.length_scopes

/-- The scope at the innermost index is that of the innermost frame, whatever scopes follow. -/
theorem scope?_index (f : Frames) (more : List Scope) :
    Arena.scope? ⟨f.scopes ++ more⟩ f.index = some ⟨f.first, f.parent⟩ := by
  have hpos : ¬ ((f.index : Int) < 0) := by omega
  rw [Arena.scope?, if_neg hpos, Int.toNat_natCast, scopes_eq, List.append_assoc,
    ← length_enclosing, List.getElem?_append_right (Nat.le_refl _), Nat.sub_self]
  rfl

/-- Binding a name at the innermost index binds it in the first frame. -/
theorem bind_index (name : Text) (value : Option Value) (f : Frames) (more : List Scope) :
    Arena.bind ⟨f.scopes ++ more⟩ f.index name value = ⟨(f.define name value).scopes ++ more⟩ := by
  have hdefine : (f.define name value).scopes =
      f.enclosing ++ [⟨f.first.insert name value, f.parent⟩] := by
    cases f <;> rfl
  rw [Arena.bind, hdefine, scopes_eq, List.append_assoc, List.append_assoc, ← length_enclosing,
    List.modify_eq_take_drop, List.take_left, List.drop_left]
  rfl

/-- Outside the globals no name is found. -/
theorem resolveWithin_noScope (a : Arena) (name : Text) (steps : Nat) :
    a.resolveWithin name steps Arena.noScope = .unbound := by
  cases steps <;> simp only [Arena.resolveWithin, if_true]

/-- A name that the innermost frame binds is found there. -/
theorem resolveWithin_of_some {name : Text} {value : Option Value} {f : Frames}
    (h : f.first.find? name = some value) (more : List Scope) (steps : Nat) :
    Arena.resolveWithin ⟨f.scopes ++ more⟩ name (steps + 1) f.index = .found f.index value := by
  have hscope : (f.index : Int) ≠ Arena.noScope := by simp only [Arena.noScope]; omega
  simp only [Arena.resolveWithin, if_neg hscope, scope?_index, h, Int.toNat_natCast]

/-- Any other name is looked for in the frame around it. -/
theorem resolveWithin_of_none {name : Text} {f : Frames} (h : f.first.find? name = none)
    (more : List Scope) (steps : Nat) :
    Arena.resolveWithin ⟨f.scopes ++ more⟩ name (steps + 1) f.index =
      Arena.resolveWithin ⟨f.scopes ++ more⟩ name steps f.parent := by
  have hscope : (f.index : Int) ≠ Arena.noScope := by simp only [Arena.noScope]; omega
  simp only [Arena.resolveWithin, if_neg hscope, scope?_index, h]

/-- Where the innermost frame binds a name, it is the first that holds it. -/
theorem lookup_of_some {name : Text} {old : Option Value} {f : Frames}
    (h : f.first.find? name = some old) (value : Option Value) :
    f.lookup name = some old ∧ f.assign? name value = some (f.define name value) := by
  cases f with
  | globals b | inner b outer =>
    simp only [first] at h
    refine ⟨?_, ?_⟩
    · rw [lookup, h]
    · rw [assign?, h]
      rfl

/-- Looking a name up along the chain and binding it where it is found agree with the frames. -/
structure Resolves (name : Text) (value : Option Value) (f : Frames) (more : List Scope)
    (steps : Nat) : Prop where
  /-- Either no frame holds the name and it is not found, or it is found where the first frame
  that holds it has its scope. -/
  agrees : (f.lookup name = none ∧ f.assign? name value = none ∧
      Arena.resolveWithin ⟨f.scopes ++ more⟩ name steps f.index = .unbound) ∨
    ∃ i old f', f.lookup name = some old ∧ f.assign? name value = some f' ∧ f'.index = f.index ∧
      Arena.resolveWithin ⟨f.scopes ++ more⟩ name steps f.index = .found i old ∧
      Arena.bind ⟨f.scopes ++ more⟩ i name value = ⟨f'.scopes ++ more⟩

/-- A name that the innermost frame binds is looked up and assigned to there. -/
theorem Resolves.of_some {name : Text} {old : Option Value} {f : Frames}
    (h : f.first.find? name = some old) (value : Option Value) (more : List Scope) (steps : Nat) :
    Resolves name value f more (steps + 1) := by
  obtain ⟨hlookup, hassign⟩ := lookup_of_some h value
  exact ⟨.inr ⟨f.index, old, f.define name value, hlookup, hassign, f.index_define name value,
    resolveWithin_of_some h more steps, bind_index name value f more⟩⟩

/-- Every name is looked up along the chain as in the frames. -/
theorem resolves (name : Text) (value : Option Value) (f : Frames) (more : List Scope)
    {steps : Nat} (h : f.index < steps) : Resolves name value f more steps := by
  induction f generalizing more steps with
  | globals b =>
    obtain ⟨steps, rfl⟩ := Nat.exists_eq_succ_of_ne_zero (Nat.ne_of_gt h)
    cases hfind : b.find? name with
    | some old => exact .of_some hfind value more steps
    | none =>
      have hresolve := resolveWithin_of_none (f := globals b) hfind more steps
      rw [parent, resolveWithin_noScope] at hresolve
      exact ⟨.inl ⟨hfind, by rw [assign?, hfind], hresolve⟩⟩
  | inner b outer ih =>
    obtain ⟨steps, rfl⟩ := Nat.exists_eq_succ_of_ne_zero (Nat.ne_of_gt (Nat.zero_lt_of_lt h))
    cases hfind : b.find? name with
    | some old => exact .of_some hfind value more steps
    | none =>
      have hresolve := resolveWithin_of_none (f := inner b outer) hfind more steps
      have hscopes : (inner b outer).scopes ++ more =
          outer.scopes ++ (⟨b, outer.index⟩ :: more) := by
        rw [scopes, List.append_assoc, List.singleton_append]
      rw [hscopes, parent] at hresolve
      rcases ih (⟨b, outer.index⟩ :: more) (Nat.lt_of_succ_lt_succ h) with
        ⟨⟨hlookup, hassign, hunbound⟩ | ⟨i, old, f', hlookup, hassign, hindex, hfound, hbind⟩⟩
      · refine ⟨.inl ⟨?_, ?_, ?_⟩⟩
        · rw [lookup, hfind, hlookup]
        · rw [assign?, hfind, hassign]
          rfl
        · rw [hscopes, hresolve, hunbound]
      · refine ⟨.inr ⟨i, old, inner b f', ?_, ?_, congrArg (· + 1) hindex, ?_, ?_⟩⟩
        · rw [lookup, hfind, hlookup]
        · rw [assign?, hfind, hassign]
          rfl
        · rw [hscopes, hresolve, hfound]
        · rw [hscopes, hbind, scopes, hindex, List.append_assoc, List.singleton_append]

/-- On a chain a name is looked for and bound as in the frames. -/
theorem resolve_index (name : Text) (value : Option Value) (f : Frames) :
    (f.lookup name = none ∧ f.assign? name value = none ∧
      f.arena.resolve f.index name = .unbound) ∨
    ∃ i old f', f.lookup name = some old ∧ f.assign? name value = some f' ∧ f'.index = f.index ∧
      f.arena.resolve f.index name = .found i old ∧ f.arena.bind i name value = f'.arena := by
  have hsteps : f.index < f.arena.depth + 1 := by
    rw [arena, Arena.depth, length_scopes]
    omega
  obtain ⟨h⟩ := resolves name value f [] hsteps
  simp only [List.append_nil] at h
  exact h

/-- On a chain a name has the value that the frames give it. -/
theorem get_index (f : Frames) (n : Token) :
    f.arena.get f.index n =
      match f.lookup n.lexeme with
      | some value => .ok value
      | none => .error (.error (RuntimeCause.at (.undefinedVariable n.lexeme) n)) := by
  rcases resolve_index n.lexeme none f with
    ⟨hlookup, -, hresolve⟩ | ⟨i, old, f', hlookup, -, -, hresolve, -⟩
  · rw [Arena.get, hresolve, hlookup]
  · rw [Arena.get, hresolve, hlookup]

/-- On a chain a name is assigned to in the frames. -/
theorem assign_index (f : Frames) (n : Token) (value : Option Value) :
    f.arena.assign f.index n value =
      match f.assign? n.lexeme value with
      | some assigned => .ok assigned.arena
      | none => .error (.error (RuntimeCause.at (.undefinedVariable n.lexeme) n)) := by
  rcases resolve_index n.lexeme value f with
    ⟨-, hassign, hresolve⟩ | ⟨i, old, f', -, hassign, -, hresolve, hbind⟩
  · rw [Arena.assign, hresolve, hassign]
  · rw [Arena.assign, hresolve, hassign]
    dsimp only
    rw [hbind]

/-- Assigning leaves the count of frames. -/
theorem index_assign? {name : Text} {value : Option Value} {f f' : Frames}
    (h : f.assign? name value = some f') : f'.index = f.index := by
  rcases resolve_index name value f with
    ⟨-, hassign, -⟩ | ⟨i, old, f'', -, hassign, hindex, -⟩
  · rw [hassign] at h
    cases h
  · rw [hassign] at h
    cases h
    exact hindex

/-- On a chain a name is bound in the first frame. -/
theorem define_index (f : Frames) (name : Text) (value : Option Value) :
    f.arena.define f.index name value = .ok (f.define name value).arena := by
  have hscope := f.scope?_index []
  have hbind := f.bind_index name value []
  rw [List.append_nil] at hscope hbind
  rw [List.append_nil] at hbind
  rw [Arena.define, arena, hscope]
  dsimp only
  rw [Int.toNat_natCast, hbind]
  rfl

/-- A scope pushed on a chain is one more frame. -/
theorem push_index (f : Frames) : f.arena.push f.index = (inner [] f).arena := rfl

/-- The next scope of a chain gets the index after the innermost. -/
theorem depth_arena (f : Frames) : f.arena.depth = f.index + 1 := f.length_scopes

/-- Releasing the innermost scope drops its frame. -/
theorem pop_inner (b : Bindings) (f : Frames) :
    (inner b f).arena.pop (f.index + 1) = f.arena := by
  rw [Arena.pop, arena, scopes, ← length_scopes, List.take_left]
  rfl

end Frames

end Lox
