import Lox.Arena.Operation
import Lox.Proofs.Scopes

/-!
# Walks along the parents

A lookup walks from a scope to its parent, from there to the parent of that, and so on. Nothing in
a walk by itself keeps it from going round for ever or out of the arena. What does is the order of
the arena: a scope comes after its parent.

The order is kept by every operation that addresses scopes which are there. Released indices are
given out again, but a scope takes with it all that were added after it, so that a parent is never
released before its scope. So in every arena that operations lead to, a walk visits smaller and
smaller indices until the name is found or there is no parent.
-/

namespace Lox

namespace Arena

/-- Every parent is before its scope, where there is one. -/
def Ordered (a : Arena) : Prop :=
  ∀ (i : Nat) (h : i < a.parents.length),
    a.parents[i] = noScope ∨ 0 ≤ a.parents[i] ∧ a.parents[i] < i

instance (a : Arena) : Decidable a.Ordered :=
  inferInstanceAs (Decidable (∀ (i : Nat) (h : i < a.parents.length),
    a.parents[i] = noScope ∨ 0 ≤ a.parents[i] ∧ a.parents[i] < i))

/-- An operation that addresses scopes which are there, in an arena of a given depth. A scope may
be added without a parent, and the index of a release may be the next to be given out. -/
def Operation.Fits (depth : Nat) : Operation → Prop
  | .push parent => parent = noScope ∨ 0 ≤ parent ∧ parent < depth
  | .pop index => 0 ≤ index ∧ index ≤ depth
  | .define index _ _ | .get index _ | .assign index _ _ => 0 ≤ index ∧ index < depth

instance (depth : Nat) : DecidablePred (Operation.Fits depth)
  | .push parent => inferInstanceAs (Decidable (parent = noScope ∨ 0 ≤ parent ∧ parent < depth))
  | .pop index => inferInstanceAs (Decidable (0 ≤ index ∧ index ≤ depth))
  | .define index _ _ | .get index _ | .assign index _ _ =>
    inferInstanceAs (Decidable (0 ≤ index ∧ index < depth))

/-- The arenas to which such operations lead, from the one with the global scope only. -/
inductive Reached : Arena → Prop
  | new : Reached .new
  | perform {a : Arena} (h : Reached a) (operation : Operation) (hfits : operation.Fits a.depth) :
      Reached (a.perform operation).2

/-- A walk from an index in search of a name: the scopes that are visited, each of which is there,
and what the walk comes to. It ends where there is no parent or a scope binds the name. -/
inductive Walk (a : Arena) (name : Text) : Int → List Nat → Resolution → Prop
  | unbound : Walk a name noScope [] .unbound
  | found {i : Nat} {s : Scope} {value : Option Value} (hs : a.scopes[i]? = some s)
      (hname : s.bindings.find? name = some value) : Walk a name i [i] (.found i value)
  | outward {i : Nat} {s : Scope} {visited : List Nat} {r : Resolution}
      (hs : a.scopes[i]? = some s) (hname : s.bindings.find? name = none)
      (h : Walk a name s.parent visited r) : Walk a name i (i :: visited) r

/-- A lookup and an assignment from an index do what a walk comes to: they find the value and
replace it, or they both say that the name is undefined and leave the arena. -/
def ActsOn (a : Arena) (index : Int) (n : Token) : Resolution → Prop
  | .found i value => a.get index n = .ok value ∧
      ∀ v, a.perform (.assign index n v) = (.ok (.value v), a.bind i n.lexeme v)
  | .unbound =>
    let stop := Stop.error ⟨.undefinedVariable n.lexeme, n.line⟩
    a.get index n = .error stop ∧ ∀ v, a.perform (.assign index n v) = (.error stop, a)
  | .outside | .endless => False

/-- What an operation may do to an arena. -/
inductive Change (a : Arena) : Operation → Arena → Prop
  | keep (operation : Operation) : Change a operation a
  | push (parent : Int) : Change a (.push parent) (a.push parent)
  | pop {index : Nat} (h : index ≤ a.depth) : Change a (.pop index) (a.pop index)
  | define {index : Nat} (h : index < a.depth) (name : Text) (value : Option Value) :
      Change a (.define index name value) (a.bind index name value)
  | assign (index : Int) (name : Token) (value : Option Value) (i : Nat) :
      Change a (.assign index name value) (a.bind i name.lexeme value)

section Scopes

variable {a : Arena} {index : Int} {i : Nat} {s : Scope}

/-- An index in range leads to its scope. -/
theorem scope?_of_getElem? (h : a.scopes[i]? = some s) : a.scope? i = some s := by
  have hpos : ¬ ((i : Int) < 0) := by omega
  rw [scope?, if_neg hpos, Int.toNat_natCast, h]

/-- An index with a scope is in range. -/
theorem exists_index_of_scope? (h : a.scope? index = some s) :
    ∃ i : Nat, index = i ∧ i < a.depth := by
  unfold scope? at h
  split at h
  · cases h
  · next hpos =>
    have hlt := (List.getElem?_eq_some_iff.mp h).1
    exact ⟨index.toNat, by omega, hlt⟩

/-- A release at an index up to the depth succeeds. -/
theorem release_of_le {index : Nat} (h : index ≤ a.depth) :
    a.release index = .ok (a.pop index) := by
  have hrange : (0 ≤ (index : Int) && (index : Int) ≤ a.depth) = true := by
    rw [Bool.and_eq_true, decide_eq_true_eq, decide_eq_true_eq]
    omega
  rw [release, if_pos hrange, Int.toNat_natCast]

end Scopes

/-- Every operation does one of these things. -/
theorem change_perform (a : Arena) (operation : Operation) :
    Change a operation (a.perform operation).2 := by
  cases operation with
  | push parent => exact .push parent
  | get index name => exact .keep _
  | pop index =>
    by_cases hrange : 0 ≤ index ∧ index ≤ a.depth
    · obtain ⟨i, rfl⟩ := Int.eq_ofNat_of_zero_le hrange.1
      have hi : i ≤ a.depth := by omega
      rw [perform, release_of_le hi]
      exact .pop hi
    · have hfails : ¬ ((0 ≤ index && index ≤ a.depth) = true) := by
        rwa [Bool.and_eq_true, decide_eq_true_eq, decide_eq_true_eq]
      rw [perform, release, if_neg hfails]
      exact .keep _
  | define index name value =>
    cases hscope : a.scope? index with
    | none =>
      rw [perform, Arena.define, hscope]
      exact .keep _
    | some s =>
      obtain ⟨i, rfl, hi⟩ := exists_index_of_scope? hscope
      rw [perform, Arena.define, hscope]
      exact .define hi name value
  | assign index name value =>
    rw [perform, Arena.assign]
    cases a.resolve index name.lexeme with
    | found i old => exact .assign index name value i
    | unbound | outside | endless => exact .keep _

namespace Ordered

variable {a : Arena}

/-- A scope has no parent or one with a smaller index. -/
theorem parent_cases (ha : a.Ordered) {i : Nat} {s : Scope} (hs : a.scopes[i]? = some s) :
    s.parent = noScope ∨ ∃ p : Nat, s.parent = p ∧ p < i := by
  obtain ⟨hi, rfl⟩ := List.getElem?_eq_some_iff.mp hs
  have hlength : i < a.parents.length := by
    rw [a.length_parents]
    exact hi
  have hparent : a.parents[i] = a.scopes[i].parent := List.getElem_map _
  have horder := ha i hlength
  rw [hparent] at horder
  rcases horder with hnone | ⟨hpos, hlt⟩
  · exact .inl hnone
  · exact .inr ⟨a.scopes[i].parent.toNat, by omega, by omega⟩

/-- The order is one of the parents, which a binding leaves. -/
theorem bind (ha : a.Ordered) (index : Nat) (name : Text) (value : Option Value) :
    (a.bind index name value).Ordered := by
  unfold Ordered
  rw [parents_bind]
  exact ha

/-- A scope that is added comes after its parent. -/
theorem push (ha : a.Ordered) {parent : Int}
    (h : parent = noScope ∨ 0 ≤ parent ∧ parent < a.depth) : (a.push parent).Ordered := by
  have hlength := a.length_parents
  unfold Ordered
  rw [parents_push]
  intro i hi
  rw [List.length_append, List.length_singleton] at hi
  rcases Nat.lt_or_ge i a.parents.length with hlt | hge
  · rw [List.getElem_append_left hlt]
    exact ha i hlt
  · have hi' : i = a.depth := by omega
    rw [List.getElem_append_right hge, List.getElem_singleton, hi']
    exact h

/-- What is left after a release was in order before. -/
theorem pop (ha : a.Ordered) (index : Nat) : (a.pop index).Ordered := by
  unfold Ordered
  rw [parents_pop]
  intro i hi
  rw [List.length_take] at hi
  have hlt : i < a.parents.length := by omega
  rw [List.getElem_take]
  exact ha i hlt

/-- Operations that address scopes which are there keep the order. -/
theorem perform (ha : a.Ordered) {operation : Operation} (hfits : operation.Fits a.depth) :
    (a.perform operation).2.Ordered := by
  have hchange := a.change_perform operation
  generalize (a.perform operation).2 = changed at hchange
  cases hchange with
  | keep => exact ha
  | push parent => exact ha.push hfits
  | pop => exact ha.pop _
  | define | assign => exact ha.bind _ _ _

end Ordered

/-- Every arena that operations lead to is in order. -/
theorem Reached.ordered {a : Arena} (h : a.Reached) : a.Ordered := by
  induction h with
  | new => decide
  | perform _ _ hfits ih => exact ih.perform hfits

section Walks

variable {a : Arena} {name : Text} {index : Int} {visited : List Nat} {r : Resolution}

/-- In an arena in order a walk visits smaller and smaller indices, beginning with the one where it
starts, and so at most as many as there are up to it. -/
theorem Walk.descends (ha : a.Ordered) (h : a.Walk name index visited r) :
    visited.Pairwise (· > ·) ∧ (∀ k ∈ visited, (k : Int) ≤ index) ∧
      (visited.length : Int) ≤ index + 1 := by
  induction h with
  | unbound => exact ⟨.nil, nofun, Int.le_refl 0⟩
  | @found i =>
    refine ⟨List.pairwise_singleton _ _, fun k hk => ?_, ?_⟩
    · have hk' := List.mem_singleton.mp hk
      omega
    · rw [List.length_singleton]
      omega
  | @outward i s visited r hs _ _ ih =>
    obtain ⟨hpairwise, hle, hlength⟩ := ih
    have hparent : s.parent < i := by
      have hcases := ha.parent_cases hs
      rw [noScope] at hcases
      omega
    have hbelow (k : Nat) (hk : k ∈ visited) : i > k := by
      have hk' := hle k hk
      omega
    refine ⟨hpairwise.cons hbelow, fun k hk => ?_, ?_⟩
    · rcases List.mem_cons.mp hk with rfl | hk
      · exact Int.le_refl k
      · exact Int.le_of_lt (Int.ofNat_lt.mpr (hbelow k hk))
    · rw [List.length_cons]
      omega

/-- In an arena in order there is a walk from every scope. -/
theorem Ordered.exists_walk (ha : a.Ordered) {i : Nat} (hi : i < a.depth) (name : Text) :
    ∃ visited r, a.Walk name i visited r := by
  -- The parent has a smaller index, so that the induction is on the index where the walk starts.
  induction i using Nat.strongRecOn with
  | _ i ih =>
    obtain ⟨s, hs⟩ : ∃ s, a.scopes[i]? = some s := ⟨_, List.getElem?_eq_getElem hi⟩
    cases hname : s.bindings.find? name with
    | some value => exact ⟨[i], _, .found hs hname⟩
    | none =>
      have hrest : ∃ visited r, a.Walk name s.parent visited r := by
        rcases ha.parent_cases hs with hparent | ⟨p, hparent, hp⟩
        · rw [hparent]
          exact ⟨[], _, .unbound⟩
        · rw [hparent]
          exact ih p hp (by omega)
      obtain ⟨visited, r, hwalk⟩ := hrest
      exact ⟨i :: visited, r, .outward hs hname hwalk⟩

/-- A walk finds the name or comes to where there is no parent. -/
theorem Walk.found_or_unbound (h : a.Walk name index visited r) :
    (∃ i value, r = .found i value) ∨ r = .unbound := by
  induction h with
  | unbound => exact .inr rfl
  | found => exact .inl ⟨_, _, rfl⟩
  | outward _ _ _ ih => exact ih

/-- A lookup that may take as many steps as a walk visits scopes comes to what the walk comes
to. -/
theorem Walk.resolveWithin (h : a.Walk name index visited r) {steps : Nat}
    (hsteps : visited.length ≤ steps) : a.resolveWithin name steps index = r := by
  induction h generalizing steps with
  | unbound => exact Frames.resolveWithin_noScope a name steps
  | @found i s value hs hname =>
    rw [List.length_singleton] at hsteps
    obtain ⟨steps, rfl⟩ : ∃ k, steps = k + 1 := ⟨steps - 1, by omega⟩
    have hscope : (i : Int) ≠ noScope := by simp only [noScope]; omega
    simp only [Arena.resolveWithin, if_neg hscope, scope?_of_getElem? hs, hname, Int.toNat_natCast]
  | @outward i s visited r hs hname _ ih =>
    rw [List.length_cons] at hsteps
    obtain ⟨steps, rfl⟩ : ∃ k, steps = k + 1 := ⟨steps - 1, by omega⟩
    have hscope : (i : Int) ≠ noScope := by simp only [noScope]; omega
    simp only [Arena.resolveWithin, if_neg hscope, scope?_of_getElem? hs, hname]
    exact ih (by omega)

/-- In an arena in order a lookup and an assignment do what a walk comes to: they may take more
steps than it visits scopes. -/
theorem Walk.actsOn (ha : a.Ordered) {i : Nat} (hi : i < a.depth) {n : Token}
    (h : a.Walk n.lexeme i visited r) : a.ActsOn i n r := by
  have hlength := (h.descends ha).2.2
  have hresolve : a.resolve i n.lexeme = r := h.resolveWithin (by omega)
  rcases h.found_or_unbound with ⟨k, value, rfl⟩ | rfl
  · refine ⟨?_, fun v => ?_⟩
    · rw [get, hresolve]
    · simp only [perform, assign, hresolve, settle]
  · refine ⟨?_, fun v => ?_⟩
    · rw [get, hresolve]
      rfl
    · simp only [perform, assign, hresolve, settle, RuntimeCause.at]

end Walks

/-- Lookups end and stay in range. However scopes have been added, released and added again, bound
in and assigned to, every parent is before its scope. So from every scope there is a walk in search
of every name, and each visits smaller and smaller indices, all of them of scopes that are there; a
lookup and an assignment do what it comes to. -/
theorem lookups_end_in_range {a : Arena} (h : a.Reached) :
    a.Ordered ∧ ∀ (i : Nat) (n : Token), i < a.depth →
      (∃ visited r, a.Walk n.lexeme i visited r) ∧
      ∀ visited r, a.Walk n.lexeme i visited r →
        visited.Pairwise (· > ·) ∧ (∀ k ∈ visited, k < a.depth) ∧ a.ActsOn i n r := by
  have hordered := h.ordered
  refine ⟨hordered, fun i n hi => ⟨hordered.exists_walk hi n.lexeme, fun visited r hwalk => ?_⟩⟩
  obtain ⟨hpairwise, hle, -⟩ := hwalk.descends hordered
  refine ⟨hpairwise, fun k hk => ?_, hwalk.actsOn hordered hi⟩
  have hk' := hle k hk
  omega

/-- The index of a scope that was released with a name bound in it is given out again, and a lookup
from there goes on to the globals and ends. -/
theorem lookups_end_in_range_of_reused_index :
    let n : Token := ⟨.identifier, utf8 "tmp", none, 1⟩
    let a := Arena.new.performAll
      [.push 0, .push 1, .define 2 n.lexeme (some .nil), .pop 1, .push 0]
    a.Reached ∧ a.Ordered ∧ a.depth = 2 ∧
      a.get 1 n = .error (.error ⟨.undefinedVariable (utf8 "tmp"), 1⟩) ∧
      ∃ visited, a.Walk n.lexeme 1 visited .unbound ∧ visited.Pairwise (· > ·) := by
  intro n a
  have hnew : Arena.new.Reached := .new
  have hpushed := (hnew.perform (.push 0) (by decide)).perform (.push 1) (by decide)
  have hbound := hpushed.perform (.define 2 n.lexeme (some .nil)) (by decide)
  have hreached : a.Reached :=
    (hbound.perform (.pop 1) (by decide)).perform (.push 0) (by decide)
  obtain ⟨hordered, hwalks⟩ := lookups_end_in_range hreached
  obtain ⟨⟨visited, r, hwalk⟩, hall⟩ := hwalks 1 n (by decide)
  obtain ⟨hpairwise, -, hacts⟩ := hall visited r hwalk
  rcases hwalk.found_or_unbound with ⟨i, value, rfl⟩ | rfl
  · cases hacts.1
  · exact ⟨hreached, hordered, rfl, hacts.1, visited, hwalk, hpairwise⟩

end Arena

end Lox
