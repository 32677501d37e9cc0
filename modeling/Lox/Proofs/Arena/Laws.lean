import Lox.Proofs.Arena.Walk
import Lox.Proofs.Footprint

/-!
# Laws of lookup

In an arena in order every scope has a chain: the scope itself, its parent, the parent of that, and
so on to a scope without a parent. Chains may branch, since scopes may have the same parent. A name
belongs to the nearest scope of the chain that binds it, and this alone says what a lookup, an
assignment and a binding do, seen from any other scope. What is done in scopes that are added later
is undone by releasing the first of them.
-/

namespace Lox

namespace Arena

/-- The scopes from an index outwards, for the parents of an arena. A parent is followed if it is
before its scope, as all are in an arena in order. -/
def outward (parents : List Int) (i : Nat) : List Nat :=
  match parents[i]? with
  | none => []
  | some p => if 0 ≤ p ∧ p < i then i :: outward parents p.toNat else [i]
termination_by i
decreasing_by omega

/-- The chain of a scope: itself, its parent, the parent of that, and so on. -/
def chain (a : Arena) (i : Nat) : List Nat := outward a.parents i

/-- The first scope on the chain of a scope that binds a name. -/
def nearest (a : Arena) (i : Nat) (x : Text) : Option Nat :=
  (a.chain i).find? fun k => (a.binding? k x).isSome

/-- From the scope `j` a name that is bound in the scope `i` is seen there: `i` is on the chain of
`j`, and no scope before it binds the name. -/
def Sees (a : Arena) (j i : Nat) (x : Text) : Prop :=
  ∃ before rest, a.chain j = before ++ i :: rest ∧ ∀ k ∈ before, a.binding? k x = none

/-- The second arena differs from the first in the value of one name in one scope, which binds it
in both. -/
structure DiffersAt (a a' : Arena) (k : Nat) (x : Text) (v : Option Value) : Prop where
  /-- The scopes have the same parents. -/
  parents_eq : a'.parents = a.parents
  /-- They bind the same names. -/
  names_eq : ∀ l, a'.names l = a.names l
  /-- One name has the value in one scope, and every other has the value it had. -/
  binding?_eq : ∀ l z, a'.binding? l z = if l = k ∧ z = x then some v else a.binding? l z

/-- An operation that leaves alone the scopes before an index, in an arena of a given depth. Names may
be looked up anywhere, but not assigned to, and the index of a release may be the next to be given
out. -/
def Operation.Inside (index depth : Nat) : Operation → Prop
  | .push _ | .get _ _ => True
  | .define i _ _ => index ≤ i
  | .pop i => index < i ∧ i ≤ depth
  | .assign _ _ _ => False

instance (index depth : Nat) : DecidablePred (Operation.Inside index depth)
  | .push _ | .get _ _ => isTrue trivial
  | .define i _ _ => inferInstanceAs (Decidable ((index : Int) ≤ i))
  | .pop i => inferInstanceAs (Decidable ((index : Int) < i ∧ i ≤ depth))
  | .assign _ _ _ => isFalse id

/-- Operations in a row each of which leaves alone the scopes before an index, in the arena as the
ones before it leave it. -/
def StaysInside (index : Nat) : Arena → List Operation → Prop
  | _, [] => True
  | b, operation :: rest =>
    operation.Inside index b.depth ∧ StaysInside index (b.perform operation).2 rest

instance decidableStaysInside (index : Nat) :
    (b : Arena) → (operations : List Operation) → Decidable (StaysInside index b operations)
  | _, [] => isTrue trivial
  | b, operation :: rest =>
    have := decidableStaysInside index (b.perform operation).2 rest
    inferInstanceAs (Decidable
      (operation.Inside index b.depth ∧ StaysInside index (b.perform operation).2 rest))

section Chains

variable {a : Arena} {i : Nat} {s : Scope} {x : Text}

/-- The parent of a scope by its index. -/
theorem getElem?_parents (hs : a.scopes[i]? = some s) : a.parents[i]? = some s.parent := by
  rw [parents, List.getElem?_map, hs, Option.map_some]

/-- The bindings of a scope by its index. -/
theorem binding?_eq_find? (hs : a.scopes[i]? = some s) (x : Text) :
    a.binding? i x = s.bindings.find? x := by
  rw [binding?, hs, Option.bind_some]

/-- A scope without a parent is alone on its chain. -/
theorem chain_of_noScope (hs : a.scopes[i]? = some s) (hparent : s.parent = noScope) :
    a.chain i = [i] := by
  have hp : ¬ (0 ≤ s.parent ∧ s.parent < i) := by
    rw [hparent, noScope]
    omega
  rw [chain, outward, getElem?_parents hs]
  exact if_neg hp

/-- The chain of a scope goes on with that of its parent. -/
theorem chain_of_parent (hs : a.scopes[i]? = some s) {p : Nat} (hparent : s.parent = p)
    (hp : p < i) : a.chain i = i :: a.chain p := by
  have hp' : 0 ≤ s.parent ∧ s.parent < i := by omega
  have htoNat : s.parent.toNat = p := by omega
  rw [chain, outward, getElem?_parents hs]
  dsimp only
  rw [if_pos hp', htoNat, chain]

/-- The nearest scope that binds a name is the one in which the name is seen. -/
theorem nearest_eq_some_iff {k : Nat} :
    a.nearest i x = some k ↔ (∃ v, a.binding? k x = some v) ∧ a.Sees i k x := by
  rw [nearest, List.find?_eq_some_iff_append, Option.isSome_iff_exists]
  simp only [Bool.not_eq_true', Option.isSome_eq_false_iff, Option.isNone_iff_eq_none, Sees]

/-- No scope is the nearest if none on the chain binds the name. -/
theorem nearest_eq_none_iff : a.nearest i x = none ↔ ∀ k ∈ a.chain i, a.binding? k x = none := by
  rw [nearest, List.find?_eq_none]
  simp only [Option.not_isSome_iff_eq_none]

/-- A scope that binds a name is the nearest to itself. -/
theorem Ordered.nearest_self (ha : a.Ordered) (hs : a.scopes[i]? = some s) {v : Option Value}
    (hname : s.bindings.find? x = some v) : a.nearest i x = some i := by
  have hhead : ∃ rest, a.chain i = i :: rest := by
    rcases ha.parent_cases hs with hparent | ⟨p, hparent, hp⟩
    · exact ⟨[], chain_of_noScope hs hparent⟩
    · exact ⟨_, chain_of_parent hs hparent hp⟩
  obtain ⟨rest, hchain⟩ := hhead
  exact nearest_eq_some_iff.mpr
    ⟨⟨v, (binding?_eq_find? hs x).trans hname⟩, [], rest, hchain, nofun⟩

/-- From a scope that does not bind a name, the nearest is that of its parent. -/
theorem nearest_of_parent (hs : a.scopes[i]? = some s) (hname : s.bindings.find? x = none)
    {p : Nat} (hparent : s.parent = p) (hp : p < i) : a.nearest i x = a.nearest p x := by
  have hunbound : ¬ (a.binding? i x).isSome = true := by
    rw [binding?_eq_find? hs, hname]
    exact Bool.false_ne_true
  rw [nearest, chain_of_parent hs hparent hp]
  exact List.find?_cons_of_neg hunbound

/-- No scope is the nearest to one that neither has a parent nor binds the name. -/
theorem nearest_of_noScope (hs : a.scopes[i]? = some s) (hname : s.bindings.find? x = none)
    (hparent : s.parent = noScope) : a.nearest i x = none := by
  rw [nearest_eq_none_iff, chain_of_noScope hs hparent]
  intro k hk
  rw [List.mem_singleton.mp hk, binding?_eq_find? hs, hname]

end Chains

section Lookups

variable {a a' : Arena} {i j k : Nat} {x : Text}

/-- A walk from where there is no scope finds nothing. -/
theorem Walk.eq_unbound {index : Int} {visited : List Nat} {r : Resolution}
    (h : a.Walk x index visited r) (hindex : index = noScope) : r = .unbound := by
  cases h with
  | unbound => rfl
  | @found i | @outward i =>
    have hi : (i : Int) ≠ noScope := by simp only [noScope]; omega
    exact absurd hindex hi

/-- A walk comes to the nearest scope that binds the name. -/
theorem Walk.nearest_cases (ha : a.Ordered) {index : Int} {visited : List Nat} {r : Resolution}
    (h : a.Walk x index visited r) (hindex : index = i) :
    (∃ k v, r = .found k v ∧ a.nearest i x = some k ∧ a.binding? k x = some v) ∨
      r = .unbound ∧ a.nearest i x = none := by
  induction h generalizing i with
  | unbound =>
    simp only [noScope] at hindex
    omega
  | @found k s v hs hname =>
    obtain rfl : k = i := Int.ofNat.inj hindex
    exact .inl ⟨k, v, rfl, ha.nearest_self hs hname, (binding?_eq_find? hs x).trans hname⟩
  | @outward k s visited r hs hname hwalk ih =>
    obtain rfl : k = i := Int.ofNat.inj hindex
    rcases ha.parent_cases hs with hparent | ⟨p, hparent, hp⟩
    · exact .inr ⟨hwalk.eq_unbound hparent, nearest_of_noScope hs hname hparent⟩
    · rw [nearest_of_parent hs hname hparent hp]
      exact ih hparent

/-- A lookup and an assignment act on the nearest scope that binds the name. -/
theorem Ordered.actsOn_nearest (ha : a.Ordered) (hi : i < a.depth) (n : Token) :
    (∃ k v, a.nearest i n.lexeme = some k ∧ a.binding? k n.lexeme = some v ∧
      a.ActsOn i n (.found k v)) ∨
      a.nearest i n.lexeme = none ∧ a.ActsOn i n .unbound := by
  obtain ⟨visited, r, hwalk⟩ := ha.exists_walk hi n.lexeme
  have hacts := hwalk.actsOn ha hi
  rcases hwalk.nearest_cases ha rfl with ⟨k, v, rfl, hnearest, hbinding⟩ | ⟨rfl, hnearest⟩
  · exact .inl ⟨k, v, hnearest, hbinding, hacts⟩
  · exact .inr ⟨hnearest, hacts⟩

/-- A lookup gives the value in the nearest scope that binds the name. -/
theorem Ordered.get_of_nearest (ha : a.Ordered) (hi : i < a.depth) {n : Token} {v : Option Value}
    (hnearest : a.nearest i n.lexeme = some k) (hbinding : a.binding? k n.lexeme = some v) :
    a.get i n = .ok v := by
  rcases ha.actsOn_nearest hi n with ⟨k', v', hnearest', hbinding', hget, -⟩ | ⟨hnone, -⟩
  · obtain rfl : k = k' := Option.some.inj (hnearest.symm.trans hnearest')
    obtain rfl : v = v' := Option.some.inj (hbinding.symm.trans hbinding')
    exact hget
  · rw [hnearest] at hnone
    cases hnone

/-- Where no scope binds a name, it is undefined. -/
theorem Ordered.get_of_nearest_eq_none (ha : a.Ordered) (hi : i < a.depth) {n : Token}
    (hnearest : a.nearest i n.lexeme = none) :
    a.get i n = .error (.error ⟨.undefinedVariable n.lexeme, n.line⟩) := by
  rcases ha.actsOn_nearest hi n with ⟨k, v, hsome, -⟩ | ⟨-, hget, -⟩
  · rw [hnearest] at hsome
    cases hsome
  · exact hget

/-- A name is undefined exactly if no scope on the chain binds it. -/
theorem Ordered.get_eq_undefined_iff (ha : a.Ordered) (hi : i < a.depth) (n : Token) :
    a.get i n = .error (.error ⟨.undefinedVariable n.lexeme, n.line⟩) ↔
      a.nearest i n.lexeme = none := by
  refine ⟨fun hget => ?_, ha.get_of_nearest_eq_none hi⟩
  by_contra hsome
  obtain ⟨k, hk⟩ := Option.ne_none_iff_exists'.mp hsome
  obtain ⟨⟨w, hw⟩, -⟩ := nearest_eq_some_iff.mp hk
  rw [ha.get_of_nearest hi hk hw] at hget
  cases hget

/-- A lookup is the same in two arenas if the same scope is the nearest in both and has the same
value for the name. -/
theorem Ordered.get_congr (ha : a.Ordered) (ha' : a'.Ordered) (hi : i < a.depth)
    (hi' : i < a'.depth) {n : Token} (hnearest : a'.nearest i n.lexeme = a.nearest i n.lexeme)
    (hbinding : ∀ k, a.nearest i n.lexeme = some k →
      a'.binding? k n.lexeme = a.binding? k n.lexeme) : a'.get i n = a.get i n := by
  cases hcase : a.nearest i n.lexeme with
  | none =>
    rw [hcase] at hnearest
    rw [ha.get_of_nearest_eq_none hi hcase, ha'.get_of_nearest_eq_none hi' hnearest]
  | some k =>
    have hbinding' := hbinding k hcase
    rw [hcase] at hnearest
    obtain ⟨⟨v, hv⟩, -⟩ := nearest_eq_some_iff.mp hcase
    rw [ha.get_of_nearest hi hcase hv, ha'.get_of_nearest hi' hnearest (hbinding'.trans hv)]

/-- Binding a name in a scope that is there changes one binding. -/
theorem binding?_bind_of_lt (hk : k < a.depth) (x : Text) (v : Option Value) (l : Nat) (z : Text) :
    (a.bind k x v).binding? l z = if l = k ∧ z = x then some v else a.binding? l z := by
  rw [binding?_bind]
  by_cases h : l = k ∧ z = x
  · obtain ⟨rfl, rfl⟩ := h
    have hscope : a.scopes[l]? = some a.scopes[l] := List.getElem?_eq_getElem hk
    rw [if_pos ⟨rfl, rfl⟩, if_pos ⟨rfl, rfl⟩, hscope, Option.map_some]
  · have h' : ¬ (k = l ∧ x = z) := fun hc => h ⟨hc.1.symm, hc.2.symm⟩
    rw [if_neg h, if_neg h']

/-- Binding a name leaves the chains. -/
theorem chain_bind (a : Arena) (k : Nat) (x : Text) (v : Option Value) (i : Nat) :
    (a.bind k x v).chain i = a.chain i := by
  rw [chain, parents_bind, chain]

/-- A name that a scope binds is bound in a scope that is there. -/
theorem lt_depth_of_binding? {v : Option Value} (h : a.binding? k x = some v) : k < a.depth := by
  by_contra hge
  rw [binding?_eq_none (Nat.le_of_not_lt hge)] at h
  cases h

/-- A new value for a name that a scope binds binds no name that was not bound. -/
theorem isSome_binding?_bind {v : Option Value} (h : a.binding? k x = some v) (w : Option Value)
    (l : Nat) (z : Text) : ((a.bind k x w).binding? l z).isSome = (a.binding? l z).isSome := by
  rw [binding?_bind_of_lt (lt_depth_of_binding? h)]
  split
  · next heq =>
    obtain ⟨rfl, rfl⟩ := heq
    rw [h, Option.isSome_some, Option.isSome_some]
  · rfl

/-- It changes that value only. -/
theorem differsAt_bind {v : Option Value} (h : a.binding? k x = some v) (w : Option Value) :
    a.DiffersAt (a.bind k x w) k x w where
  parents_eq := a.parents_bind k x w
  names_eq l := by
    ext z
    simp only [names, Set.mem_ofPred_eq, ← Option.isSome_iff_exists, isSome_binding?_bind h w]
  binding?_eq := binding?_bind_of_lt (lt_depth_of_binding? h) x w

/-- It leaves the nearest scope to every other, for every name. -/
theorem nearest_bind_of_binding? {v : Option Value} (h : a.binding? k x = some v)
    (w : Option Value) (j : Nat) (z : Text) : (a.bind k x w).nearest j z = a.nearest j z := by
  simp only [nearest, chain_bind, isSome_binding?_bind h w]

/-- After a new value for a name in the scope to which it belongs, seen from `i`, a lookup gives the
new value from the scopes from which it belongs there, too, and is as before otherwise. -/
theorem Ordered.get_bind_of_nearest (ha : a.Ordered) (hj : j < a.depth) {n : Token}
    (hk : a.nearest i x = some k) (w : Option Value) :
    (a.bind k x w).get j n =
      if n.lexeme = x ∧ a.nearest j x = a.nearest i x then .ok w else a.get j n := by
  obtain ⟨⟨v, hv⟩, -⟩ := nearest_eq_some_iff.mp hk
  have ha' : (a.bind k x w).Ordered := ha.bind k x w
  have hj' : j < (a.bind k x w).depth := by rwa [depth_bind]
  have hbinding := binding?_bind_of_lt (lt_depth_of_binding? hv) x w
  have hnearest := nearest_bind_of_binding? hv w j
  split
  · next h =>
    obtain ⟨rfl, hsame⟩ := h
    have hcell : (a.bind k n.lexeme w).binding? k n.lexeme = some w := by
      rw [hbinding, if_pos ⟨rfl, rfl⟩]
    exact ha'.get_of_nearest hj' ((hnearest _).trans (hsame.trans hk)) hcell
  · next h =>
    apply ha.get_congr ha' hj hj' (hnearest _)
    intro l hl
    have hcell : ¬ (l = k ∧ n.lexeme = x) := by
      rintro ⟨rfl, rfl⟩
      exact h ⟨rfl, hl.trans hk.symm⟩
    rw [hbinding, if_neg hcell]

/-- A scope in which a name is bound becomes the nearest to those from which it is seen there. -/
theorem nearest_bind_of_sees (hi : i < a.depth) (v : Option Value) (h : a.Sees j i x) :
    (a.bind i x v).nearest j x = some i := by
  have hbinding (k : Nat) := binding?_bind_of_lt hi x v k x
  have hself : ((a.bind i x v).binding? i x).isSome = true := by
    rw [hbinding, if_pos ⟨rfl, rfl⟩, Option.isSome_some]
  obtain ⟨before, rest, hchain, hbefore⟩ := h
  rw [nearest, chain_bind, hchain, List.find?_append]
  cases hfind : before.find? fun k => ((a.bind i x v).binding? k x).isSome with
  | none =>
    rw [Option.none_or]
    exact List.find?_cons_of_pos hself
  | some k =>
    -- No scope before bound the name, so that one that binds it now is the scope itself.
    have hk : k = i := by
      by_contra hne
      have hsome := List.find?_some hfind
      have hnone := hbefore k (List.mem_of_find?_eq_some hfind)
      rw [hbinding, if_neg (fun heq => hne heq.1), hnone] at hsome
      cases hsome
    rw [hk, Option.some_or]

/-- To all others the nearest scope is as before, and it is another one. -/
theorem nearest_bind_of_not_sees (hi : i < a.depth) (v : Option Value) (h : ¬ a.Sees j i x) :
    (a.bind i x v).nearest j x = a.nearest j x ∧ a.nearest j x ≠ some i := by
  have hbinding (k : Nat) := binding?_bind_of_lt hi x v k x
  have hkept {k : Nat} (hk : (a.bind i x v).binding? k x = none) : a.binding? k x = none := by
    rw [hbinding] at hk
    split at hk
    · cases hk
    · exact hk
  refine ⟨?_, fun hsome => h (nearest_eq_some_iff.mp hsome).2⟩
  cases hcase : (a.bind i x v).nearest j x with
  | none =>
    have hnone := nearest_eq_none_iff.mp hcase
    rw [chain_bind] at hnone
    exact (nearest_eq_none_iff.mpr fun k hk => hkept (hnone k hk)).symm
  | some k =>
    obtain ⟨⟨w, hw⟩, before, rest, hchain, hbefore⟩ := nearest_eq_some_iff.mp hcase
    rw [chain_bind] at hchain
    have hsees : a.Sees j k x := ⟨before, rest, hchain, fun l hl => hkept (hbefore l hl)⟩
    have hne : k ≠ i := by
      rintro rfl
      exact h hsees
    rw [hbinding, if_neg (fun heq => hne heq.1)] at hw
    exact (nearest_eq_some_iff.mpr ⟨⟨w, hw⟩, hsees⟩).symm

/-- After binding a name in a scope, a lookup gives its value from the scopes from which it is seen
there. -/
theorem Ordered.get_bind_of_sees (ha : a.Ordered) (hi : i < a.depth) (hj : j < a.depth) {n : Token}
    (v : Option Value) (h : n.lexeme = x ∧ a.Sees j i x) : (a.bind i x v).get j n = .ok v := by
  have ha' : (a.bind i x v).Ordered := ha.bind i x v
  have hj' : j < (a.bind i x v).depth := by rwa [depth_bind]
  obtain ⟨rfl, hsees⟩ := h
  have hcell : (a.bind i n.lexeme v).binding? i n.lexeme = some v := by
    rw [binding?_bind_of_lt hi, if_pos ⟨rfl, rfl⟩]
  exact ha'.get_of_nearest hj' (nearest_bind_of_sees hi v hsees) hcell

/-- All other lookups are as before. -/
theorem Ordered.get_bind_of_not_sees (ha : a.Ordered) (hi : i < a.depth) (hj : j < a.depth)
    {n : Token} (v : Option Value) (h : ¬ (n.lexeme = x ∧ a.Sees j i x)) :
    (a.bind i x v).get j n = a.get j n := by
  have ha' : (a.bind i x v).Ordered := ha.bind i x v
  have hj' : j < (a.bind i x v).depth := by rwa [depth_bind]
  have hbinding := binding?_bind_of_lt hi x v
  by_cases hname : n.lexeme = x
  · obtain rfl := hname
    obtain ⟨hnearest, hne⟩ := nearest_bind_of_not_sees hi v fun hsees => h ⟨rfl, hsees⟩
    apply ha.get_congr ha' hj hj' hnearest
    intro k hk
    have hki : k ≠ i := by
      rintro rfl
      exact hne hk
    rw [hbinding, if_neg (fun heq => hki heq.1)]
  · have hsame (k : Nat) : (a.bind i x v).binding? k n.lexeme = a.binding? k n.lexeme := by
      rw [hbinding, if_neg (fun heq => hname heq.2)]
    have hnearest : (a.bind i x v).nearest j n.lexeme = a.nearest j n.lexeme := by
      simp only [nearest, chain_bind, hsame]
    exact ha.get_congr ha' hj hj' hnearest fun k _ => hsame k

end Lookups

section Restoring

variable {a b : Arena}

/-- Where the scopes up to an index are those of an arena, there are at least as many. -/
theorem depth_le_of_pop (h : b.pop a.depth = a) : a.depth ≤ b.depth := by
  have hlength : (b.pop a.depth).depth = a.depth := by rw [h]
  simp only [pop, depth, List.length_take] at hlength ⊢
  omega

/-- One more scope leaves those before an index in range. -/
theorem pop_push_of_le {k : Nat} (hk : k ≤ b.depth) (parent : Int) :
    (b.push parent).pop k = b.pop k := by
  rw [pop, push, List.take_append_of_le_length hk, pop]

/-- A release leaves those before a smaller index. -/
theorem pop_pop_of_le {k index : Nat} (hk : k ≤ index) : (b.pop index).pop k = b.pop k := by
  simp only [pop, List.take_take, Nat.min_eq_left hk]

/-- Binding a name in a scope leaves those before it. -/
theorem pop_bind_of_le {k index : Nat} (hk : k ≤ index) (name : Text) (value : Option Value) :
    (b.bind index name value).pop k = b.pop k := by
  simp only [pop, bind, mk.injEq]
  apply List.ext_getElem?
  intro i
  rcases Nat.lt_or_ge i k with hi | hi
  · have hne : index ≠ i := by omega
    rw [List.getElem?_take_of_lt hi, List.getElem?_take_of_lt hi, List.getElem?_modify_ne _ _ hne]
  · rw [List.getElem?_eq_none (by simp only [List.length_take]; omega),
      List.getElem?_eq_none (by simp only [List.length_take]; omega)]

/-- An operation inside the scopes that were added later leaves those that were there before. -/
theorem pop_perform (h : b.pop a.depth = a) {operation : Operation}
    (hinside : operation.Inside a.depth b.depth) : (b.perform operation).2.pop a.depth = a := by
  have hdepth := depth_le_of_pop h
  have hchange := b.change_perform operation
  generalize (b.perform operation).2 = changed at hchange
  cases hchange with
  | keep => exact h
  | push parent => exact (pop_push_of_le hdepth parent).trans h
  | @pop index =>
    have hk : a.depth ≤ index := Nat.le_of_lt (Int.ofNat_lt.mp hinside.1)
    exact (pop_pop_of_le hk).trans h
  | @define index _ name value =>
    have hk : a.depth ≤ index := Int.ofNat_le.mp hinside
    exact (pop_bind_of_le hk name value).trans h
  | assign => exact absurd hinside id

/-- So do any of them in a row. -/
theorem pop_performAll {operations : List Operation}
    (hinside : StaysInside a.depth b operations) (h : b.pop a.depth = a) :
    (b.performAll operations).pop a.depth = a := by
  induction operations generalizing b with
  | nil => exact h
  | cons operation rest ih =>
    obtain ⟨hfirst, hrest⟩ := hinside
    exact ih hrest (pop_perform h hfirst)

/-- Releasing the first of the scopes that were added restores the arena, whatever was done in
them. -/
theorem perform_pop_of_inside (a : Arena) (parent : Int) {operations : List Operation}
    (hinside : StaysInside a.depth (a.push parent) operations) :
    ((a.push parent).performAll operations).perform (.pop a.depth) = (.ok .done, a) := by
  have hpop := pop_performAll hinside (a.pop_push parent)
  rw [perform, release_of_le (depth_le_of_pop hpop), hpop, settle]

end Restoring

/-- A name can be bound in every scope that is there. -/
theorem perform_define {a : Arena} {i : Nat} (hi : i < a.depth) (name : Text)
    (value : Option Value) :
    a.perform (.define i name value) = (.ok .done, a.bind i name value) := by
  have hscope := scope?_of_getElem? (List.getElem?_eq_getElem hi)
  simp only [perform, define, hscope, settle, Int.toNat_natCast]

/-- The laws of lookup, for any two scopes of an arena in order.

A lookup gives the value in the nearest scope that binds the name, and says that the name is
undefined exactly if there is none. An assignment stops exactly if a lookup does, for the same
reason and with the arena as it was. Otherwise it answers its value, binds no name, and changes the
value in that scope only, so that a lookup from any scope gives it if the name belongs to the same
scope from there, and is as before otherwise. After binding a name in a scope, a lookup from another
gives its value if the scope is on the chain with none before it that binds the name, and is as
before otherwise. And releasing a scope that was added restores the arena, if nothing was done since
but in that scope and in those added after it. -/
theorem lookups_follow_chains {a : Arena} (ha : a.Ordered) {i j : Nat} (hi : i < a.depth)
    (hj : j < a.depth) (n m : Token) (v : Option Value) :
    ((∀ k, a.nearest i n.lexeme = some k →
        ∃ w, a.binding? k n.lexeme = some w ∧ a.get i n = .ok w) ∧
      (a.get i n = .error (.error ⟨.undefinedVariable n.lexeme, n.line⟩) ↔
        a.nearest i n.lexeme = none)) ∧
    (let after := a.perform (.assign i n v);
      (∀ stop, after.1 = .error stop ↔ a.get i n = .error stop) ∧
      (∀ stop, after.1 = .error stop → after.2 = a) ∧
      ∀ k, a.nearest i n.lexeme = some k →
        after.1 = .ok (.value v) ∧ a.DiffersAt after.2 k n.lexeme v ∧
        after.2.get j m =
          if m.lexeme = n.lexeme ∧ a.nearest j n.lexeme = a.nearest i n.lexeme then .ok v
          else a.get j m) ∧
    (let after := a.perform (.define i n.lexeme v);
      after.1 = .ok .done ∧
      (m.lexeme = n.lexeme ∧ a.Sees j i n.lexeme → after.2.get j m = .ok v) ∧
      (¬ (m.lexeme = n.lexeme ∧ a.Sees j i n.lexeme) → after.2.get j m = a.get j m)) ∧
    ∀ (parent : Int) (operations : List Operation),
      let opened := a.perform (.push parent)
      opened.1 = .ok (.index a.depth) ∧
        (StaysInside a.depth opened.2 operations →
          (opened.2.performAll operations).perform (.pop a.depth) = (.ok .done, a)) := by
  refine ⟨?_, ?_, ?_, fun parent operations => ?_⟩
  · refine ⟨fun k hk => ?_, ha.get_eq_undefined_iff hi n⟩
    obtain ⟨⟨w, hw⟩, -⟩ := nearest_eq_some_iff.mp hk
    exact ⟨w, hw, ha.get_of_nearest hi hk hw⟩
  · intro after
    rcases ha.actsOn_nearest hi n with ⟨k, w, hk, hw, hget, hassign⟩ | ⟨hnone, hget, hassign⟩
    · have hafter : after = (.ok (.value v), a.bind k n.lexeme v) := hassign v
      rw [hafter, hget]
      refine ⟨fun _ => iff_of_false nofun nofun, nofun, fun k' hk' => ?_⟩
      obtain rfl : k = k' := Option.some.inj (hk.symm.trans hk')
      exact ⟨rfl, differsAt_bind hw v, ha.get_bind_of_nearest hj hk v⟩
    · have hafter := hassign v
      refine ⟨fun stop => ?_, fun _ _ => congrArg Prod.snd hafter, fun k hk => ?_⟩
      · rw [hget, congrArg Prod.fst hafter, Except.error.injEq, Except.error.injEq]
      · rw [hnone] at hk
        cases hk
  · intro after
    have hafter : after = (.ok .done, a.bind i n.lexeme v) := perform_define hi n.lexeme v
    rw [hafter]
    exact ⟨rfl, ha.get_bind_of_sees hi hj v, ha.get_bind_of_not_sees hi hj v⟩
  · exact ⟨rfl, a.perform_pop_of_inside parent⟩

/-- Two scopes with the same parent, one of which binds a name that the parent binds, too. An
assignment from the other changes what the parent has for it and leaves what a scope inside the
first sees; a binding in the first is seen from there. Scopes that are added inside and released
leave no trace. -/
theorem lookups_follow_chains_of_siblings :
    let n : Token := ⟨.identifier, utf8 "x", none, 1⟩
    let a : Arena := ⟨[⟨[(utf8 "x", some (.bool true))], -1⟩, ⟨[], 0⟩,
      ⟨[(utf8 "x", some (.bool false))], 0⟩, ⟨[], 2⟩]⟩
    let assigned := a.perform (.assign 1 n (some .nil))
    let bound := a.perform (.define 2 n.lexeme (some .nil))
    let inside : List Operation :=
      [.push 4, .define 5 n.lexeme none, .pop 5, .define 4 n.lexeme none, .get 4 n]
    (a.Ordered ∧ 0 < a.depth ∧ 1 < a.depth ∧ 2 < a.depth ∧ 3 < a.depth) ∧
      (assigned.1 = .ok (.value (some .nil)) ∧ a.DiffersAt assigned.2 0 n.lexeme (some .nil) ∧
        assigned.2.get 0 n = .ok (some .nil) ∧ assigned.2.get 3 n = .ok (some (.bool false))) ∧
      bound.2.get 3 n = .ok (some .nil) ∧
      ((a.push 3).performAll inside).perform (.pop 4) = (.ok .done, a) := by
  intro n a assigned bound inside
  have ha : a.Ordered := by decide
  have h₀ : 0 < a.depth := by decide
  have h₁ : 1 < a.depth := by decide
  have h₂ : 2 < a.depth := by decide
  have h₃ : 3 < a.depth := by decide
  have hglobal : a.nearest 0 n.lexeme = some 0 := ha.nearest_self rfl rfl
  have hfirst : a.nearest 2 n.lexeme = some 2 := ha.nearest_self rfl rfl
  have hnearest : a.nearest 1 n.lexeme = some 0 :=
    (nearest_of_parent rfl rfl rfl Nat.zero_lt_one).trans hglobal
  have hother : a.nearest 3 n.lexeme = some 2 :=
    (nearest_of_parent rfl rfl rfl (Nat.lt_succ_self 2)).trans hfirst
  obtain ⟨hanswer, hdiffers, hseen⟩ :=
    (lookups_follow_chains ha h₁ h₀ n n (some .nil)).2.1.2.2 0 hnearest
  obtain ⟨-, -, hunseen⟩ := (lookups_follow_chains ha h₁ h₃ n n (some .nil)).2.1.2.2 0 hnearest
  rw [if_pos ⟨rfl, hglobal.trans hnearest.symm⟩] at hseen
  rw [hother, hnearest, if_neg (by decide)] at hunseen
  obtain ⟨-, -, ⟨-, hbound, -⟩, hrestores⟩ := lookups_follow_chains ha h₂ h₃ n n (some .nil)
  have hsees : a.Sees 3 2 n.lexeme := (nearest_eq_some_iff.mp hother).2
  exact ⟨⟨ha, h₀, h₁, h₂, h₃⟩, ⟨hanswer, hdiffers, hseen, hunseen⟩, hbound ⟨rfl, hsees⟩,
    (hrestores 3 inside).2 (by decide)⟩

end Arena

end Lox
