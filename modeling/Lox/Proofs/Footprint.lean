import Lox.Proofs.WellScoped

/-!
# What a statement touches

A statement touches only what it names. It assigns to the names that stand before an equals sign
in it, and it binds names in the current scope by the declarations with an initializer that stand
in it outside its blocks; those inside a block are gone with the scope of the block. Whatever a
statement comes to, at its end, by an error, by a fault or cut off, every other binding has the
value it had, no scope but the current one binds a name that it did not bind, and none is lost. So
the globals of a session only grow, and a block leaves the names that are bound around it.

None of this needs the scopes to form a chain: it holds on every machine.
-/

namespace Lox

/-- The names that an expression assigns to. Calls, properties, `super` and `this` are not carried
out, so that nothing in them is assigned to. -/
def Expr.assigned : Expr → List Text
  | .assign n value => n.lexeme :: value.assigned
  | .grouping inner => inner.assigned
  | .unary _ right => right.assigned
  | .binary left _ right | .logical left _ right => left.assigned ++ right.assigned
  | .absent | .literal _ | .name _ | .call _ _ _ | .get _ _ | .set _ _ _ | .super _ _
  | .receiver _ => []

mutual

/-- The names that a statement assigns to, at any depth of its blocks. Classes, functions and
returns are not carried out. -/
def Stmt.assigned : Stmt → List Text
  | .expression e | .print _ e | .var _ e => e.assigned
  | .block body => Stmt.assignedInRow body
  | .conditional _ condition thenBranch elseBranch =>
    condition.assigned ++ (thenBranch.assigned ++ elseBranch.assigned)
  | .loop _ condition body => condition.assigned ++ body.assigned
  | .absent | .classDecl _ _ _ | .functionDecl _ _ _ | .returning _ _ => []
termination_by structural s => s

/-- The names that statements in a row assign to. -/
def Stmt.assignedInRow : List Stmt → List Text
  | [] => []
  | s :: rest => s.assigned ++ Stmt.assignedInRow rest
termination_by structural body => body

end

/-- The names that a statement may bind in the current scope: those of the declarations with an
initializer that stand in it outside its blocks. -/
def Stmt.declares : Stmt → List Text
  | .var n e => if e.isPresent then [n.lexeme] else []
  | .conditional _ _ thenBranch elseBranch => thenBranch.declares ++ elseBranch.declares
  | .loop _ _ body => body.declares
  | _ => []

/-- The names that code assigns to. -/
def Code.assigned : Code → List Text
  | statement s => s.assigned
  | row body => Stmt.assignedInRow body

/-- The names that code may bind in the current scope. -/
def Code.declares : Code → List Text
  | statement s => s.declares
  | row body => body.flatMap Stmt.declares

namespace Arena

/-- What a name is bound to in the scope at an index, if the scope is there and binds it. -/
def binding? (a : Arena) (index : Nat) (name : Text) : Option (Option Value) :=
  a.scopes[index]?.bind fun s => s.bindings.find? name

/-- The names that the scope at an index binds. -/
def names (a : Arena) (index : Nat) : Set Text := {x | ∃ v, a.binding? index x = some v}

/-- Binding a name changes one binding of one scope, if the scope is there. -/
theorem binding?_bind (a : Arena) (index : Nat) (name : Text) (value : Option Value) (i : Nat)
    (x : Text) :
    (a.bind index name value).binding? i x =
      if index = i ∧ name = x then a.scopes[i]?.map fun _ => value else a.binding? i x := by
  simp only [binding?, bind, List.getElem?_modify]
  cases a.scopes[i]? with
  | none => simp
  | some s =>
    by_cases hi : index = i
    · by_cases hx : name = x <;> simp [hi, hx, Bindings.find?_insert]
    · simp [hi]

/-- A new scope changes no binding of those before it. -/
theorem binding?_push (a : Arena) (parent : Int) {i : Nat} (hi : i < a.depth) (x : Text) :
    (a.push parent).binding? i x = a.binding? i x := by
  simp only [binding?, push, List.getElem?_append_left hi]

/-- Releasing scopes changes no binding of those before them. -/
theorem binding?_pop (a : Arena) {index i : Nat} (hi : i < index) (x : Text) :
    (a.pop index).binding? i x = a.binding? i x := by
  simp only [binding?, pop, List.getElem?_take_of_lt hi]

/-- There are no bindings outside the arena. -/
theorem binding?_eq_none {a : Arena} {i : Nat} (hi : a.depth ≤ i) (x : Text) :
    a.binding? i x = none := by
  simp only [binding?, List.getElem?_eq_none hi, Option.bind_none]

/-- A name that is found is bound where it is found. -/
theorem binding?_of_resolveWithin {a : Arena} {x : Text} {steps i : Nat} {index : Int}
    {value : Option Value} (h : a.resolveWithin x steps index = .found i value) :
    a.binding? i x = some value := by
  induction steps generalizing index with
  | zero =>
    unfold resolveWithin at h
    split at h <;> cases h
  | succ steps ih =>
    unfold resolveWithin at h
    split at h
    · cases h
    · split at h
      · cases h
      · next s hs =>
        split at h
        · next v hv =>
          cases h
          have hscope : a.scopes[index.toNat]? = some s := by
            unfold scope? at hs
            split at hs
            · cases hs
            · exact hs
          simp only [binding?, hscope, Option.bind_some, hv]
        · exact ih h

/-- What may become of an arena when names are bound in a scope and assigned to. -/
structure Touches (scope : Int) (assigned declared : List Text) (a a' : Arena) : Prop where
  /-- A name that a scope binds was bound there before, or it is declared and the scope is the
  one in which names are bound. -/
  arises : ∀ (i : Nat) (x : Text), x ∈ a'.names i → x ∈ a.names i ∨ (i : Int) = scope ∧ x ∈ declared
  /-- A name that is not assigned to has its value, unless it is declared and the scope is the
  one in which names are bound. -/
  keeps : ∀ (i : Nat) (x : Text), x ∉ assigned → ((i : Int) = scope → x ∉ declared) →
    a'.binding? i x = a.binding? i x

section Touches

variable {scope : Int} {assigned declared : List Text} {a a' a'' : Arena}

/-- An arena that stays as it is touches nothing. -/
theorem Touches.refl (a : Arena) : Touches scope assigned declared a a :=
  ⟨fun _ _ => .inl, fun _ _ _ _ => rfl⟩

/-- What touches some names twice touches no others. -/
theorem Touches.trans (h : Touches scope assigned declared a a')
    (h' : Touches scope assigned declared a' a'') : Touches scope assigned declared a a'' where
  arises i x hx := (h'.arises i x hx).elim (h.arises i x) .inr
  keeps i x hassigned hdeclared :=
    (h'.keeps i x hassigned hdeclared).trans (h.keeps i x hassigned hdeclared)

/-- Assigning to a name touches that name only. It is bound already, so that none arises. -/
theorem touches_assign {index : Int} {n : Token} {value : Option Value}
    (h : a.assign index n value = .ok a') (hn : n.lexeme ∈ assigned) :
    Touches scope assigned declared a a' := by
  unfold assign at h
  split at h
  · next i old hresolve =>
    cases h
    have hold : a.binding? i n.lexeme = some old := binding?_of_resolveWithin hresolve
    constructor
    · rintro j x ⟨v, hv⟩
      rw [binding?_bind] at hv
      split at hv
      · next heq =>
        obtain ⟨rfl, rfl⟩ := heq
        exact .inl ⟨old, hold⟩
      · exact .inl ⟨v, hv⟩
    · intro j x hx _
      have hne : ¬ (i = j ∧ n.lexeme = x) := fun heq => hx (heq.2 ▸ hn)
      rw [binding?_bind, if_neg hne]
  all_goals cases h

/-- Binding a name in a scope that has to exist touches that name in that scope only. -/
theorem touches_define {name : Text} {value : Option Value}
    (h : a.define scope name value = .ok a') (hn : name ∈ declared) :
    Touches scope assigned declared a a' := by
  unfold define at h
  split at h
  · next s hs =>
    cases h
    have hscope : (scope.toNat : Int) = scope := by
      unfold scope? at hs
      split at hs
      · cases hs
      · omega
    constructor
    · rintro j x ⟨v, hv⟩
      rw [binding?_bind] at hv
      split at hv
      · next heq =>
        obtain ⟨rfl, rfl⟩ := heq
        exact .inr ⟨hscope, hn⟩
      · exact .inl ⟨v, hv⟩
    · intro j x _ hx
      have hne : ¬ (scope.toNat = j ∧ name = x) := by
        rintro ⟨rfl, rfl⟩
        exact hx hscope hn
      rw [binding?_bind, if_neg hne]
  · cases h

/-- Evaluation touches the names that the expression assigns to, and binds none. -/
theorem touches_evaluate {e : Expr} (h : e.assigned ⊆ assigned) (index : Int) (a : Arena) :
    Touches scope assigned declared a (e.evaluate index a).2 := by
  have happlied (a : Arena) (r : Except RuntimeError Value) :
      (Evaluated.ofApplied a r).2 = a := by cases r <;> rfl
  induction e generalizing a with
  | absent | literal | name | call | get | set | super | receiver => exact .refl a
  | grouping inner ih => exact ih h a
  | assign n value ih =>
    obtain ⟨hn, hassigned⟩ := List.cons_subset.mp h
    have hvalue := ih hassigned a
    simp only [Expr.evaluate]
    split
    · next heval => rwa [heval] at hvalue
    · next v a' heval =>
      rw [heval] at hvalue
      split
      · next hassign => exact hvalue.trans (touches_assign hassign hn)
      · exact hvalue
  | logical left op right ihl ihr =>
    obtain ⟨hl, hr⟩ := List.append_subset.mp h
    have hleft := ihl hl a
    simp only [Expr.evaluate]
    split
    · next heval => rwa [heval] at hleft
    · next v a' heval =>
      rw [heval] at hleft
      split
      · exact hleft
      · exact hleft.trans (ihr hr a')
  | unary op right ih =>
    have hright := ih h a
    simp only [Expr.evaluate]
    split
    · next heval => rwa [heval] at hright
    · next v a' heval =>
      rw [heval] at hright
      rw [happlied]
      exact hright
  | binary left op right ihl ihr =>
    obtain ⟨hl, hr⟩ := List.append_subset.mp h
    have hleft := ihl hl a
    simp only [Expr.evaluate]
    split
    · next heval => rwa [heval] at hleft
    · next v a' heval =>
      rw [heval] at hleft
      have hright := ihr hr a'
      split
      · next heval' =>
        rw [heval'] at hright
        exact hleft.trans hright
      · next w a'' heval' =>
        rw [heval'] at hright
        rw [happlied]
        exact hleft.trans hright

end Touches

/-- An arena that keeps the names of another binds them all. -/
theorem Keeps.names_subset {a a' : Arena} (h : a.Keeps a') (i : Nat) : a.names i ⊆ a'.names i := by
  rintro x ⟨v, hv⟩
  obtain ⟨s, hs, hfind⟩ := Option.bind_eq_some_iff.mp hv
  obtain ⟨s', hs', -, hnames⟩ := h i s hs
  obtain ⟨v', hv'⟩ := hnames x v hfind
  exact ⟨v', by simp only [binding?, hs', Option.bind_some, hv']⟩

end Arena

open Machine (SameScopes)

/-- What may become of a machine: its scopes stay, and in them only the given names are touched. -/
structure Machine.Touches (assigned declared : List Text) (m m' : Machine) : Prop where
  /-- The current scope and the parents are the same. -/
  same : SameScopes m m'
  /-- Names are bound in the current scope, and assigned to. -/
  touches : m.arena.Touches m.current assigned declared m'.arena

section Execution

variable {assigned declared : List Text}

namespace Machine.Touches

/-- A machine that stays as it is touches nothing. -/
theorem refl (m : Machine) : Touches assigned declared m m := ⟨.refl m, .refl m.arena⟩

/-- What touches some names twice touches no others. -/
theorem trans {m m' m'' : Machine} (h : Touches assigned declared m m')
    (h' : Touches assigned declared m' m'') : Touches assigned declared m m'' :=
  ⟨h.same.trans h'.same, h.touches.trans (h.same.current_eq ▸ h'.touches)⟩

/-- Evaluation that comes to something touches the names that the expression assigns to. -/
theorem of_evaluate {m m' : Machine} {e : Expr} {r : Except Stop (Option Value)}
    (h : m.evaluate e = (r, m')) (he : e.assigned ⊆ assigned) :
    Touches assigned declared m m' := by
  have htouches : m.arena.Touches m.current assigned declared (m.evaluate e).2.arena :=
    Arena.touches_evaluate he m.current m.arena
  rw [h] at htouches
  exact ⟨.of_evaluate h, htouches⟩

/-- Binding a name in the current scope touches that name. -/
theorem define (m : Machine) {name : Text} (value : Option Value) (hn : name ∈ declared) :
    Touches assigned declared m (m.define name value).machine := by
  refine ⟨m.sameScopes_define name value, ?_⟩
  unfold Machine.define
  split
  · next hdefine => exact Arena.touches_define hdefine hn
  · exact .refl m.arena

end Machine.Touches

open Machine (Touches)

/-- A run in two parts touches what its parts touch. -/
theorem Ran.touches_andThen {m : Machine} {r : Ran} {next : Machine → Ran}
    (h : Touches assigned declared m r.machine)
    (hnext : ∀ m, Touches assigned declared m (next m).machine) :
    Touches assigned declared m (r.andThen next).machine := by
  unfold andThen
  split
  · exact h
  · exact h.trans (hnext r.machine)

/-- A body in a scope of its own touches what it assigns to. What it declares is bound in the new
scope, which is not there any more. -/
theorem touches_inScope (settings : Settings) {inner : List Text} {body : Machine → Ran}
    (hbody : ∀ m, Touches assigned inner m (body m).machine) (m : Machine) :
    Touches assigned declared m (inScope settings body m).machine := by
  refine ⟨sameScopes_inScope settings (fun m => (hbody m).same) m, ?_⟩
  have hinner := (hbody ⟨m.arena.push m.current, m.arena.depth⟩).touches
  have hoff {i : Nat} (hi : i < m.arena.depth) : (i : Int) ≠ (m.arena.depth : Nat) := by omega
  have hpop : (inScope settings body m).machine.arena =
      (body ⟨m.arena.push m.current, m.arena.depth⟩).machine.arena.pop m.arena.depth := rfl
  have houtside {i : Nat} (hi : m.arena.depth ≤ i) (x : Text) :
      (inScope settings body m).machine.arena.binding? i x = none := by
    apply Arena.binding?_eq_none
    rw [hpop, Arena.depth, Arena.pop, List.length_take]
    omega
  constructor
  · rintro i x ⟨v, hv⟩
    by_cases hi : i < m.arena.depth
    · rw [hpop, Arena.binding?_pop _ hi] at hv
      rcases hinner.arises i x ⟨v, hv⟩ with ⟨old, hold⟩ | ⟨heq, -⟩
      · rw [Arena.binding?_push _ _ hi] at hold
        exact .inl ⟨old, hold⟩
      · exact absurd heq (hoff hi)
    · rw [houtside (by omega)] at hv
      cases hv
  · intro i x hx _
    by_cases hi : i < m.arena.depth
    · rw [hpop, Arena.binding?_pop _ hi, hinner.keeps i x hx fun heq => absurd heq (hoff hi),
        Arena.binding?_push _ _ hi]
    · rw [houtside (by omega), Arena.binding?_eq_none (by omega)]

/-- A loop touches what its condition and its body touch. -/
theorem touches_repeatWhile {condition : Expr} (hcondition : condition.assigned ⊆ assigned)
    {body : Machine → Ran} (hbody : ∀ m, Touches assigned declared m (body m).machine)
    (rounds : Nat) (m : Machine) :
    Touches assigned declared m (repeatWhile condition body rounds m).machine := by
  induction rounds generalizing m with
  | zero => exact .refl m
  | succ rounds ih =>
    unfold repeatWhile
    split
    · next heval => exact .of_evaluate heval hcondition
    · next v m' heval =>
      have hfirst : Touches assigned declared m m' := .of_evaluate heval hcondition
      split
      · exact hfirst.trans (Ran.touches_andThen (hbody m') ih)
      · exact hfirst

/-- Code touches what it assigns to and what it declares outside its blocks. -/
theorem Code.touches_execute (settings : Settings) {c : Code} (ha : c.assigned ⊆ assigned)
    (hd : c.declares ⊆ declared) (m : Machine) :
    Touches assigned declared m (c.execute settings m).machine := by
  induction c generalizing m declared with
  | absent | classDecl | functionDecl | returning => exact .refl m
  | block body ih =>
    exact touches_inScope settings (fun m => ih ha (List.Subset.refl _) m) m
  | expression value =>
    simp only [execute, Stmt.execute]
    split
    · next heval => exact .of_evaluate heval ha
    · next heval => exact .of_evaluate heval ha
  | print keyword value =>
    simp only [execute, Stmt.execute]
    split
    · next heval => exact .of_evaluate heval ha
    · next heval => exact .of_evaluate heval ha
    · next heval => exact .of_evaluate heval ha
  | var n initializer =>
    simp only [execute, Stmt.execute]
    split
    · next hpresent =>
      have hn : n.lexeme ∈ declared := by
        simp only [declares, Stmt.declares, if_pos hpresent] at hd
        exact hd List.mem_cons_self
      split
      · next heval => exact .of_evaluate heval ha
      · next heval => exact (Touches.of_evaluate heval ha).trans (.define _ _ hn)
    · exact .refl m
  | conditional keyword condition thenBranch elseBranch iht ihe =>
    obtain ⟨hcondition, hbranches⟩ := List.append_subset.mp ha
    obtain ⟨hthen, helse⟩ := List.append_subset.mp hbranches
    obtain ⟨hdthen, hdelse⟩ := List.append_subset.mp hd
    simp only [execute, Stmt.execute] at iht ihe ⊢
    split
    · next heval => exact .of_evaluate heval hcondition
    · next v m' heval =>
      have hfirst : Touches assigned declared m m' := .of_evaluate heval hcondition
      split
      · exact hfirst.trans (iht hthen hdthen m')
      · split
        · exact hfirst.trans (ihe helse hdelse m')
        · exact hfirst
  | loop keyword condition body ih =>
    obtain ⟨hcondition, hbody⟩ := List.append_subset.mp ha
    exact touches_repeatWhile hcondition (fun m => ih hbody hd m) settings.rounds m
  | nil => exact .refl m
  | cons s rest ihs ihr =>
    obtain ⟨hs, hrest⟩ := List.append_subset.mp ha
    have hdeclares : (row (s :: rest)).declares = s.declares ++ (row rest).declares :=
      List.flatMap_cons
    rw [hdeclares] at hd
    obtain ⟨hds, hdrest⟩ := List.append_subset.mp hd
    exact Ran.touches_andThen (ihs hs hds m) fun m => ihr hrest hdrest m

end Execution

/-- A unit of a session loses no name of any scope. -/
theorem WorkUnit.names_subset_run (settings : Settings) (unit : WorkUnit) (m : Machine) (i : Nat) :
    m.arena.names i ⊆ (unit.run settings m).machine.arena.names i := by
  rcases unit.run_cases settings m with ⟨hmachine, -⟩ | ⟨program, -, hmachine, -⟩
  · rw [hmachine]
  · rw [hmachine]
    exact (Code.keeps_execute settings (.row program) m).names_subset i

/-- Through a session no name of any scope is lost. -/
theorem pairwise_names_subset_session (settings : Settings) (m : Machine) (units : List WorkUnit)
    (i : Nat) :
    (m :: (session settings m units).map Outcome.machine).Pairwise fun m m' =>
      m.arena.names i ⊆ m'.arena.names i := by
  induction units generalizing m with
  | nil => exact List.pairwise_singleton _ _
  | cons unit rest ih =>
    have hrest := ih (unit.run settings m).machine
    have hfirst := unit.names_subset_run settings m i
    refine List.pairwise_cons.mpr ⟨fun m' hm' => ?_, hrest⟩
    rcases List.mem_cons.mp hm' with rfl | hm'
    · exact hfirst
    · exact hfirst.trans ((List.pairwise_cons.mp hrest).1 m' hm')

/-- A scope other than the current one binds the same names after code as before it. -/
theorem Code.names_eq (settings : Settings) (c : Code) (m : Machine) {i : Nat}
    (hi : (i : Int) ≠ m.current) :
    (c.execute settings m).machine.arena.names i = m.arena.names i := by
  have htouches := c.touches_execute settings (List.Subset.refl _) (List.Subset.refl _) m
  apply Set.Subset.antisymm
  · exact fun x hx => (htouches.touches.arises i x hx).resolve_right fun h => hi h.1
  · exact (c.keeps_execute settings m).names_subset i

/-- Statements touch only what they name. Whatever a statement comes to on a machine, the current
scope, the count of scopes and their parents are as before; every scope but the current one binds
the names that it bound; the current one binds these too, and besides only names of declarations
with an initializer that stand in the statement outside its blocks; and every binding has its
value whose name is neither assigned to in the statement nor, in the current scope, declared by it
in that way. So through a session the globals never shrink, and a block leaves the names that are
bound around it. -/
theorem statements_touch_what_they_name (settings : Settings) (m : Machine) :
    (∀ s : Stmt, let after := (s.execute settings m).machine
      (after.current = m.current ∧ after.arena.depth = m.arena.depth ∧
        after.arena.parents = m.arena.parents) ∧
      (∀ i : Nat, (i : Int) ≠ m.current → after.arena.names i = m.arena.names i) ∧
      (∀ i : Nat, (i : Int) = m.current → m.arena.names i ⊆ after.arena.names i ∧
        after.arena.names i ⊆ m.arena.names i ∪ {x | x ∈ s.declares}) ∧
      (∀ (i : Nat) (x : Text), x ∉ s.assigned → ((i : Int) = m.current → x ∉ s.declares) →
        after.arena.binding? i x = m.arena.binding? i x)) ∧
    (∀ units, (m :: (session settings m units).map Outcome.machine).Pairwise fun m m' =>
      m.arena.names 0 ⊆ m'.arena.names 0) ∧
    (∀ body i, ((Stmt.block body).execute settings m).machine.arena.names i = m.arena.names i) := by
  have htouches (c : Code) := c.touches_execute settings (List.Subset.refl _) (List.Subset.refl _) m
  have hsubset (c : Code) := (c.keeps_execute settings m).names_subset
  refine ⟨fun s => ?_, fun units => pairwise_names_subset_session settings m units 0,
    fun body i => ?_⟩
  · obtain ⟨⟨hcurrent, hparents⟩, harises, hkeeps⟩ := htouches (.statement s)
    have hdepth := congrArg List.length hparents
    rw [Arena.length_parents, Arena.length_parents] at hdepth
    refine ⟨⟨hcurrent, hdepth, hparents⟩, fun i hi => Code.names_eq settings (.statement s) m hi,
      fun i hi => ⟨hsubset (.statement s) i, fun x hx => ?_⟩, hkeeps⟩
    exact (harises i x hx).imp_right And.right
  · apply Set.Subset.antisymm
    · intro x hx
      -- No declaration of a block stands outside it.
      exact ((htouches (.statement (.block body))).touches.arises i x hx).resolve_right
        fun h => List.not_mem_nil h.2
    · exact hsubset (.statement (.block body)) i

end Lox
