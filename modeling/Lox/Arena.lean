import Lox.Stop

/-!
# The arena of scopes

Scopes live in an arena and are addressed by index. Each has a parent, so that a
name is looked up from a scope outwards along the parents until a scope binds it;
the index minus one stands for no scope. New scopes are added at the end, and
releasing a scope releases all that were added after it.
-/

namespace Lox

/-- The names that one scope binds, in the order they were first bound. -/
abbrev Bindings := List (Text × Option Value)

namespace Bindings

/-- What a name is bound to. -/
def find? (name : Text) : Bindings → Option (Option Value)
  | [] => none
  | (n, v) :: rest => if n = name then some v else find? name rest

/-- The bindings with a name bound anew. -/
def insert (name : Text) (value : Option Value) : Bindings → Bindings
  | [] => [(name, value)]
  | (n, v) :: rest => if n = name then (n, value) :: rest else (n, v) :: insert name value rest

/-- A name bound anew has its new value, and every other name its old one. -/
theorem find?_insert (x y : Text) (value : Option Value) (b : Bindings) :
    find? y (insert x value b) = if x = y then some value else find? y b := by
  induction b with
  | nil => simp only [insert, find?]
  | cons head rest ih =>
    obtain ⟨n, v⟩ := head
    by_cases hx : n = x
    · subst hx
      by_cases hy : n = y <;> simp [insert, find?, hy]
    · by_cases hy : n = y
      · subst hy
        simp [insert, find?, hx, Ne.symm hx]
      · simp [insert, find?, hx, hy, ih]

end Bindings

/-- A scope. -/
structure Scope where
  /-- The names it binds. -/
  bindings : Bindings
  /-- The index of the scope around it, or minus one. -/
  parent : Int
  deriving DecidableEq

/-- The scopes that exist, by index. -/
structure Arena where
  /-- The scopes in the order of their indices. -/
  scopes : List Scope
  deriving DecidableEq

/-- The outcome of looking a name up along the parents. -/
inductive Resolution where
  /-- The first scope that binds the name, and what it is bound to. -/
  | found (index : Nat) (value : Option Value)
  /-- No scope on the way binds the name. -/
  | unbound
  /-- The way leads to a scope that does not exist. -/
  | outside
  /-- The way has no end. -/
  | endless
  deriving DecidableEq

namespace Arena

/-- The index that stands for no scope. -/
def noScope : Int := -1

/-- The arena with the global scope only. -/
def new : Arena := ⟨[⟨[], noScope⟩]⟩

/-- How many scopes there are. -/
def depth (a : Arena) : Nat := a.scopes.length

/-- The scope at an index. -/
def scope? (a : Arena) (index : Int) : Option Scope :=
  if index < 0 then none else a.scopes[index.toNat]?

/-- The arena with one more scope, which gets the next index. -/
def push (a : Arena) (parent : Int) : Arena := ⟨a.scopes ++ [⟨[], parent⟩]⟩

/-- One more scope makes the arena one deeper. -/
theorem depth_push (a : Arena) (parent : Int) : (a.push parent).depth = a.depth + 1 := by
  simp only [depth, push, List.length_append, List.length_cons, List.length_nil]

/-- The arena without the scope at an index and those added after it. -/
def pop (a : Arena) (index : Nat) : Arena := ⟨a.scopes.take index⟩

/-- Releasing a scope just added restores the arena. -/
theorem pop_push (a : Arena) (parent : Int) : (a.push parent).pop a.depth = a := by
  simp only [pop, push, depth, List.take_left]

/-- The arena with a name bound in the scope at an index. -/
def bind (a : Arena) (index : Nat) (name : Text) (value : Option Value) : Arena :=
  ⟨a.scopes.modify index fun s => { s with bindings := s.bindings.insert name value }⟩

/-- Binding a name adds no scope. -/
theorem depth_bind (a : Arena) (index : Nat) (name : Text) (value : Option Value) :
    (a.bind index name value).depth = a.depth := by
  simp only [depth, bind, List.length_modify]

/-- The scope that binds a name, looked for along the parents over a bounded
count of scopes. -/
def resolveWithin (a : Arena) (name : Text) : Nat → Int → Resolution
  | 0, index => if index = noScope then .unbound else .endless
  | steps + 1, index =>
    if index = noScope then .unbound
    else match a.scope? index with
      | none => .outside
      | some s =>
        match s.bindings.find? name with
        | some value => .found index.toNat value
        | none => resolveWithin a name steps s.parent

/-- The scope that binds a name, looked for from a scope outwards. A way that
visits more scopes than there are comes back to one of them and never ends. -/
def resolve (a : Arena) (index : Int) (name : Text) : Resolution :=
  a.resolveWithin name (a.depth + 1) index

/-- What a name is bound to, seen from a scope. -/
def get (a : Arena) (index : Int) (name : Token) : Except Stop (Option Value) :=
  match a.resolve index name.lexeme with
  | .found _ value => .ok value
  | .unbound => .error (.error (RuntimeCause.at (.undefinedVariable name.lexeme) name))
  | .outside => .error (.fault .noSuchScope)
  | .endless => .error .unfinished

/-- The arena with a new value for a name that is bound, seen from a scope. -/
def assign (a : Arena) (index : Int) (name : Token) (value : Option Value) : Except Stop Arena :=
  match a.resolve index name.lexeme with
  | .found i _ => .ok (a.bind i name.lexeme value)
  | .unbound => .error (.error (RuntimeCause.at (.undefinedVariable name.lexeme) name))
  | .outside => .error (.fault .noSuchScope)
  | .endless => .error .unfinished

/-- The arena with a name bound in a scope that has to exist. -/
def define (a : Arena) (index : Int) (name : Text) (value : Option Value) : Except Stop Arena :=
  match a.scope? index with
  | some _ => .ok (a.bind index.toNat name value)
  | none => .error (.fault .noSuchScope)

/-- The arena without a scope and those after it; the index may be at most the
count of scopes. -/
def release (a : Arena) (index : Int) : Except Stop Arena :=
  if 0 ≤ index && index ≤ a.depth then .ok (a.pop index.toNat) else .error (.fault .noSuchScope)

end Arena

end Lox
