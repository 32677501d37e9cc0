import Mathlib.Data.Finmap
import Lox.Proofs.Semantics.Frames

/-!
# Environments

What the scopes of a chain hold, apart from how they hold it: frames inside one another, each a
finite map from names to values. A name belongs to the innermost frame that holds it. A machine
holds an environment if its arena is a chain with the bindings of the frames and its scope is the
innermost; looking names up, assigning to them and binding them then does the same on both.
-/

namespace Lox

/-- What a frame binds: a finite map from names to values. -/
abbrev Frame := Finmap fun _ : Text => Option Value

/-- The frames around a place in a program, from the innermost outwards; there is at least one. -/
inductive Environment where
  /-- The globals alone. -/
  | globals (frame : Frame)
  /-- A frame inside others. -/
  | inner (frame : Frame) (outer : Environment)

namespace Environment

/-- What a name is bound to in the first frame that holds it. -/
def lookup (name : Text) : Environment → Option (Option Value)
  | globals b => b.lookup name
  | inner b outer =>
    match b.lookup name with
    | some value => some value
    | none => outer.lookup name

/-- The frames with a new value for a name in the first frame that holds it. -/
def assign? (name : Text) (value : Option Value) : Environment → Option Environment
  | globals b =>
    match b.lookup name with
    | some _ => some (globals (b.insert name value))
    | none => none
  | inner b outer =>
    match b.lookup name with
    | some _ => some (inner (b.insert name value) outer)
    | none => (outer.assign? name value).map (inner b)

/-- The frames with a name bound in the first frame. -/
def define (name : Text) (value : Option Value) : Environment → Environment
  | globals b => globals (b.insert name value)
  | inner b outer => inner (b.insert name value) outer

/-- How many frames there are around the innermost. -/
def index : Environment → Nat
  | globals _ => 0
  | inner _ outer => outer.index + 1

/-- Binding a name leaves the count of frames. -/
theorem index_define (name : Text) (value : Option Value) (g : Environment) :
    (g.define name value).index = g.index := by
  cases g <;> rfl

/-- Assigning to a name leaves the count of frames. -/
theorem index_assign? {name : Text} {value : Option Value} {g g' : Environment}
    (h : g.assign? name value = some g') : g'.index = g.index := by
  induction g generalizing g' with
  | globals b =>
    rw [assign?] at h
    cases hfind : b.lookup name with
    | none =>
      rw [hfind] at h
      cases h
    | some old =>
      rw [hfind] at h
      cases h
      rfl
  | inner b outer ih =>
    rw [assign?] at h
    cases hfind : b.lookup name with
    | none =>
      rw [hfind] at h
      obtain ⟨assigned, hassigned, rfl⟩ := Option.map_eq_some_iff.mp h
      exact congrArg (· + 1) (ih hassigned)
    | some old =>
      rw [hfind] at h
      cases h
      rfl

/-- Frames of more than one are a frame inside others. -/
theorem exists_inner {g : Environment} {n : Nat} (h : g.index = n + 1) :
    ∃ b outer, g = inner b outer ∧ outer.index = n := by
  cases g with
  | globals b => cases h
  | inner b outer => exact ⟨b, outer, rfl, Nat.succ.inj h⟩

end Environment

namespace Bindings

/-- The finite map that bindings stand for; where a name stands twice, the first counts. -/
def frame : Bindings → Frame
  | [] => ∅
  | (name, value) :: rest => (frame rest).insert name value

/-- A name has the same value in bindings and in their finite map. -/
theorem lookup_frame (b : Bindings) (name : Text) : b.frame.lookup name = b.find? name := by
  induction b with
  | nil => exact Finmap.lookup_empty name
  | cons head rest ih =>
    obtain ⟨n, v⟩ := head
    rw [frame, find?]
    by_cases hn : n = name
    · subst hn
      rw [Finmap.lookup_insert, if_pos rfl]
    · rw [Finmap.lookup_insert_of_ne _ (Ne.symm hn), if_neg hn, ih]

/-- Binding a name in bindings binds it in their finite map. -/
theorem frame_insert (b : Bindings) (name : Text) (value : Option Value) :
    (b.insert name value).frame = b.frame.insert name value := by
  refine Finmap.ext_lookup fun y => ?_
  rw [lookup_frame, find?_insert]
  by_cases hy : name = y
  · subst hy
    rw [if_pos rfl, Finmap.lookup_insert]
  · rw [if_neg hy, Finmap.lookup_insert_of_ne _ (Ne.symm hy), lookup_frame]

end Bindings

namespace Frames

/-- What the scopes of a chain hold. -/
def environment : Frames → Environment
  | globals b => .globals b.frame
  | inner b outer => .inner b.frame outer.environment

/-- A chain has as many scopes as there are frames. -/
theorem index_environment (f : Frames) : f.environment.index = f.index := by
  induction f with
  | globals b => rfl
  | inner b outer ih => exact congrArg (· + 1) ih

/-- A name has the same value in a chain and in what it holds. -/
theorem lookup_environment (f : Frames) (name : Text) :
    f.environment.lookup name = f.lookup name := by
  induction f with
  | globals b => exact b.lookup_frame name
  | inner b outer ih =>
    rw [environment, Environment.lookup, lookup, b.lookup_frame]
    cases b.find? name with
    | none => exact ih
    | some value => rfl

/-- A name is assigned to in a chain as in what it holds. -/
theorem assign?_environment (f : Frames) (name : Text) (value : Option Value) :
    f.environment.assign? name value = (f.assign? name value).map environment := by
  induction f with
  | globals b =>
    rw [environment, Environment.assign?, assign?, b.lookup_frame]
    cases b.find? name with
    | none => rfl
    | some old =>
      rw [Option.map_some, environment, Bindings.frame_insert]
  | inner b outer ih =>
    rw [environment, Environment.assign?, assign?, b.lookup_frame, ih]
    cases b.find? name with
    | none =>
      dsimp only
      rw [Option.map_map, Option.map_map]
      rfl
    | some old =>
      rw [Option.map_some, environment, Bindings.frame_insert]

/-- Different frames make different chains. -/
theorem scopes_injective : Function.Injective scopes := by
  intro f
  induction f with
  | globals b =>
    intro f' h
    cases f' with
    | globals b' =>
      obtain ⟨hscope, -⟩ := List.cons.inj h
      rw [(Scope.mk.inj hscope).1]
    | inner b' outer' =>
      have hlength := congrArg List.length h
      rw [length_scopes, length_scopes] at hlength
      cases hlength
  | inner b outer ih =>
    intro f' h
    cases f' with
    | globals b' =>
      have hlength := congrArg List.length h
      rw [length_scopes, length_scopes] at hlength
      cases hlength
    | inner b' outer' =>
      obtain ⟨houter, hlast⟩ := List.append_inj' h rfl
      obtain ⟨hscope, -⟩ := List.cons.inj hlast
      rw [(Scope.mk.inj hscope).1, ih houter]

/-- A name is bound in a chain as in what it holds. -/
theorem environment_define (f : Frames) (name : Text) (value : Option Value) :
    (f.define name value).environment = f.environment.define name value := by
  cases f with
  | globals b => rw [define, environment, environment, Environment.define, b.frame_insert]
  | inner b outer => rw [define, environment, environment, Environment.define, b.frame_insert]

end Frames

/-- A machine holds an environment: its arena is a chain of scopes that bind what the frames do,
and its current scope is the innermost. -/
def Machine.Holds (m : Machine) (g : Environment) : Prop :=
  ∃ f : Frames, m = f.machine ∧ f.environment = g

namespace Machine.Holds

variable {m : Machine} {g g' : Environment}

/-- A new machine holds globals that bind nothing. -/
theorem new : Machine.new.Holds (.globals ∅) := ⟨.globals [], rfl, rfl⟩

/-- A machine holds one environment only. -/
theorem unique (h : m.Holds g) (h' : m.Holds g') : g = g' := by
  obtain ⟨f, rfl, rfl⟩ := h
  obtain ⟨f', hmachine, rfl⟩ := h'
  obtain ⟨harena, -⟩ := Machine.mk.inj hmachine
  rw [Frames.scopes_injective (Arena.mk.inj harena)]

end Machine.Holds

end Lox
