/-!
# Procedures

A procedure works on a state and comes to a result, is interrupted, or never ends. An interrupt
leaves the state as it is at that moment, and a procedure that never ends has no outcome at all.

A procedure calls itself in the forms below, which are plain calls by `bind_pure`. A recursion that
is written with them is the same definition wherever it stands; a plain call keeps its position in
the file.
-/

namespace Lox

/-- A procedure on a state that may be interrupted. -/
abbrev Procedure (State Interrupt α : Type) : Type := ExceptT Interrupt (StateT State Option) α

end Lox

namespace Function

variable {State Interrupt α β γ : Type}

/-- A call of the procedure that a family has for an argument. -/
abbrev call (f : α → Lox.Procedure State Interrupt β) (a : α) : Lox.Procedure State Interrupt β :=
  f a >>= pure

/-- A call of the procedure that a family has for two arguments. -/
abbrev call₂ (f : α → β → Lox.Procedure State Interrupt γ) (a : α) (b : β) :
    Lox.Procedure State Interrupt γ :=
  f a b >>= pure

end Function

namespace Lox.Procedure

variable {State Interrupt α β : Type}

/-- A call of a procedure. -/
abbrev call (m : Procedure State Interrupt α) : Procedure State Interrupt α := m >>= pure

/-- A call of a procedure after another one. -/
abbrev after (m : Procedure State Interrupt β) (first : Procedure State Interrupt α) :
    Procedure State Interrupt β :=
  first >>= fun _ => m

/-- The outcome of a procedure started in a state; none if it never ends. -/
def runAt (m : Procedure State Interrupt α) (s : State) : Option (Except Interrupt α × State) :=
  (ExceptT.run m).run s

/-- A procedure goes on with another where it ended, unless it was interrupted. -/
theorem runAt_bind (m : Procedure State Interrupt α) (k : α → Procedure State Interrupt β)
    (s : State) :
    runAt (m >>= k) s = (m.runAt s).bind fun outcome =>
      match outcome with
      | (.ok v, s') => (k v).runAt s'
      | (.error interrupt, s') => some (.error interrupt, s') := by
  change (ExceptT.run m s).bind _ = (ExceptT.run m s).bind _
  congr 1
  funext outcome
  obtain ⟨result, s'⟩ := outcome
  cases result <;> rfl

/-- A procedure whose result is known goes on from there. -/
theorem runAt_bind_ok {m : Procedure State Interrupt α} {v : α} {s s' : State}
    (h : m.runAt s = some (.ok v, s')) (k : α → Procedure State Interrupt β) :
    runAt (m >>= k) s = (k v).runAt s' := by
  rw [runAt_bind, h]
  rfl

/-- An interrupt is passed on. -/
theorem runAt_bind_error {m : Procedure State Interrupt α} {interrupt : Interrupt} {s s' : State}
    (h : m.runAt s = some (.error interrupt, s')) (k : α → Procedure State Interrupt β) :
    runAt (m >>= k) s = some (.error interrupt, s') := by
  rw [runAt_bind, h]
  rfl

/-- An interrupted procedure goes on with what handles the interrupt, in the state at that
moment. -/
theorem runAt_tryCatch_error {m : Procedure State Interrupt α} {interrupt : Interrupt}
    {s s' : State} (h : m.runAt s = some (.error interrupt, s'))
    (handle : Interrupt → Procedure State Interrupt α) :
    runAt (tryCatch m handle) s = (handle interrupt).runAt s' := by
  change (ExceptT.run m s).bind _ = _
  change ExceptT.run m s = _ at h
  rw [h]
  rfl

/-- A procedure with a result has nothing to handle. -/
theorem runAt_tryCatch_ok {m : Procedure State Interrupt α} {v : α} {s s' : State}
    (h : m.runAt s = some (.ok v, s')) (handle : Interrupt → Procedure State Interrupt α) :
    runAt (tryCatch m handle) s = some (.ok v, s') := by
  change (ExceptT.run m s).bind _ = _
  change ExceptT.run m s = _ at h
  rw [h]
  rfl

end Lox.Procedure
