import Lox.Arena

/-!
# Operations on an arena

What can be done with an arena, one operation after the other. Each answers or gives
a reason to stop; one that stops leaves the arena as it is, and others may follow.
-/

namespace Lox

namespace Arena

/-- Something to be done with an arena. -/
inductive Operation where
  /-- A scope is added inside a parent. -/
  | push (parent : Int)
  /-- A scope is released, and with it those that were added after it. -/
  | pop (index : Int)
  /-- A name is bound in a scope. -/
  | define (index : Int) (name : Text) (value : Option Value)
  /-- A name is looked up from a scope outwards. -/
  | get (index : Int) (name : Token)
  /-- A name that is bound gets a new value, seen from a scope. -/
  | assign (index : Int) (name : Token) (value : Option Value)

/-- What an operation answers. -/
inductive Answer where
  /-- It is done. -/
  | done
  /-- The index of the scope that was added. -/
  | index (index : Nat)
  /-- The value that was found or assigned. -/
  | value (value : Option Value)

/-- The answer with the arena that goes with it, or a reason to stop with the arena
as it was. -/
def settle (a : Arena) (answer : Answer) : Except Stop Arena → Except Stop Answer × Arena
  | .ok changed => (.ok answer, changed)
  | .error stop => (.error stop, a)

/-- What an operation answers, and the arena after it. -/
def perform (a : Arena) : Operation → Except Stop Answer × Arena
  | .push parent => (.ok (.index a.depth), a.push parent)
  | .pop index => a.settle .done (a.release index)
  | .define index name value => a.settle .done (a.define index name value)
  | .get index name => ((a.get index name).map .value, a)
  | .assign index name value => a.settle (.value value) (a.assign index name value)

/-- The arena after operations in a row. -/
def performAll (a : Arena) (operations : List Operation) : Arena :=
  operations.foldl (fun b operation => (b.perform operation).2) a

end Arena

end Lox
