/-
# Log contexts

While a scope is open, its bindings are part of every log message.  Entering a scope binds its
keys, over what is bound around it; leaving it unbinds them.
-/
import ScreenForge.Assoc

namespace ScreenForge
namespace LogContext

/-- Keys with the values bound to them now. -/
abbrev Bindings (α : Type) := List (String × α)

/-- A scope: what it binds, and the scopes inside it. -/
structure Scope (α : Type) where
  bindings : Bindings α
  inner : List (Scope α) := []

/-- A scope is entered or left. -/
inductive Move where
  | entered
  | left
  deriving DecidableEq, Repr

/-- Binds keys. -/
def enter {α : Type} (new bound : Bindings α) : Bindings α :=
  new.foldl (fun b e => Assoc.put e.1 e.2 b) bound

/-- Unbinds keys. -/
def leave {α : Type} (names : List String) (bound : Bindings α) : Bindings α :=
  bound.filter fun e => !names.contains e.1

mutual

/-- What is bound after a scope has been left. -/
def after {α : Type} (bound : Bindings α) (scope : Scope α) : Bindings α :=
  match scope with
  | ⟨bindings, inner⟩ => leave (Assoc.keys bindings) (afterAll (enter bindings bound) inner)

/-- What is bound after scopes have been left. -/
def afterAll {α : Type} (bound : Bindings α) : List (Scope α) → Bindings α
  | [] => bound
  | s :: rest => afterAll (after bound s) rest

end

mutual

/-- What is bound after each move of a scope. -/
def moves {α : Type} (bound : Bindings α) (scope : Scope α) : List (Move × Bindings α) :=
  match scope with
  | ⟨bindings, inner⟩ =>
    (.entered, enter bindings bound) :: movesAll (enter bindings bound) inner
      ++ [(.left, leave (Assoc.keys bindings) (afterAll (enter bindings bound) inner))]

/-- What is bound after each move of scopes. -/
def movesAll {α : Type} (bound : Bindings α) : List (Scope α) → List (Move × Bindings α)
  | [] => []
  | s :: rest => moves bound s ++ movesAll (after bound s) rest

end

/-- Bindings in the order of their keys. -/
def sorted {α : Type} (bound : Bindings α) : Bindings α := bound.mergeSort fun a b => a.1 ≤ b.1

end LogContext
end ScreenForge
