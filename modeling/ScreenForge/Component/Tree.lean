/-
# Component trees

A screen is a tree of components.  A component has a type, a name (empty if blocks cannot refer to
it), properties in order with distinct names, and the components inside it.
-/
import ScreenForge.Component.Scalar

namespace ScreenForge
namespace Component

/-- A component and those inside it. -/
structure Node where
  type : String
  name : String
  properties : List (String × Scalar) := []
  children : List Node := []

namespace Node

mutual

/-- The components of a tree, each before those inside it. -/
def walk (node : Node) : List Node :=
  match node with
  | ⟨type, name, properties, children⟩ => ⟨type, name, properties, children⟩ :: walkAll children

/-- `walk` over several trees. -/
def walkAll : List Node → List Node
  | [] => []
  | node :: rest => walk node ++ walkAll rest

end

mutual

/-- The number of steps from a component to the deepest one inside it. -/
def height (node : Node) : Nat :=
  match node with
  | ⟨_, _, _, children⟩ => heightAll children

/-- One more than the greatest height of several trees, zero without any. -/
def heightAll : List Node → Nat
  | [] => 0
  | node :: rest => max (height node + 1) (heightAll rest)

end

end Node
end Component
end ScreenForge
