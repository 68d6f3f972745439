/-
# What names stand for

Code is written inside an activity whose members are the fields of components, the global
variables and the procedures (`Env`), and inside a scope of parameters, loop variables and local
variables.  A local variable goes by the identifier of its name; a member that a local variable
hides is qualified with the activity.

A variable is global if its name starts with `global `, and local otherwise.
-/
import ScreenForge.Kotlin.Name
import ScreenForge.Layout.View

namespace ScreenForge
namespace Kotlin

/-- The members of an activity. -/
structure Env where
  activity : String
  /-- The components of the layout by name. -/
  components : List (String × Layout.Ref) := []
  /-- The identifiers of global variables. -/
  globals : List (String × String) := []
  /-- The identifiers of procedures. -/
  procedures : List (String × String) := []
  /-- The identifiers of component fields. -/
  fields : List (String × String) := []

/-- The names of visible local variables, innermost first. -/
abbrev Scope := List String

namespace Env

/-- A member, qualified if a local variable hides it. -/
def member (env : Env) (scope : Scope) (name : String) : String :=
  if (scope.map identifier).contains name then "this@" ++ env.activity ++ "." ++ name else name

/-- A component of the layout: its field as a member, and its entry. -/
def component? (env : Env) (scope : Scope) (name : String) : Option (String × Layout.Ref) :=
  (env.components.lookup name).map fun ref =>
    (env.member scope ((env.fields.lookup name).getD ""), ref)

end Env

/-- What stands before the name of a global variable. -/
def globalMark : List Char := "global ".toList

/-- The name of a global variable, if a variable is one. -/
def globalName? (name : String) : Option String :=
  if Text.startsWith name.toList globalMark then
    some (String.ofList (name.toList.drop globalMark.length))
  else none

/-- What a variable stands for. -/
def Env.binding? (env : Env) (scope : Scope) (name : String) : Option String :=
  match globalName? name with
  | some global => (env.globals.lookup global).map (env.member scope)
  | none => if scope.contains name then some (identifier name) else none

/-- A procedure as a member. -/
def Env.procedure? (env : Env) (scope : Scope) (name : String) : Option String :=
  (env.procedures.lookup name).map (env.member scope)

/-- A text, or a word in place of an empty one. -/
def orWord (s word : String) : String := if s = "" then word else s

/-- The accessor of a property: mapped, or the identifier of its name. -/
def accessor (ref : Layout.Ref) (property : String) : String :=
  (ref.rule.accessors.lookup property).getD (identifier (orWord property "property"))

/-- The method of a name: mapped, or the identifier of its name. -/
def methodName (ref : Layout.Ref) (method : String) : String :=
  (ref.rule.methods.lookup method).getD (identifier (orWord method "call"))

end Kotlin
end ScreenForge
