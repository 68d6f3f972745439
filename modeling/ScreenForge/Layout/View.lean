/-
# Views

A screen's layout is a tree of views.  Every component whose type has a rule becomes a view with an
id of its own; a component without one is left out, and the views inside it move up to the nearest
component that has one.  The screen itself is always a view, under a fallback rule if need be.

`place` gives the views of a tree, `index` finds the view of a component name, the first one in
order, and `placing` is the journal: types without a rule, names that occur again, and numbers
that no attribute can hold.  `render` writes the markup.
-/
import ScreenForge.Component.Rule
import ScreenForge.Component.Tree
import ScreenForge.Identifier
import ScreenForge.Journal
import ScreenForge.Kotlin.Literal
import ScreenForge.Markup.Quote

namespace ScreenForge
namespace Layout

open Component (Node Rule Table)
open Journal (Entry)

/-- A component in the layout. -/
structure View where
  type : String
  name : String
  id : String
  rule : Rule
  /-- The attributes that come from properties. -/
  attributes : List (String × String)
  children : List View

/-- The rule of a screen whose type has none. -/
def fallbackRule : Rule where
  tag := "LinearLayout"
  idStem := "screen"
  defaults := [
    ("Width", .text "-2"), ("Height", .text "-2"), ("Orientation", .text "vertical")
  ]
  attributeOf := [
    ("Width", "android:layout_width"), ("Height", "android:layout_height"),
    ("Orientation", "android:orientation")
  ]
  formats := [("Width", .dimension), ("Height", .dimension)]

/-- The attributes of a component under a rule; none at all if a number has no text, which the
journal of placing stops at. -/
def attributesOf (rule : Rule) (properties : List (String × Component.Scalar)) :
    List (String × String) :=
  (rule.attributes? (rule.merged properties)).getD []

mutual

/-- The view of a component under a rule. -/
def place (table : Table) (a : Allocator) (rule : Rule) (node : Node) : View × Allocator :=
  match node with
  | ⟨type, name, properties, children⟩ =>
    let (id, a) := a.next rule.idStem
    let (views, a) := placeAll table a children
    (⟨type, name, id, rule, attributesOf rule properties, views⟩, a)

/-- The views of several components; one without a rule gives those inside it. -/
def placeAll (table : Table) (a : Allocator) : List Node → List View × Allocator
  | [] => ([], a)
  | ⟨type, name, properties, children⟩ :: rest =>
    let (views, a) := match table.lookup type with
      | some rule =>
        let (view, a) := place table a rule ⟨type, name, properties, children⟩
        ([view], a)
      | none => placeAll table a children
    let (others, a) := placeAll table a rest
    (views ++ others, a)

end

/-- The rule of a screen. -/
def screenRule (table : Table) (screen : Node) : Rule :=
  (table.lookup screen.type).getD fallbackRule

/-- The layout of a screen. -/
def ofScreen (table : Table) (a : Allocator) (screen : Node) : View :=
  (place table a (screenRule table screen) screen).1

mutual

/-- The views of a tree, each before those inside it. -/
def View.walk (view : View) : List View :=
  match view with
  | ⟨type, name, id, rule, attributes, children⟩ =>
    ⟨type, name, id, rule, attributes, children⟩ :: View.walkAll children

/-- `walk` over several trees. -/
def View.walkAll : List View → List View
  | [] => []
  | view :: rest => View.walk view ++ View.walkAll rest

end

/-- A component as blocks reach it. -/
structure Ref where
  name : String
  type : String
  viewId : String
  rule : Rule

/-- The components of views by name; a name stands for the first view that has it. -/
def indexOf (views : List View) : List (String × Ref) :=
  views.foldl (fun refs v =>
    if v.name = "" || Assoc.has v.name refs then refs
    else refs ++ [(v.name, ⟨v.name, v.type, v.id, v.rule⟩)]) []

/-- The components of a layout by name. -/
def View.index (view : View) : List (String × Ref) := indexOf view.walk

/-- The note of a component without a rule. -/
def unmapped (type name : String) : Entry :=
  .note (.warning .unmappedComponentType s!"No mapping rule for component type '{type}'"
    (some (if name = "" then type else name)))

/-- The note of a name that occurs again. -/
def duplicate (name : String) : Entry :=
  .note (.warning .duplicateDeclaration
    s!"Duplicate component name '{name}'; blocks bind to the first" (some name))

/-- What placing a component itself adds to the journal, after the names seen before. -/
def placingHere (rule : Rule) (seen : List String) (name : String)
    (properties : List (String × Component.Scalar)) : List Entry :=
  .look .layoutGeneration
    :: ((if name != "" && seen.contains name then [duplicate name] else [])
    ++ (if (rule.attributes? (rule.merged properties)).isNone then [.stop .unboundedNumber]
      else []))

/-- The names seen after a component. -/
def seeName (seen : List String) (name : String) : List String :=
  if name = "" then seen else name :: seen

mutual

/-- The journal of placing a component under a rule, and the names seen then. -/
def placing (table : Table) (seen : List String) (rule : Rule) (node : Node) :
    List Entry × List String :=
  match node with
  | ⟨_, name, properties, children⟩ =>
    let (inside, after) := placingAll table (seeName seen name) children
    (placingHere rule seen name properties ++ inside, after)

/-- The journal of placing several components, and the names seen then. -/
def placingAll (table : Table) (seen : List String) : List Node → List Entry × List String
  | [] => ([], seen)
  | ⟨type, name, properties, children⟩ :: rest =>
    let (entries, seen) := match table.lookup type with
      | some rule => placing table seen rule ⟨type, name, properties, children⟩
      | none =>
        let (inside, seen) := placingAll table seen children
        (unmapped type name :: inside, seen)
    let (others, seen) := placingAll table seen rest
    (entries ++ others, seen)

end

/-- The journal of placing a screen. -/
def placingScreen (table : Table) (screen : Node) : List Entry :=
  (if (table.lookup screen.type).isNone then [unmapped screen.type screen.name] else [])
    ++ (placing table [] (screenRule table screen) screen).1

/-- The first line of the markup. -/
def declaration : String := "<?xml version=\"1.0\" encoding=\"utf-8\"?>"

/-- The namespaces that the root declares. -/
def namespaces : List (String × String) := [
  ("xmlns:android", "http://schemas.android.com/apk/res/android"),
  ("xmlns:tools", "http://schemas.android.com/tools")
]

/-- Lines with something behind the last one. -/
def withTail (tail : String) : List String → List String
  | [] => []
  | [line] => [line ++ tail]
  | line :: rest => line :: withTail tail rest

/-- The opening lines of an element, without its end: one attribute a line. -/
def opening (depth : Nat) (tag : String) (attributes : List (String × String)) : List String :=
  (Kotlin.tab depth ++ "<" ++ tag)
    :: attributes.map fun a => Kotlin.tab (depth + 1) ++ Markup.assignment a.1 a.2

/-- The lines of an element around the lines inside it. -/
def element (depth : Nat) (tag : String) (attributes : List (String × String))
    (inside : List String) : List String :=
  if inside.isEmpty then withTail " />" (opening depth tag attributes)
  else withTail ">" (opening depth tag attributes)
    ++ inside ++ [Kotlin.tab depth ++ "</" ++ tag ++ ">"]

/-- The attribute that holds a view's id. -/
def idAttribute (id : String) : String × String := ("android:id", "@+id/" ++ id)

mutual

/-- The lines of a view at a depth. -/
def View.lines (depth : Nat) (view : View) : List String :=
  match view with
  | ⟨_, _, id, rule, attributes, children⟩ =>
    element depth rule.tag (idAttribute id :: attributes) (View.linesAll (depth + 1) children)

/-- The lines of several views at a depth. -/
def View.linesAll (depth : Nat) : List View → List String
  | [] => []
  | view :: rest => View.lines depth view ++ View.linesAll depth rest

end

/-- The lines of the view of a screen, which declares the namespaces and names the activity. -/
def View.screenLines (activity : String) (view : View) : List String :=
  element 0 view.rule.tag
    (namespaces ++ idAttribute view.id :: view.attributes ++ [("tools:context", "." ++ activity)])
    (View.linesAll 1 view.children)

/-- The markup of a screen. -/
def View.render (activity : String) (view : View) : String :=
  Text.join "\n" (declaration :: view.screenLines activity) ++ "\n"

end Layout
end ScreenForge
