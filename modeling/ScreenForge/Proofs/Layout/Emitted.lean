/-
# The views of a screen

| component | what becomes of it |
| --- | --- |
| the screen | the outermost view, under its rule or the fallback |
| inside, with a rule | a view under that rule |
| inside, without a rule | nothing; what is inside it moves up |
-/
import ScreenForge.Layout.View
import ScreenForge.Proofs.Allocator

namespace ScreenForge

open List

namespace Component

/-- **Induction over trees of components.**  A list of trees is its first tree, a component with a
list of trees inside it, and the others. -/
theorem Node.inductAll {P : List Node → Prop} (nil : P [])
    (cons : ∀ node rest, P node.children → P rest → P (node :: rest)) :
    (nodes : List Node) → P nodes
  | [] => nil
  | ⟨type, name, properties, children⟩ :: rest =>
    cons ⟨type, name, properties, children⟩ rest (inductAll nil cons children)
      (inductAll nil cons rest)

theorem Node.walk_eq (node : Node) : node.walk = node :: walkAll node.children := by
  obtain ⟨type, name, properties, children⟩ := node
  rw [walk]

end Component

namespace Layout

open Component (Node Rule Table)

variable (table : Table) (a : Allocator)

/-- The components among some that have a rule, with it. -/
def mapped (table : Table) (nodes : List Node) : List (Rule × Node) :=
  nodes.filterMap fun node => (table.lookup node.type).map fun rule => (rule, node)

/-- **The components of a screen that become views**, with their rules, in the order of the walk. -/
def emitted (table : Table) (screen : Node) : List (Rule × Node) :=
  (screenRule table screen, screen) :: mapped table (Node.walkAll screen.children)

theorem mapped_walkAll_cons (node : Node) (rest : List Node) :
    mapped table (Node.walkAll (node :: rest))
      = ((table.lookup node.type).map fun rule => (rule, node)).toList
        ++ mapped table (Node.walkAll node.children) ++ mapped table (Node.walkAll rest) := by
  rw [Node.walkAll, Node.walk_eq]
  simp only [mapped, filterMap_append, filterMap_cons]
  cases table.lookup node.type <;> rfl

/-! ### Placing, one component at a time -/

theorem View.walk_eq (view : View) : view.walk = view :: walkAll view.children := by
  obtain ⟨type, name, id, rule, attributes, children⟩ := view
  rw [walk]

/-- The walk over views behind each other is walk behind walk. -/
theorem View.walkAll_append (views others : List View) :
    walkAll (views ++ others) = walkAll views ++ walkAll others := by
  induction views with
  | nil => simp [walkAll]
  | cons view views ih => simp [walkAll, ih]

/-- The view of a component under a rule, once its id and the views inside it are there. -/
def viewOf (rule : Rule) (node : Node) (id : String) (inside : List View) : View :=
  ⟨node.type, node.name, id, rule, attributesOf rule node.properties, inside⟩

theorem place_eq (rule : Rule) (node : Node) : place table a rule node =
      let inside := placeAll table (a.next rule.idStem).2 node.children
      (viewOf rule node (a.next rule.idStem).1 inside.1, inside.2) := by
  obtain ⟨type, name, properties, children⟩ := node
  rw [place]
  rfl

theorem placeAll_of_some {table : Table} {node : Node} {rule : Rule}
    (h : table.lookup node.type = some rule) (rest : List Node) : placeAll table a (node :: rest) =
      let first := place table a rule node
      (first.1 :: (placeAll table first.2 rest).1, (placeAll table first.2 rest).2) := by
  obtain ⟨type, name, properties, children⟩ := node
  rw [placeAll]
  simp only [h]
  rfl

theorem placeAll_of_none {table : Table} {node : Node} (h : table.lookup node.type = none)
    (rest : List Node) : placeAll table a (node :: rest) =
      let inside := placeAll table a node.children
      (inside.1 ++ (placeAll table inside.2 rest).1, (placeAll table inside.2 rest).2) := by
  obtain ⟨type, name, properties, children⟩ := node
  rw [placeAll]
  simp only [h]

section

variable {P : Allocator → List (Rule × Node) → List View → Allocator → Prop}
  (nil : ∀ a, P a [] [] a)
  (cons : ∀ {a rule node inside es b}, P (a.next rule.idStem).2 es (View.walkAll inside) b →
    P a ((rule, node) :: es)
      (viewOf rule node (a.next rule.idStem).1 inside :: View.walkAll inside) b)
  (append : ∀ {a es views b es' views' c}, P a es views b → P b es' views' c →
    P a (es ++ es') (views ++ views') c)
include nil cons append

/-- **Induction over placing**, with the components that become views and the views in the order of
the walk, from an allocator to another one. -/
theorem placeAll_induct (table : Table) (nodes : List Node) (a : Allocator) :
    P a (mapped table (Node.walkAll nodes)) (View.walkAll (placeAll table a nodes).1)
      (placeAll table a nodes).2 := by
  induction nodes using Node.inductAll generalizing a with
  | nil => simpa [placeAll, View.walkAll, mapped, Node.walkAll] using nil a
  | cons node rest inside others =>
    rw [mapped_walkAll_cons]
    cases h : table.lookup node.type with
    | none =>
      rw [placeAll_of_none a h, View.walkAll_append]
      exact append (inside a) (others _)
    | some rule =>
      rw [placeAll_of_some a h, View.walkAll, place_eq, View.walk_eq]
      exact append (cons (inside _)) (others _)

/-- What a layout does to an allocator, by induction over placing. -/
theorem ofScreen_induct (table : Table) (screen : Node) (a : Allocator) :
    P a (emitted table screen) (ofScreen table a screen).walk
      (place table a (screenRule table screen) screen).2 := by
  rw [ofScreen, place_eq, View.walk_eq]
  exact cons (placeAll_induct nil cons append table screen.children _)

end

/-! ### Which views there are -/

/-- What a view shows of its component: the rule, the type, the name and the attributes. -/
def View.origin (view : View) : Rule × String × String × List (String × String) :=
  (view.rule, view.type, view.name, view.attributes)

/-- What a view of a component under a rule shows of it. -/
def originOf (e : Rule × Node) : Rule × String × String × List (String × String) :=
  (e.1, e.2.type, e.2.name, attributesOf e.1 e.2.properties)

/-- **The views of a layout are the components that become views, one by one.** -/
theorem map_origin_walk (screen : Node) :
    (ofScreen table a screen).walk.map View.origin = (emitted table screen).map originOf :=
  ofScreen_induct (P := fun _ es views _ => views.map View.origin = es.map originOf)
    (fun _ => rfl) (congrArg (_ :: ·)) (fun h h' => by rw [map_append, map_append, h, h'])
    table screen a

/-! ### Which view a name stands for -/

/-- What blocks know of a view. -/
def View.ref (view : View) : Ref := ⟨view.name, view.type, view.id, view.rule⟩

/-- Of views with one name the first is found; none without a name is. -/
theorem lookup_foldl_index (views : List View) (refs : List (String × Ref)) (name : String) :
    (views.foldl (fun refs v => if v.name = "" || Assoc.has v.name refs then refs
      else refs ++ [(v.name, v.ref)]) refs).lookup name
      = (refs.lookup name).or (if name = "" then none
        else (views.find? fun v => v.name == name).map View.ref) := by
  induction views generalizing refs with
  | nil => simp
  | cons v views ih =>
    rw [foldl_cons, ih, List.find?_cons]
    by_cases hv : v.name = name
    · subst hv
      by_cases hempty : v.name = ""
      · simp [hempty]
      · -- the view is the first of its name exactly if the name is not there yet
        rw [← Assoc.isSome_lookup_eq_has]
        cases hrefs : refs.lookup v.name <;> simp [hempty, hrefs, lookup_append]
    · have hne : (name == v.name) = false := by simpa using fun h => hv h.symm
      have hstep : (if v.name = "" || Assoc.has v.name refs then refs
          else refs ++ [(v.name, v.ref)]).lookup name = refs.lookup name := by
        split
        · rfl
        · simp [lookup_append, lookup_cons, hne]
      rw [hstep, beq_eq_false_iff_ne.2 hv]

/-- **A name stands for the first view that has it.** -/
theorem lookup_index (view : View) {name : String} (h : name ≠ "") :
    view.index.lookup name = (view.walk.find? fun v => v.name == name).map View.ref := by
  have := lookup_foldl_index view.walk [] name
  rw [if_neg h] at this
  exact this

end Layout
end ScreenForge
