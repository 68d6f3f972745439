/-
# The elements of a layout

The markup of a layout is a run of marks: an element opens with its attributes, and one that has
something inside it closes behind that.  The elements of the markup are the marks that open one.
-/
import ScreenForge.Proofs.Collect
import ScreenForge.Proofs.Layout.Emitted

namespace ScreenForge

open List

namespace Component

/-- Whether no property of a rule is given to the attribute that holds the id. -/
def Rule.KeepsId (rule : Rule) : Prop := ∀ entry ∈ rule.attributeOf, entry.2 ≠ "android:id"

/-- A rule that keeps the id writes no attribute in its place. -/
theorem Rule.KeepsId.ne_of_mem {rule : Rule} (h : rule.KeepsId)
    {properties : List (String × Scalar)} {attributes : List (String × String)}
    (hattributes : rule.attributes? (rule.merged properties) = some attributes) :
    ∀ a ∈ attributes, a.1 ≠ "android:id" := by
  intro a ha
  have hmem : some a ∈ rule.attributeOf.filterMap (rule.mapped? (rule.merged properties)) := by
    rw [mapM_id_eq_some_iff.1 hattributes]
    exact mem_map_of_mem ha
  obtain ⟨entry, hentry, heq⟩ := mem_filterMap.1 hmem
  obtain ⟨value, -, heq⟩ := Option.map_eq_some_iff.1 heq
  obtain ⟨text, -, rfl⟩ := Option.map_eq_some_iff.1 heq
  exact h entry hentry

end Component

namespace Layout

open Component (Node Rule Table)

variable {table : Table} {screen : Node} (activity : String) (views : List View) (depth : Nat)
  (view : View)

/-! ### Marks -/

/-- A tag with its attributes. -/
abbrev Opening := String × List (String × String)

/-- A mark of the markup at a depth. -/
inductive Mark where
  /-- An element without anything inside it. -/
  | empty (depth : Nat) (opened : Opening)
  /-- The beginning of an element. -/
  | opens (depth : Nat) (opened : Opening)
  /-- The end of an element. -/
  | closes (depth : Nat) (tag : String)
  deriving DecidableEq, Repr

/-- The lines of a mark. -/
def Mark.lines : Mark → List String
  | .empty depth opened => withTail " />" (opening depth opened.1 opened.2)
  | .opens depth opened => withTail ">" (opening depth opened.1 opened.2)
  | .closes depth tag => [Kotlin.tab depth ++ "</" ++ tag ++ ">"]

/-- The element that begins with a mark. -/
def Mark.opened? : Mark → Option Opening
  | .empty _ opened => some opened
  | .opens _ opened => some opened
  | .closes _ _ => none

/-- The marks of an element around the marks inside it. -/
def enclose (depth : Nat) (opened : Opening) (inside : List Mark) : List Mark :=
  if inside.isEmpty then [.empty depth opened]
  else .opens depth opened :: (inside ++ [.closes depth opened.1])

/-- The element of a view. -/
def View.opened (view : View) : Opening :=
  (view.rule.tag, idAttribute view.id :: view.attributes)

/-- The element of the view of a screen. -/
def View.openedScreen (activity : String) (view : View) : Opening :=
  (view.rule.tag,
    namespaces ++ idAttribute view.id :: view.attributes ++ [("tools:context", "." ++ activity)])

mutual

/-- The marks of a view at a depth. -/
def View.marks (depth : Nat) (view : View) : List Mark :=
  match view with
  | ⟨type, name, id, rule, attributes, children⟩ =>
    enclose depth (View.opened ⟨type, name, id, rule, attributes, children⟩)
      (View.marksAll (depth + 1) children)

/-- The marks of several views at a depth. -/
def View.marksAll (depth : Nat) : List View → List Mark
  | [] => []
  | view :: rest => View.marks depth view ++ View.marksAll depth rest

end

/-- The marks of the view of a screen. -/
def View.screenMarks (activity : String) (view : View) : List Mark :=
  enclose 0 (view.openedScreen activity) (View.marksAll 1 view.children)

/-- The markup of a declaration and marks. -/
def markup (marks : List Mark) : String :=
  Text.join "\n" (declaration :: marks.flatMap Mark.lines) ++ "\n"

/-- **The elements of a layout**, in the order in which they open. -/
def View.elements (activity : String) (view : View) : List Opening :=
  (view.screenMarks activity).filterMap Mark.opened?

/-- **Induction over trees of views.** -/
theorem View.inductAll {P : List View → Prop} (nil : P [])
    (cons : ∀ view rest, P view.children → P rest → P (view :: rest)) :
    (views : List View) → P views
  | [] => nil
  | ⟨type, name, id, rule, attributes, children⟩ :: rest =>
    cons ⟨type, name, id, rule, attributes, children⟩ rest (inductAll nil cons children)
      (inductAll nil cons rest)

theorem View.marks_eq :
    view.marks depth = enclose depth view.opened (marksAll (depth + 1) view.children) := by
  obtain ⟨type, name, id, rule, attributes, children⟩ := view
  rw [marks]

theorem View.lines_eq : view.lines depth = element depth view.opened.1 view.opened.2
      (linesAll (depth + 1) view.children) := by
  obtain ⟨type, name, id, rule, attributes, children⟩ := view
  rw [lines]
  rfl

/-! ### The markup is its marks -/

theorem Mark.lines_ne_nil (mark : Mark) : mark.lines ≠ [] := by
  have hopening : ∀ depth (opened : Opening) tail,
      withTail tail (opening depth opened.1 opened.2) ≠ [] := by
    intro depth opened tail
    unfold opening
    cases opened.2 <;> simp [withTail]
  cases mark with
  | empty depth opened | opens depth opened => exact hopening _ _ _
  | closes depth tag => exact cons_ne_nil _ _

theorem lines_enclose (opened : Opening) (inside : List Mark) :
    (enclose depth opened inside).flatMap Mark.lines
      = element depth opened.1 opened.2 (inside.flatMap Mark.lines) := by
  unfold enclose element
  cases inside with
  | nil => simp [Mark.lines]
  | cons mark rest =>
    have hne : ((mark :: rest).flatMap Mark.lines).isEmpty = false := by
      simp [Mark.lines_ne_nil]
    rw [hne]
    simp [Mark.lines]

/-- The marks of views stand on the lines that are written. -/
theorem lines_marksAll :
    (View.marksAll depth views).flatMap Mark.lines = View.linesAll depth views := by
  induction views using View.inductAll generalizing depth with
  | nil => simp [View.marksAll, View.linesAll]
  | cons view rest inside others =>
    rw [View.marksAll, View.linesAll, flatMap_append, others, View.marks_eq, lines_enclose,
      inside, View.lines_eq]

/-- **The markup of a layout is a declaration and the lines of its marks.** -/
theorem render_eq : view.render activity = markup (view.screenMarks activity) := by
  rw [markup, View.screenMarks, lines_enclose, lines_marksAll]
  rfl

/-! ### The elements are the views -/

theorem opened_enclose (opened : Opening) (inside : List Mark) :
    (enclose depth opened inside).filterMap Mark.opened?
      = opened :: inside.filterMap Mark.opened? := by
  unfold enclose
  split
  · next h =>
    rw [List.isEmpty_iff.1 h]
    rfl
  · have hfirst : (Mark.opens depth opened).opened? = some opened := rfl
    have hlast : [Mark.closes depth opened.1].filterMap Mark.opened? = [] := rfl
    rw [filterMap_cons_some hfirst, filterMap_append, hlast, append_nil]

/-- The marks that open an element are the views in the order of the walk. -/
theorem opened_marksAll : (View.marksAll depth views).filterMap Mark.opened?
      = (View.walkAll views).map View.opened := by
  induction views using View.inductAll generalizing depth with
  | nil => simp [View.marksAll, View.walkAll]
  | cons view rest inside others =>
    rw [View.marksAll, View.walkAll, filterMap_append, map_append, others,
      View.marks_eq, opened_enclose, inside, View.walk_eq, map_cons]

/-- **The elements of a layout are its views.** -/
theorem elements_eq : view.elements activity
      = view.openedScreen activity :: (View.walkAll view.children).map View.opened := by
  rw [View.elements, View.screenMarks, opened_enclose, opened_marksAll]

/-! ### Ids -/

/-- The ids of an element. -/
def Opening.ids (opened : Opening) : List String :=
  (opened.2.filter fun a => a.1 == "android:id").map Prod.snd

/-- An id as it stands in the markup. -/
def idText (id : String) : String := "@+id/" ++ id

/-- The table gives the id of a view to no property. -/
def KeepsIds (table : Table) : Prop := ∀ entry ∈ table, entry.2.KeepsId

theorem keepsId_fallbackRule : fallbackRule.KeepsId := by
  intro entry hentry
  have hall : fallbackRule.attributeOf.all fun e => e.2 != "android:id" := by decide
  exact bne_iff_ne.1 (all_eq_true.1 hall entry hentry)

/-- What holds of the rules of a table and of the fallback holds of all rules in use. -/
theorem forall_rule_emitted {P : Rule → Prop} (h : ∀ entry ∈ table, P entry.2)
    (hfallback : P fallbackRule) : ∀ e ∈ emitted table screen, P e.1 := by
  have hlookup : ∀ {type rule}, table.lookup type = some rule → P rule :=
    fun hl => h _ (Assoc.mem_of_lookup hl)
  intro e he
  rcases mem_cons.1 he with rfl | he
  · show P (screenRule table screen)
    unfold screenRule
    cases hl : table.lookup screen.type with
    | none => exact hfallback
    | some rule => exact hlookup hl
  · obtain ⟨node, -, heq⟩ := mem_filterMap.1 he
    obtain ⟨rule, hl, rfl⟩ := Option.map_eq_some_iff.1 heq
    exact hlookup hl

/-- A view shows a component that became one. -/
theorem exists_origin_of_mem_walk {a : Allocator} {view : View}
    (h : view ∈ (ofScreen table a screen).walk) : ∃ e ∈ emitted table screen, view.rule = e.1 ∧
      view.attributes = attributesOf e.1 e.2.properties := by
  have horigin := mem_map_of_mem (f := View.origin) h
  rw [map_origin_walk] at horigin
  obtain ⟨e, he, heq⟩ := mem_map.1 horigin
  exact ⟨e, he, (congrArg Prod.fst heq).symm, (congrArg (fun o => o.2.2.2) heq).symm⟩

/-- No view of a layout has an attribute in place of its id. -/
theorem ne_of_mem_attributes (h : KeepsIds table) {a : Allocator} {view : View}
    (hview : view ∈ (ofScreen table a screen).walk) :
    ∀ c ∈ view.attributes, c.1 ≠ "android:id" := by
  obtain ⟨e, he, -, hattributes⟩ := exists_origin_of_mem_walk hview
  rw [hattributes, attributesOf]
  cases hsome : e.1.attributes? (e.1.merged e.2.properties) with
  | none => exact fun c hc => absurd hc not_mem_nil
  | some attributes =>
    exact (forall_rule_emitted h keepsId_fallbackRule e he).ne_of_mem hsome

/-- An element has one id, that of its view. -/
theorem View.ids_opened {view : View} (h : ∀ c ∈ view.attributes, c.1 ≠ "android:id") :
    view.opened.ids = [idText view.id] := by
  have hid : [idAttribute view.id].filter (fun c => c.1 == "android:id")
      = [idAttribute view.id] := by
    simp [idAttribute]
  rw [Opening.ids, View.opened, ← singleton_append, filter_append, hid,
    filter_eq_nil_iff.2 fun c hc => by simpa using h c hc]
  rfl

/-- The screen has more attributes than its view, but no more ids. -/
theorem View.ids_openedScreen : (view.openedScreen activity).ids = view.opened.ids := by
  have hnamespaces : namespaces.filter (fun c => c.1 == "android:id") = [] := by decide
  have hcontext : [("tools:context", "." ++ activity)].filter
      (fun c => c.1 == "android:id") = [] := by simp
  rw [Opening.ids, View.openedScreen, filter_append, filter_append, hnamespaces, hcontext,
    nil_append, append_nil]
  rfl

/-- **Every element has the tag and the id of its view.** -/
theorem map_ids_elements (h : KeepsIds table) (a : Allocator) (screen : Node) (activity : String) :
    ((ofScreen table a screen).elements activity).map (fun opened => (opened.1, opened.ids))
      = (ofScreen table a screen).walk.map fun view => (view.rule.tag, [idText view.id]) := by
  have hids : ∀ view ∈ (ofScreen table a screen).walk, view.opened.ids = [idText view.id] :=
    fun view hview => View.ids_opened (ne_of_mem_attributes h hview)
  generalize ofScreen table a screen = root at hids
  rw [View.walk_eq] at hids ⊢
  obtain ⟨hroot, hinside⟩ := forall_mem_cons.1 hids
  rw [elements_eq, map_cons, map_cons, map_map, View.ids_openedScreen, hroot]
  refine congrArg (_ :: ·) (map_congr_left fun view hview => ?_)
  exact congrArg (Prod.mk _) (hinside view hview)

end Layout
end ScreenForge
