/-
# Where elements and components stand

An address leads to a place in a tree: it is the list of turns to take, where a turn is the number
of siblings passed by.  An address is a part in front of another one if its place is around the
other, and addresses in dictionary order are places in the order of the walk.

A component without a rule disappears, and those inside it move up, so addresses change.  But what
is around what does not, nor does the order: this is `Matches`.
-/
import Mathlib.Data.List.Lex
import ScreenForge.Proofs.Layout.Element

namespace ScreenForge

open List

/-! ### Addresses -/

/-- A place in a tree, from the outermost turn to the innermost. -/
abbrev Address := List Nat

namespace Address

variable {pairs : List (Address × Address)} {x y : Address × Address} (p : Address) {turn : Nat}

/-- The dictionary order: a place comes before those inside it and behind those of earlier turns. -/
def Precedes (p q : Address) : Prop := List.Lex (· < ·) p q

theorem precedes_inside (turn : Nat) (rest : Address) : Precedes p (p ++ turn :: rest) := by
  have h := List.Lex.append_left (· < ·) (List.Lex.nil (a := turn) (l := rest)) p
  rwa [append_nil] at h

theorem precedes_of_turn {turn' : Nat} (h : turn < turn') (rest rest' : Address) :
    Precedes (p ++ turn :: rest) (p ++ turn' :: rest') :=
  List.Lex.append_left _ (.rel h) p

theorem not_around_of_precedes {p q : Address} (h : Precedes p q) : ¬ q <+: p := by
  induction h with
  | nil => exact fun h => absurd (prefix_nil.1 h) (cons_ne_nil _ _)
  | rel h =>
    intro hprefix
    obtain ⟨heq, -⟩ := cons_prefix_cons.1 hprefix
    omega
  | cons _ ih => exact fun hprefix => ih (cons_prefix_cons.1 hprefix).2

theorem not_around_of_turn {turn' : Nat} (h : turn < turn') (rest rest' : Address) :
    ¬ p ++ turn :: rest <+: p ++ turn' :: rest' := by
  rw [prefix_append_right_inj, cons_prefix_cons]
  omega

theorem eq_of_around {p q : Address} (h : p <+: q) (h' : q <+: p) : p = q :=
  h.eq_of_length (Nat.le_antisymm h.length_le h'.length_le)

/-- **Two places of one tree stand to each other as two of another tree**: the first before the
second, and around it in the one tree exactly if in the other. -/
structure Matches (x y : Address × Address) : Prop where
  left : Precedes x.1 y.1
  right : Precedes x.2 y.2
  around : x.1 <+: y.1 ↔ x.2 <+: y.2

theorem matches_inside (p q : Address) (turn turn' : Nat) (rest rest' : Address) :
    Matches (p, q) (p ++ turn :: rest, q ++ turn' :: rest') :=
  ⟨precedes_inside .., precedes_inside .., iff_of_true (prefix_append ..)
    (prefix_append ..)⟩

theorem matches_of_turn (p q : Address) {i j i' j' : Nat} (h : i < j) (h' : i' < j')
    (s t s' t' : Address) :
    Matches (p ++ i :: s, q ++ i' :: s') (p ++ j :: t, q ++ j' :: t') :=
  ⟨precedes_of_turn _ h .., precedes_of_turn _ h' .., iff_of_false (not_around_of_turn _ h _ _)
    (not_around_of_turn _ h' _ _)⟩

/-- In a list of matching places any two stand to each other alike, in whatever order. -/
theorem around_iff (h : pairs.Pairwise Matches) (hx : x ∈ pairs) (hy : y ∈ pairs) :
    x.1 <+: y.1 ↔ x.2 <+: y.2 := by
  obtain ⟨i, hi, rfl⟩ := mem_iff_getElem.1 hx
  obtain ⟨j, hj, rfl⟩ := mem_iff_getElem.1 hy
  have hpairwise := pairwise_iff_getElem.1 h
  rcases Nat.lt_trichotomy i j with hlt | rfl | hlt
  · exact (hpairwise i j hi hj hlt).around
  · exact iff_of_true prefix_rfl prefix_rfl
  · have hback := hpairwise j i hj hi hlt
    exact iff_of_false (not_around_of_precedes hback.left) (not_around_of_precedes hback.right)

/-- `q` is the nearest place around `p` among some places. -/
structure Nearest (places : List Address) (p q : Address) : Prop where
  mem : q ∈ places
  around : q <+: p
  ne : q ≠ p
  nearest : ∀ r ∈ places, r <+: p → r ≠ p → r <+: q

/-- **The place right around another one matches the nearest place around.** -/
theorem nearest_of_matches (h : pairs.Pairwise Matches) (hx : x ∈ pairs) (hy : y ∈ pairs)
    (hturn : x.1 = y.1 ++ [turn]) : Nearest (pairs.map Prod.snd) x.2 y.2 := by
  have hyx : y.1 <+: x.1 := ⟨[turn], hturn.symm⟩
  refine ⟨mem_map_of_mem hy, (around_iff h hy hx).1 hyx, fun heq => ?_, ?_⟩
  · have hxy : x.1 <+: y.1 := (around_iff h hx hy).2 (heq ▸ prefix_rfl)
    have hlength := hxy.length_le
    rw [hturn, length_append, length_singleton] at hlength
    omega
  · intro r hr hrx hne
    obtain ⟨z, hz, rfl⟩ := mem_map.1 hr
    have hzx : z.1 <+: x.1 := (around_iff h hz hx).2 hrx
    rw [hturn] at hzx
    rcases prefix_concat_iff.1 hzx with heq | hzy
    · have hback : x.1 <+: z.1 := (hturn.trans heq.symm) ▸ prefix_rfl
      exact absurd (eq_of_around hrx ((around_iff h hx hz).1 hback)) hne
    · exact (around_iff h hz hy).1 hzy

end Address

/-! ### The places of components -/

namespace Component.Node

mutual

/-- The components of a tree at an address, each with its own, in the order of the walk. -/
def places (place : Address) (node : Node) : List (Address × Node) :=
  match node with
  | ⟨type, name, properties, children⟩ =>
    (place, ⟨type, name, properties, children⟩) :: placesAll place 0 children

/-- `places` over several trees inside an address, from a turn on. -/
def placesAll (place : Address) (turn : Nat) : List Node → List (Address × Node)
  | [] => []
  | node :: rest => places (place ++ [turn]) node ++ placesAll place (turn + 1) rest

end

theorem places_eq (place : Address) (node : Node) :
    node.places place = (place, node) :: placesAll place 0 node.children := by
  obtain ⟨type, name, properties, children⟩ := node
  rw [places]

/-- **The places of a tree are its walk.** -/
theorem map_snd_placesAll (nodes : List Node) (place : Address) (turn : Nat) :
    (placesAll place turn nodes).map Prod.snd = walkAll nodes := by
  induction nodes using inductAll generalizing place turn with
  | nil => simp [placesAll, walkAll]
  | cons node rest inside others =>
    rw [placesAll, walkAll, places_eq, walk_eq, map_append, map_cons, inside, others]

/-- Places are listed in the order of the walk. -/
theorem map_snd_places (node : Node) (place : Address) :
    (node.places place).map Prod.snd = node.walk := by
  rw [places_eq, walk_eq, map_cons, map_snd_placesAll]

/-- A component stands inside the address, at one of the turns that are still to come. -/
theorem exists_turn_of_mem {nodes : List Node} {place : Address} {turn : Nat}
    {p : Address × Node} (h : p ∈ placesAll place turn nodes) :
    ∃ i rest, turn ≤ i ∧ p.1 = place ++ i :: rest := by
  induction nodes using inductAll generalizing place turn with
  | nil => simp [placesAll] at h
  | cons node rest inside others =>
    rw [placesAll, places_eq, mem_append, mem_cons] at h
    rcases h with (rfl | h) | h
    · exact ⟨turn, [], Nat.le_refl _, rfl⟩
    · obtain ⟨i, tail, -, hp⟩ := inside h
      exact ⟨turn, i :: tail, Nat.le_refl _, by rw [hp, append_assoc]; rfl⟩
    · obtain ⟨i, tail, hi, hp⟩ := others h
      exact ⟨i, tail, by omega, hp⟩

end Component.Node

namespace Layout

open Component (Node Rule Table)
open Address (Matches)

variable {views : List View} {turn : Nat} {table : Table} {x : Address × Address}
  {nodes : List Node} {turn' : Nat} {there here : Address}

/-! ### The places of views and of elements -/

mutual

/-- The views of a tree at an address, each with its own, in the order of the walk. -/
def View.places (place : Address) (view : View) : List (Address × View) :=
  match view with
  | ⟨type, name, id, rule, attributes, children⟩ =>
    (place, ⟨type, name, id, rule, attributes, children⟩) :: View.placesAll place 0 children

/-- `places` over several trees inside an address, from a turn on. -/
def View.placesAll (place : Address) (turn : Nat) : List View → List (Address × View)
  | [] => []
  | view :: rest => View.places (place ++ [turn]) view ++ View.placesAll place (turn + 1) rest

end

/-- **The elements of marks with their addresses.**  The turns to the next element are kept with the
innermost one first. -/
def Mark.places : Address → List Mark → List (Address × Opening)
  | _, [] => []
  | turns, .opens _ opened :: rest => (turns.reverse, opened) :: places (0 :: turns) rest
  | turn :: around, .empty _ opened :: rest =>
    ((turn :: around).reverse, opened) :: places ((turn + 1) :: around) rest
  | _ :: turn :: around, .closes _ _ :: rest => places ((turn + 1) :: around) rest
  | turns, _ :: rest => places turns rest

example : (Mark.places [0] [.opens 0 ("a", []), .empty 1 ("b", []), .opens 1 ("c", []),
    .empty 2 ("d", []), .closes 1 "c", .closes 0 "a"]).map Prod.fst
      = [[0], [0, 0], [0, 1], [0, 1, 0]] := by
  decide

theorem View.places_eq (place : Address) (view : View) :
    view.places place = (place, view) :: placesAll place 0 view.children := by
  obtain ⟨type, name, id, rule, attributes, children⟩ := view
  rw [places]

theorem View.map_snd_placesAll (views : List View) (place : Address) (turn : Nat) :
    (placesAll place turn views).map Prod.snd = walkAll views := by
  induction views using View.inductAll generalizing place turn with
  | nil => simp [placesAll, walkAll]
  | cons view rest inside others =>
    rw [placesAll, walkAll, places_eq, walk_eq, map_append, map_cons, inside, others]

theorem View.placesAll_append (views others : List View) (place : Address) (turn : Nat) :
    placesAll place turn (views ++ others)
      = placesAll place turn views ++ placesAll place (turn + views.length) others := by
  induction views generalizing turn with
  | nil => simp [placesAll]
  | cons view views ih =>
    rw [cons_append, placesAll, placesAll, ih, append_assoc, length_cons,
      Nat.add_assoc, Nat.add_comm 1]

/-- Views of a list stand below as many turns. -/
theorem View.exists_turn_of_mem {place : Address} {p : Address × View}
    (h : p ∈ placesAll place turn views) :
    ∃ i rest, turn ≤ i ∧ i < turn + views.length ∧ p.1 = place ++ i :: rest := by
  induction views using View.inductAll generalizing place turn with
  | nil => simp [placesAll] at h
  | cons view rest inside others =>
    rw [length_cons]
    rw [placesAll, places_eq, mem_append, mem_cons] at h
    rcases h with (rfl | h) | h
    · exact ⟨turn, [], by omega, by omega, rfl⟩
    · obtain ⟨i, tail, -, -, hp⟩ := inside h
      exact ⟨turn, i :: tail, by omega, by omega, by rw [hp, append_assoc]; rfl⟩
    · obtain ⟨i, tail, hi, hlt, hp⟩ := others h
      exact ⟨i, tail, by omega, by omega, hp⟩

/-- A view that is not the outermost stands right inside another one. -/
theorem View.exists_around_of_mem {place : Address} {p : Address × View}
    (h : p ∈ placesAll place turn views) :
    (∃ i, p.1 = place ++ [i]) ∨ ∃ q ∈ placesAll place turn views, ∃ i, p.1 = q.1 ++ [i] := by
  induction views using View.inductAll generalizing place turn with
  | nil => simp [placesAll] at h
  | cons view rest inside others =>
    rw [placesAll, places_eq] at h ⊢
    rcases mem_append.1 h with h | h
    · rcases mem_cons.1 h with rfl | h
      · exact Or.inl ⟨turn, rfl⟩
      · rcases inside h with ⟨i, hp⟩ | ⟨q, hq, i, hp⟩
        · exact Or.inr ⟨_, mem_append_left _ mem_cons_self, i, hp⟩
        · exact Or.inr ⟨q, mem_append_left _ (mem_cons_of_mem _ hq), i, hp⟩
    · rcases others h with hp | ⟨q, hq, i, hp⟩
      · exact Or.inl hp
      · exact Or.inr ⟨q, mem_append_right _ hq, i, hp⟩

/-- The places of an element around marks: its own, those inside it one level below, and what
follows one turn on. -/
theorem Mark.places_enclose (depth : Nat) (opened : Opening) (inside marks : List Mark)
    {around : Address} {found : List (Address × Opening)} {count : Nat}
    (hinside : ∀ marks, places (0 :: turn :: around) (inside ++ marks)
      = found ++ places (count :: turn :: around) marks) (hempty : inside = [] → found = []) :
    places (turn :: around) (enclose depth opened inside ++ marks)
      = ((turn :: around).reverse, opened) :: found ++ places ((turn + 1) :: around) marks := by
  unfold enclose
  split
  · next h => simp [places, hempty (List.isEmpty_iff.1 h)]
  · rw [cons_append, places, append_assoc, hinside]
    rfl

theorem enclose_ne_nil (depth : Nat) (opened : Opening) (inside : List Mark) :
    enclose depth opened inside ≠ [] := by
  unfold enclose
  split <;> exact cons_ne_nil _ _

theorem View.marksAll_eq_nil {depth : Nat} (h : marksAll depth views = []) : views = [] := by
  cases views with
  | nil => rfl
  | cons view rest =>
    rw [marksAll, marks_eq] at h
    exact absurd (append_eq_nil_iff.1 h).1 (enclose_ne_nil _ _ _)

/-- The elements of views stand where the views do. -/
theorem Mark.places_marksAll (views : List View) (depth turn : Nat) (around : Address)
    (marks : List Mark) :
    places (turn :: around) (View.marksAll depth views ++ marks)
      = (View.placesAll around.reverse turn views).map (fun p => (p.1, p.2.opened))
        ++ places ((turn + views.length) :: around) marks := by
  induction views using View.inductAll generalizing depth turn around marks with
  | nil => simp [View.marksAll, View.placesAll]
  | cons view rest inside others =>
    rw [View.marksAll, View.marks_eq, append_assoc,
      places_enclose _ _ _ _ (fun marks => inside (depth + 1) 0 (turn :: around) marks)
        (fun h => by rw [View.marksAll_eq_nil h, View.placesAll, map_nil]),
      others, View.placesAll, View.places_eq, length_cons]
    simp [Nat.add_assoc, Nat.add_comm 1]

/-- The elements of a layout with their addresses. -/
def View.elementPlaces (activity : String) (view : View) : List (Address × Opening) :=
  Mark.places [0] (view.screenMarks activity)

theorem View.elementPlaces_eq (activity : String) (view : View) :
    view.elementPlaces activity
      = ([0], view.openedScreen activity)
        :: (placesAll [0] 0 view.children).map (fun p => (p.1, p.2.opened)) := by
  have hinside := fun marks => Mark.places_marksAll view.children 1 0 [0] marks
  have henclose := Mark.places_enclose 0 (view.openedScreen activity) _ [] hinside
    fun h => by rw [marksAll_eq_nil h, placesAll, map_nil]
  rw [append_nil] at henclose
  rw [elementPlaces, screenMarks, henclose]
  simp [Mark.places]

/-! ### Elements stand to each other as components do -/

/-- Whether the component at a place becomes an element: the screen does, and any with a rule. -/
def stays (table : Table) (p : Address × Node) : Bool :=
  p.1 == [0] || (table.lookup p.2.type).isSome

/-- **The components of a screen that become elements**, with their addresses. -/
def staying (table : Table) (screen : Node) : List (Address × Node) :=
  (screen.places [0]).filter (stays table)

/-- Whether the component at a place has a rule. -/
def hasRule (table : Table) (p : Address × Node) : Bool := (table.lookup p.2.type).isSome

section

variable (table) (a : Allocator) (screen : Node)

theorem staying_eq :
    staying table screen
      = ([0], screen) :: (Node.placesAll [0] 0 screen.children).filter (hasRule table) := by
  rw [staying, Node.places_eq, filter_cons_of_pos (by simp [stays])]
  refine congrArg (_ :: ·) (filter_congr fun p hp => ?_)
  obtain ⟨i, rest, -, hplace⟩ := Node.exists_turn_of_mem hp
  simp [stays, hasRule, hplace]

theorem filter_places (place : Address) (node : Node) :
    (node.places place).filter (hasRule table)
      = (if (table.lookup node.type).isSome then [(place, node)] else [])
        ++ (Node.placesAll place 0 node.children).filter (hasRule table) := by
  rw [Node.places_eq, filter_cons, hasRule]
  split <;> rfl

/-- The addresses of views and of the components with a rule among some trees. -/
def pairs (table : Table) (here : Address) (turn : Nat) (nodes : List Node) (there : Address)
    (turn' : Nat) (views : List View) : List (Address × Address) :=
  ((View.placesAll there turn' views).map Prod.fst).zip
    (((Node.placesAll here turn nodes).filter (hasRule table)).map Prod.fst)

/-- The components that become views are those that have a rule. -/
theorem mapped_eq_map (nodes : List Node) (here : Address) (turn : Nat) :
    mapped table (Node.walkAll nodes)
      = ((Node.placesAll here turn nodes).filter (hasRule table)).map
        fun p => (screenRule table p.2, p.2) := by
  rw [← Node.map_snd_placesAll nodes here turn, mapped, filterMap_map]
  induction Node.placesAll here turn nodes with
  | nil => rfl
  | cons p rest ih =>
    rw [filterMap_cons, filter_cons, ih, hasRule, Function.comp]
    cases h : table.lookup p.2.type with
    | none => rfl
    | some rule => simp [screenRule, h]

/-- **The components that become views are those that stay.** -/
theorem emitted_eq_map : emitted table screen
      = (staying table screen).map fun p => (screenRule table p.2, p.2) := by
  rw [emitted, staying_eq, map_cons, mapped_eq_map table screen.children [0] 0]

/-- There are as many views as components with a rule. -/
theorem length_placesAll_placeAll (nodes : List Node) (here there : Address) (turn turn' : Nat) :
    (View.placesAll there turn' (placeAll table a nodes).1).length
      = ((Node.placesAll here turn nodes).filter (hasRule table)).length := by
  have hlength := placeAll_induct (P := fun _ es views _ => views.length = es.length)
    (fun _ => rfl) (congrArg (· + 1))
    (fun h h' => by rw [length_append, length_append, h, h']) table nodes a
  rwa [mapped_eq_map table nodes here turn, length_map, ← View.map_snd_placesAll _ there turn',
    length_map] at hlength

theorem children_place (rule : Rule) (node : Node) :
    (place table a rule node).1.children
      = (placeAll table (a.next rule.idStem).2 node.children).1 := by
  rw [place_eq]
  rfl

end

/-- Pairs of a list stand below its turns, on both sides. -/
theorem exists_turns_of_mem_pairs (h : x ∈ pairs table here turn nodes there turn' views) :
    (∃ i rest, turn' ≤ i ∧ i < turn' + views.length ∧ x.1 = there ++ i :: rest) ∧
      ∃ i rest, turn ≤ i ∧ x.2 = here ++ i :: rest := by
  obtain ⟨hleft, hright⟩ := of_mem_zip (a := x.1) (b := x.2) h
  obtain ⟨p, hp, hfst⟩ := mem_map.1 hleft
  obtain ⟨q, hq, hsnd⟩ := mem_map.1 hright
  rw [← hfst, ← hsnd]
  exact ⟨View.exists_turn_of_mem hp, Node.exists_turn_of_mem (mem_filter.1 hq).1⟩

/-- A pair of places comes before those of the turns to come. -/
theorem matches_later {y : Address × Address} {i j : Nat} {rest rest' : Address} (hi : i < turn')
    (hj : j < turn) (hleft : x.1 = there ++ i :: rest') (hright : x.2 = here ++ j :: rest)
    (h : y ∈ pairs table here turn nodes there turn' views) : Matches x y := by
  obtain ⟨x₁, x₂⟩ := x
  obtain ⟨y₁, y₂⟩ := y
  obtain ⟨⟨i', s, hi', -, rfl⟩, j', t, hj', rfl⟩ := exists_turns_of_mem_pairs h
  subst hleft hright
  exact Address.matches_of_turn there here (by omega) (by omega) _ _ _ _

/-- A pair of places comes before those below it. -/
theorem matches_below {y : Address × Address}
    (h : y ∈ pairs table here turn nodes there turn' views) : Matches (there, here) y := by
  obtain ⟨y₁, y₂⟩ := y
  obtain ⟨⟨i, s, -, -, rfl⟩, j, t, -, rfl⟩ := exists_turns_of_mem_pairs h
  exact Address.matches_inside there here i j s t

/-- The pairs of a component without a rule are those inside it: on the side of the views they take
up turns of their own, on the side of the components they stand one level below. -/
theorem pairs_of_none (a : Allocator) {node : Node} (rest : List Node)
    (h : table.lookup node.type = none) (here there : Address) (turn turn' : Nat) :
    pairs table here turn (node :: rest) there turn' (placeAll table a (node :: rest)).1
      = pairs table (here ++ [turn]) 0 node.children there turn' (placeAll table a node.children).1
        ++ pairs table here (turn + 1) rest there
          (turn' + (placeAll table a node.children).1.length)
          (placeAll table (placeAll table a node.children).2 rest).1 := by
  have hlength := length_placesAll_placeAll table a node.children (here ++ [turn]) there 0 turn'
  rw [placeAll_of_none a h]
  simp only [pairs]
  rw [View.placesAll_append, Node.placesAll, filter_append, filter_places, h, map_append,
    map_append, zip_append]
  · rfl
  · rw [length_map, length_map]
    exact hlength

/-- The pairs of a component with a rule are its own and those inside it, on both sides one level
below. -/
theorem pairs_of_some (a : Allocator) {node : Node} (rest : List Node) {rule : Rule}
    (h : table.lookup node.type = some rule) (here there : Address) (turn turn' : Nat) :
    pairs table here turn (node :: rest) there turn' (placeAll table a (node :: rest)).1
      = ((there ++ [turn'], here ++ [turn])
          :: pairs table (here ++ [turn]) 0 node.children (there ++ [turn']) 0
            (placeAll table (a.next rule.idStem).2 node.children).1)
        ++ pairs table here (turn + 1) rest there (turn' + 1)
          (placeAll table (place table a rule node).2 rest).1 := by
  have hlength := length_placesAll_placeAll table (a.next rule.idStem).2 node.children
    (here ++ [turn]) (there ++ [turn']) 0 0
  rw [placeAll_of_some a h]
  simp only [pairs]
  rw [View.placesAll, View.places_eq, children_place, Node.placesAll, filter_append,
    filter_places, h, map_append, map_append, zip_append]
  · rfl
  · simp [hlength]

variable (table) (a : Allocator) (activity : String) (screen : Node)

/-- **Views stand to each other as the components they are of**, by induction over the tree. -/
theorem matches_placeAll (nodes : List Node) (here there : Address) (turn turn' : Nat) :
    (pairs table here turn nodes there turn' (placeAll table a nodes).1).Pairwise Matches := by
  induction nodes using Node.inductAll generalizing a here there turn turn' with
  | nil => simp [pairs, placeAll, View.placesAll]
  | cons node rest inside others =>
    cases h : table.lookup node.type with
    | none =>
      rw [pairs_of_none a rest h, pairwise_append]
      refine ⟨inside .., others .., fun x hx y hy => ?_⟩
      obtain ⟨⟨i, s, -, hi, hxl⟩, j, t, -, hxr⟩ := exists_turns_of_mem_pairs hx
      exact matches_later hi (Nat.lt_succ_self turn) hxl (hxr.trans (append_assoc ..)) hy
    | some rule =>
      rw [pairs_of_some a rest h, pairwise_append, pairwise_cons]
      refine ⟨⟨fun y hy => ?_, inside ..⟩, others .., fun x hx y hy => ?_⟩
      · exact matches_below hy
      · rcases mem_cons.1 hx with rfl | hx
        · exact matches_later (Nat.lt_succ_self _) (Nat.lt_succ_self _) rfl rfl hy
        · obtain ⟨⟨i, s, -, -, hxl⟩, j, t, -, hxr⟩ := exists_turns_of_mem_pairs hx
          exact matches_later (Nat.lt_succ_self _) (Nat.lt_succ_self _)
            (hxl.trans (append_assoc ..)) (hxr.trans (append_assoc ..)) hy

/-- The addresses of the elements of a layout and of the components they are of. -/
def addressPairs (table : Table) (a : Allocator) (activity : String) (screen : Node) :
    List (Address × Address) :=
  (((ofScreen table a screen).elementPlaces activity).map Prod.fst).zip
    ((staying table screen).map Prod.fst)

theorem addressPairs_eq : addressPairs table a activity screen
      = ([0], [0]) :: pairs table [0] 0 screen.children [0] 0
          (ofScreen table a screen).children := by
  rw [addressPairs, View.elementPlaces_eq, staying_eq, map_cons, map_cons, zip_cons_cons, map_map]
  rfl

/-- **Elements stand to each other as the components they are of.** -/
theorem matches_addressPairs : (addressPairs table a activity screen).Pairwise Matches := by
  rw [addressPairs_eq, pairwise_cons]
  refine ⟨fun y hy => matches_below hy, ?_⟩
  rw [ofScreen, children_place]
  exact matches_placeAll ..

/-- Elements and the components they are of are equally many, so each address has its pair. -/
theorem length_addresses :
    (((ofScreen table a screen).elementPlaces activity).map Prod.fst).length
      = ((staying table screen).map Prod.fst).length := by
  rw [View.elementPlaces_eq, staying_eq]
  simp only [map_cons, length_cons, length_map, ofScreen, children_place]
  exact congrArg (· + 1) (length_placesAll_placeAll ..)

/-- **Every element but the screen's stands right inside that of the nearest component around it
that is an element.** -/
theorem exists_nearest (hx : x ∈ addressPairs table a activity screen) (hne : x.1 ≠ [0]) :
    ∃ y ∈ addressPairs table a activity screen, (∃ turn, x.1 = y.1 ++ [turn]) ∧
      Address.Nearest ((staying table screen).map Prod.fst) x.2 y.2 := by
  have hfst : (addressPairs table a activity screen).map Prod.fst
      = ((ofScreen table a screen).elementPlaces activity).map Prod.fst :=
    map_fst_zip (Nat.le_of_eq (length_addresses ..))
  have hsnd : (addressPairs table a activity screen).map Prod.snd
      = (staying table screen).map Prod.fst :=
    map_snd_zip (Nat.le_of_eq (length_addresses ..).symm)
  have haround : ∃ q ∈ (addressPairs table a activity screen).map Prod.fst,
      ∃ turn, x.1 = q ++ [turn] := by
    have hmem := mem_map_of_mem (f := Prod.fst) hx
    rw [hfst, View.elementPlaces_eq, map_cons, map_map] at hmem ⊢
    rcases mem_cons.1 hmem with heq | hmem
    · exact absurd heq hne
    obtain ⟨p, hp, heq⟩ := mem_map.1 hmem
    rw [← heq]
    rcases View.exists_around_of_mem hp with hturn | ⟨q, hq, hturn⟩
    · exact ⟨[0], mem_cons_self, hturn⟩
    · exact ⟨q.1, mem_cons_of_mem _ (mem_map_of_mem hq), hturn⟩
  obtain ⟨q, hq, turn, hturn⟩ := haround
  obtain ⟨y, hy, rfl⟩ := mem_map.1 hq
  exact ⟨y, hy, ⟨turn, hturn⟩,
    hsnd ▸ Address.nearest_of_matches (matches_addressPairs ..) hx hy hturn⟩

end Layout
end ScreenForge
