/-
# Hoisting

A layout keeps the components of a screen that have a rule, and the screen itself.

| kept of a component | where |
| --- | --- |
| its element | right inside that of the nearest kept component around it |
| its name | in the index, if it has one and is the first kept component of that name |
| a note | if it has no rule, or if its name is in the index already |
-/
import ScreenForge.Proofs.Layout.Address
import ScreenForge.Proofs.Layout.Complete

namespace ScreenForge
namespace Layout

open List
open Component (Node Rule Table)
open Journal (Entry notes settle)

variable {table : Table} {before : List (Address × Node)} {seen : List String} {p : Address × Node}

/-! ### Elements and index -/

/-- The element of a component with an id. -/
def openingOf (table : Table) (p : Address × Node) (id : String) : Opening :=
  ((screenRule table p.2).tag,
    idAttribute id :: attributesOf (screenRule table p.2) p.2.properties)

/-- The element of a screen also declares the namespaces and names the activity. -/
def asScreen (activity : String) (opened : Opening) : Opening :=
  (opened.1, namespaces ++ opened.2 ++ [("tools:context", "." ++ activity)])

/-- What blocks know of a component with an id. -/
def refOf (table : Table) (p : Address × Node) (id : String) : Ref :=
  ⟨p.2.name, p.2.type, id, screenRule table p.2⟩

section

variable (table) (a : Allocator) (screen : Node)

/-- Whatever is made of the origin and the id of views is made of the kept components and ids. -/
theorem map_walk_eq {β : Type}
    (f : Rule × String × String × List (String × String) → String → β) :
    (ofScreen table a screen).walk.map (fun v => f v.origin v.id)
      = List.zipWith (fun p id => f (originOf (screenRule table p.2, p.2)) id)
        (staying table screen) ((ofScreen table a screen).walk.map View.id) := by
  have horigin := map_origin_walk table a screen
  rw [emitted_eq_map, map_map] at horigin
  generalize (ofScreen table a screen).walk = views at horigin
  generalize staying table screen = kept at horigin
  induction views generalizing kept with
  | nil => simp
  | cons view views ih =>
    cases kept with
    | nil => simp at horigin
    | cons p kept =>
      rw [map_cons, map_cons, List.cons.injEq] at horigin
      obtain ⟨hfirst, hrest⟩ := horigin
      rw [map_cons, map_cons, zipWith_cons_cons, ih kept hrest, hfirst]
      rfl

/-- There are as many ids as kept components. -/
theorem length_ids :
    ((ofScreen table a screen).walk.map View.id).length = (staying table screen).length := by
  have horigin := congrArg List.length (map_origin_walk table a screen)
  rw [emitted_eq_map] at horigin
  simpa using horigin

/-- **The elements are the kept components, in the order of the walk.** -/
theorem map_snd_elementPlaces (activity : String) :
    ((ofScreen table a screen).elementPlaces activity).map Prod.snd
      = (List.zipWith (openingOf table) (staying table screen)
          ((ofScreen table a screen).walk.map View.id)).modifyHead (asScreen activity) := by
  have hopened := map_walk_eq table a screen fun origin id =>
    ((origin.1.tag, idAttribute id :: origin.2.2.2) : Opening)
  have hzip : List.zipWith (openingOf table) (staying table screen)
      ((ofScreen table a screen).walk.map View.id)
        = (ofScreen table a screen).walk.map View.opened := hopened.symm
  rw [hzip, View.elementPlaces_eq, View.walk_eq, map_cons, map_cons,
    modifyHead_cons, map_map, ← View.map_snd_placesAll _ [0] 0, map_map]
  rfl

theorem nodup_keys_foldl_index (views : List View) (refs : List (String × Ref))
    (h : (Assoc.keys refs).Nodup) :
    (Assoc.keys (views.foldl (fun refs v => if v.name = "" || Assoc.has v.name refs then refs
      else refs ++ [(v.name, v.ref)]) refs)).Nodup := by
  induction views generalizing refs with
  | nil => exact h
  | cons v views ih =>
    rw [foldl_cons]
    apply ih
    split
    · exact h
    · next hnew =>
      rw [Bool.or_eq_true, not_or, ← Assoc.isSome_lookup_eq_has, Assoc.isSome_lookup] at hnew
      rw [← Assoc.put_of_not_mem hnew.2]
      exact Assoc.nodup_keys_put h

/-- **A name in the index stands for the first kept component that has it**, and there is nothing
else in the index. -/
theorem lookup_index_eq (name : String) :
    (ofScreen table a screen).index.lookup name
      = if name = "" then none
        else (List.zipWith (refOf table) (staying table screen)
          ((ofScreen table a screen).walk.map View.id)).find? fun ref => ref.name == name := by
  have href : List.zipWith (refOf table) (staying table screen)
      ((ofScreen table a screen).walk.map View.id)
        = (ofScreen table a screen).walk.map View.ref :=
    (map_walk_eq table a screen fun origin id =>
      (⟨origin.2.2.1, origin.2.1, id, origin.1⟩ : Ref)).symm
  rw [href, List.find?_map]
  exact lookup_foldl_index (ofScreen table a screen).walk [] name

end

/-! ### Notes -/

/-- Whether a name is that of a kept component among some. -/
def isIndexed (table : Table) (before : List (Address × Node)) (name : String) : Bool :=
  before.any fun q => stays table q && q.2.name == name

/-- **The notes of a component**, after those before it in the walk: that it has no rule, or that it
is kept and its name is in the index already. -/
def notesAt (table : Table) (before : List (Address × Node)) (p : Address × Node) :
    List Diagnostic :=
  notes ((if (table.lookup p.2.type).isNone then [unmapped p.2.type p.2.name] else [])
    ++ (if stays table p && p.2.name != "" && isIndexed table before p.2.name
      then [duplicate p.2.name] else []))

/-- The notes of components in order, after some before them. -/
def notesAfter (table : Table) (before : List (Address × Node)) :
    List (Address × Node) → List Diagnostic
  | [] => []
  | p :: rest => notesAt table before p ++ notesAfter table (before ++ [p]) rest

theorem notesAfter_append (table : Table) (before places others : List (Address × Node)) :
    notesAfter table before (places ++ others)
      = notesAfter table before places ++ notesAfter table (before ++ places) others := by
  induction places generalizing before with
  | nil => simp [notesAfter]
  | cons p places ih => simp [notesAfter, ih]

/-- The names seen are those of the kept components, the empty one apart. -/
def Seen (table : Table) (before : List (Address × Node)) (seen : List String) : Prop :=
  ∀ name, name ≠ "" → (name ∈ seen ↔ isIndexed table before name = true)

theorem Seen.keep (h : Seen table before seen) (hp : stays table p) :
    Seen table (before ++ [p]) (seeName seen p.2.name) := by
  intro name hname
  have hstep : isIndexed table (before ++ [p]) name
      ↔ isIndexed table before name ∨ p.2.name = name := by
    simp [isIndexed, hp]
  rw [hstep, ← h name hname, seeName]
  split
  · next hempty => simp [hempty, hname.symm]
  · rw [mem_cons, or_comm, eq_comm]

theorem Seen.skip (h : Seen table before seen) (hp : stays table p = false) :
    Seen table (before ++ [p]) seen := by
  intro name hname
  have hstep : isIndexed table (before ++ [p]) name = isIndexed table before name := by
    simp [isIndexed, hp]
  rw [hstep, h name hname]

/-- A kept component notes that it has no rule, or that its name is taken. -/
theorem notes_placingHere (h : Seen table before seen) (hp : stays table p) (rule : Rule) :
    notes ((if (table.lookup p.2.type).isNone then [unmapped p.2.type p.2.name] else [])
        ++ placingHere rule seen p.2.name p.2.properties) = notesAt table before p := by
  have hnotes : notes (placingHere rule seen p.2.name p.2.properties)
      = notes (if p.2.name != "" && seen.contains p.2.name then [duplicate p.2.name] else []) := by
    rw [placingHere, ← singleton_append, Journal.notes_append, Journal.notes_append]
    split <;> split <;> rfl
  have hseen : (p.2.name != "" && seen.contains p.2.name)
      = (p.2.name != "" && isIndexed table before p.2.name) := by
    by_cases hname : p.2.name = ""
    · simp [hname]
    · rw [Bool.eq_iff_iff, Bool.and_eq_true, Bool.and_eq_true, contains_iff_mem, h p.2.name hname]
  rw [notesAt, Journal.notes_append, Journal.notes_append, hnotes, hseen, hp, Bool.true_and]

/-- What placing some components notes and the names seen then, in terms of their walk. -/
structure Notes (table : Table) (before places : List (Address × Node))
    (placed : List Entry × List String) : Prop where
  notes : notes placed.1 = notesAfter table before places
  seen : Seen table (before ++ places) placed.2

theorem Notes.append {places others : List (Address × Node)} {entries entries' : List Entry}
    {seen' : List String} (h : Notes table before places (entries, seen))
    (h' : Notes table (before ++ places) others (entries', seen')) :
    Notes table before (places ++ others) (entries ++ entries', seen') := by
  refine ⟨?_, ?_⟩
  · rw [Journal.notes_append, h.notes, h'.notes, notesAfter_append]
  · rw [← append_assoc]
    exact h'.seen

/-- A component that stays, then those inside it. -/
theorem notes_placing {node : Node} {place : Address}
    (hinside : ∀ seen before, Seen table before seen →
      Notes table before (Node.placesAll place 0 node.children)
        (placingAll table seen node.children)) (h : Seen table before seen)
    (hstays : stays table (place, node)) (rule : Rule) :
    Notes table before (node.places place)
      ((if (table.lookup node.type).isNone then [unmapped node.type node.name] else [])
        ++ (placing table seen rule node).1, (placing table seen rule node).2) := by
  have hown : Notes table before [(place, node)]
      ((if (table.lookup node.type).isNone then [unmapped node.type node.name] else [])
        ++ placingHere rule seen node.name node.properties, seeName seen node.name) :=
    ⟨by rw [notes_placingHere h hstays rule, notesAfter, notesAfter, append_nil], h.keep hstays⟩
  have hboth := hown.append (hinside _ _ hown.seen)
  rw [append_assoc] at hboth
  rw [Node.places_eq, placing_eq]
  exact hboth

/-- The notes are those of the walk, each component told what came before it. -/
theorem notes_placingAll (table : Table) (nodes : List Node) (place : Address) (turn : Nat)
    (hplace : place ≠ []) (before : List (Address × Node)) (seen : List String)
    (h : Seen table before seen) :
    Notes table before (Node.placesAll place turn nodes) (placingAll table seen nodes) := by
  induction nodes using Node.inductAll generalizing place turn before seen with
  | nil =>
    rw [Node.placesAll, placingAll]
    exact ⟨rfl, (append_nil before).symm ▸ h⟩
  | cons node rest inside others =>
    have hinside := inside (place ++ [turn]) 0 (by simp)
    have hstays : stays table (place ++ [turn], node) = (table.lookup node.type).isSome := by
      simp [stays, append_eq_singleton_iff, hplace]
    obtain ⟨type, name, properties, children⟩ := node
    rw [Node.placesAll, placingAll]
    cases hlookup : table.lookup type with
    | none =>
      rw [hlookup] at hstays
      have hown : Notes table before [(place ++ [turn], ⟨type, name, properties, children⟩)]
          ([unmapped type name], seen) := by
        refine ⟨?_, h.skip hstays⟩
        simp [notesAfter, notesAt, hstays, hlookup]
      have hnode := hown.append (hinside _ _ hown.seen)
      rw [singleton_append, ← Node.places_eq] at hnode
      exact hnode.append (others place (turn + 1) hplace _ _ hnode.seen)
    | some rule =>
      rw [hlookup] at hstays
      have hnode := notes_placing (fun seen before => hinside before seen) h hstays rule
      rw [hlookup] at hnode
      exact hnode.append (others place (turn + 1) hplace _ _ hnode.seen)

/-- **The notes of a layout are those of the walk.** -/
theorem notes_placingScreen (table : Table) (screen : Node) :
    notes (placingScreen table screen) = notesAfter table [] (screen.places [0]) := by
  have hseen : Seen table [] [] := fun name _ => by simp [isIndexed]
  have hinside := fun seen before => notes_placingAll table screen.children [0] 0 (by simp)
    before seen
  exact (notes_placing hinside hseen (by simp [stays]) _).notes

/-! ### The layout of a tree -/

/-- A layout comes to its end exactly if no kept component asks for a whole number beyond the
range. -/
theorem settles_iff_bounded {screen : Node} :
    (∃ report, settle .unlimited (placingScreen table screen) = .ok report) ↔
      ∀ p ∈ staying table screen, ¬ (screenRule table p.2).Unbounded p.2.properties := by
  have hbounded : Journal.stops (placingScreen table screen) = []
      ↔ ∀ e ∈ emitted table screen, ¬ e.1.Unbounded e.2.properties :=
    stops_placingScreen_eq_nil_iff
  rw [emitted_eq_map, forall_mem_map] at hbounded
  rw [← hbounded]
  constructor
  · rintro ⟨report, h⟩
    exact (Journal.settle_unlimited_eq_ok_iff.1 h).1
  · exact fun h => ⟨_, Journal.settle_unlimited_eq_ok_iff.2 ⟨h, rfl⟩⟩

/-- **Components without a rule give way to what is inside them.**

The elements of the markup are the components of the walk that have a rule, with the screen, in the
same order; the address of an element comes before that of another, or is around it, exactly if this
holds of their components; and each stands right inside the element of the nearest component around
it that has one.  The index holds every name of such a component but the empty one, for the first
component that has it, and nothing else.  A layout that comes to its end, as it does without a
deadline if no whole number is beyond the range, notes every component without a rule and every name
that occurs again, in the order of the walk. -/
theorem layout_hoists (table : Table) (a : Allocator) (activity : String) (screen : Node) :
    let view := ofScreen table a screen
    let ids := view.walk.map View.id
    let kept := (screen.places [0]).filter (stays table)
    view.render activity = markup (view.screenMarks activity) ∧
    (screen.places [0]).map Prod.snd = screen.walk ∧
    ids.length = kept.length ∧
    (Mark.places [0] (view.screenMarks activity)).map Prod.snd
      = (List.zipWith (openingOf table) kept ids).modifyHead (asScreen activity) ∧
    (addressPairs table a activity screen).Pairwise Address.Matches ∧
    (∀ x ∈ addressPairs table a activity screen, x.1 ≠ [0] →
      ∃ y ∈ addressPairs table a activity screen, (∃ turn, x.1 = y.1 ++ [turn]) ∧
        Address.Nearest (kept.map Prod.fst) x.2 y.2) ∧
    (∀ name, view.index.lookup name = if name = "" then none
      else (List.zipWith (refOf table) kept ids).find? fun ref => ref.name == name) ∧
    (Assoc.keys view.index).Nodup ∧
    (∀ timer report, settle timer (placingScreen table screen) = .ok report →
      report = notesAfter table [] (screen.places [0])) ∧
    ((∃ report, settle .unlimited (placingScreen table screen) = .ok report) ↔
      ∀ p ∈ kept, ¬ (screenRule table p.2).Unbounded p.2.properties) := by
  refine ⟨render_eq .., Node.map_snd_places .., length_ids .., map_snd_elementPlaces ..,
    matches_addressPairs .., fun x hx hne => exists_nearest table a activity screen hx hne,
    fun name => lookup_index_eq table a screen name,
    nodup_keys_foldl_index _ [] nodup_nil, ?_, ?_⟩
  · intro timer report h
    rw [Journal.eq_notes_of_settle h, notes_placingScreen]
  · exact settles_iff_bounded

end Layout
end ScreenForge
