/-
# Numbered views

A view is called by the stem of its rule and a number.  The stems of a table may be anything, so a
stem may be another one with a digit behind it (`a` with 11 and `a1` with 1 make the same name), and
names may have been given before the layout is made.  To place a screen is to make one call for each
component that becomes a view, and all else follows from what an allocator answers to calls.
-/
import ScreenForge.Proofs.Allocator.Run
import ScreenForge.Proofs.Json.Scalar
import ScreenForge.Proofs.Layout.Element

namespace ScreenForge
namespace Layout

open List
open Component (Node Rule Table)
open Allocator (Call)

variable (table : Table) (a : Allocator) (screen : Node)

/-- The calls for the ids of components that become views. -/
def idCalls (components : List (Rule × Node)) : List Call :=
  components.map fun e => .next e.1.idStem

/-- What is answered if every call for an id of these views is served. -/
def idAnswers (views : List View) : List (Except Allocator.Collision String) :=
  views.map fun view => .ok view.id

/-- **To place a screen is to call for the ids of its views, and every call is served.** -/
theorem serveAll_place : (a.serveAll (idCalls (emitted table screen))).1
      = idAnswers (ofScreen table a screen).walk := by
  refine congrArg Prod.fst (ofScreen_induct
    (P := fun a es views b => a.serveAll (idCalls es) = (idAnswers views, b))
    (fun _ => rfl) (fun h => ?_) (fun h h' => ?_) table screen a)
  · simp only [idCalls, idAnswers] at h
    simp only [idCalls, map_cons, Allocator.serveAll_cons, Allocator.serve_next, h]
    rfl
  · simp only [idCalls, idAnswers] at h h'
    simp only [idCalls, idAnswers, map_append, Allocator.serveAll_append, h, h']

/-- **The views of a layout have ids of their own.** -/
theorem issues_ofScreen : ∃ b, a.Issues ((ofScreen table a screen).walk.map View.id) b := by
  have h := a.issues_serveAll (idCalls (emitted table screen))
  rw [serveAll_place, idAnswers, Allocator.names_map_ok] at h
  exact ⟨_, h⟩

/-! ### Ids in the markup -/

/-- The id of an element: that of the first attribute that holds one. -/
def Opening.id? (opened : Opening) : Option String := opened.2.lookup "android:id"

/-- **The elements of a layout have the ids of its views.** -/
theorem map_id_elements (activity : String) (view : View) :
    (view.elements activity).map Opening.id? = view.walk.map fun v => some (idText v.id) := by
  rw [elements_eq, View.walk_eq, map_cons, map_cons, map_map]
  refine congrArg₂ List.cons ?_ rfl
  -- the namespaces in front of the id of the screen are none
  rw [Opening.id?, View.openedScreen, append_assoc, lookup_append]
  rfl

/-! ### Numbers -/

/-- Whether a text is the numeral of a positive number: digits, and no zero in front. -/
def isCount (s : String) : Bool := s.toList.head?.any (· != '0') && s.toList.all Char.isDigit

theorem isCount_toString {n : Nat} (h : 0 < n) : isCount (toString n) := by
  have hhead := Json.head?_toDigits_ne h
  have hdigits : (Nat.toDigits 10 n).all Char.isDigit :=
    all_eq_true.2 fun _ hc => Nat.isDigit_of_mem_toDigits (by decide) (by decide) hc
  rw [isCount, Nat.toString_eq_ofList_toDigits, String.toList_ofList, hdigits, Bool.and_true]
  cases hn : Nat.toDigits 10 n with
  | nil => exact absurd hn Nat.toDigits_ne_nil
  | cons d ds => simpa [hn] using hhead

theorem map_stem_walk : (ofScreen table a screen).walk.map (fun view => view.rule.idStem)
      = (emitted table screen).map fun e => e.1.idStem := by
  have h := congrArg (List.map fun o => o.1.idStem) (map_origin_walk table a screen)
  rwa [map_map, map_map] at h

/-- **Every view has an id of its own.**  For every tree of components, table and allocator: one
name is called for for each view, in the order of the walk, and no call collides; the elements of
the markup have these names; the names differ from each other and from those given before; and each
is the stem of the view's rule with the numeral of a positive number, the numbers of one stem
rising along the walk. -/
theorem view_ids_distinct_and_rising (table : Table) (a : Allocator) (screen : Node)
    (activity : String) :
    (a.serveAll (idCalls (emitted table screen))).1
        = (ofScreen table a screen).walk.map (fun view => .ok view.id) ∧
      ((ofScreen table a screen).elements activity).map Opening.id?
        = (ofScreen table a screen).walk.map (fun view => some (idText view.id)) ∧
      ((ofScreen table a screen).walk.map View.id).Nodup ∧
      (∀ view ∈ (ofScreen table a screen).walk, view.id ∉ a.issued) ∧
      ∃ drawn : List (String × Nat),
        (ofScreen table a screen).walk.map (fun view => view.rule.idStem) = drawn.map Prod.fst ∧
        (ofScreen table a screen).walk.map View.id = drawn.map (fun e => e.1 ++ toString e.2) ∧
        (∀ e ∈ drawn, 0 < e.2 ∧ isCount (toString e.2) = true) ∧
        drawn.Pairwise fun e f => e.1 = f.1 → e.2 < f.2 := by
  obtain ⟨b, hissues⟩ := issues_ofScreen table a screen
  obtain ⟨drawn, hstems, hanswers, habove, hrising⟩ :=
    a.exists_rising ((emitted table screen).map fun e => e.1.idStem)
  have hserved := serveAll_place table a screen
  refine ⟨hserved, map_id_elements activity _, hissues.nodup, ?_, drawn, ?_, ?_, ?_, hrising⟩
  · exact fun view hview => hissues.fresh _ (mem_map_of_mem hview)
  · rw [map_stem_walk, hstems]
  · rw [map_map] at hanswers
    have hids := congrArg Allocator.names (hserved.symm.trans hanswers)
    rwa [idAnswers, Allocator.names_map_ok, Allocator.names_map_ok] at hids
  · intro e he
    have hpos := Nat.lt_of_le_of_lt (Nat.zero_le _) (habove e he)
    exact ⟨hpos, isCount_toString hpos⟩

end Layout
end ScreenForge
