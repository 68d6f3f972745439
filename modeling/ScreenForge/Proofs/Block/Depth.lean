/-
# How deep blocks may stand

A block is visited through the slots of the blocks around it (`Visited`): in a slot of a block at
the top its depth is one, in a slot of a visited block one more than that of the block, and behind
another block of a sequence the same.  In a value slot the element that counts is visited, in a
statement slot the enabled elements of the sequence (`Holding`).
-/
import ScreenForge.Proofs.Block.Walk

namespace ScreenForge
namespace Block

open List
open Journal (settle stops)
open Markup (Element)

/-! ### Visited elements -/

/-- A slot holds an element: what counts in a value slot, and in a statement slot what is enabled in
its sequence. -/
inductive Holding (slot : Element) : Element → Prop where
  | value {e : Element} (htag : slot.tag = "value") (he : counted? slot = some e) : Holding slot e
  | link {e : Element} (htag : slot.tag = "statement") (he : e ∈ sequenceIn slot)
    (henabled : isDisabled e.attributes = false) : Holding slot e

/-- **The elements that are visited**, each at its depth. -/
inductive Visited (root : Element) : Int → Element → Prop where
  | first {top slot e : Element} (htop : top ∈ topElements root) (hslot : slot ∈ entered top)
    (he : Holding slot e) : Visited root 1 e
  | inside {depth : Int} {around slot e : Element} (haround : Visited root depth around)
    (hslot : slot ∈ around.children) (he : Holding slot e) : Visited root (depth + 1) e

/-! ### Elements read -/

namespace Met

/-- Whether an element that is met inside a block at the top is read, and not left out. -/
def isRead (m : Met) : Bool := m.route != .top && !m.isSkipped

theorem isRead_iff {m : Met} : m.isRead ↔ m.route ≠ .top ∧ m.isSkipped = false := by
  rw [isRead, Bool.and_eq_true, bne_iff_ne, Bool.not_eq_true']

end Met

variable {root : Element} {depth : Int} {m : Met} {e : Element} {limit : Int}

/-- **What is read in a slot is what the slot holds.** -/
theorem exists_mem_metSlot_iff {slot : Element} :
    (∃ m ∈ metSlot depth slot, m.isRead ∧ m.element = e) ↔ Holding slot e := by
  constructor
  · rintro ⟨m, hm, hread, rfl⟩
    obtain ⟨-, hskipped⟩ := Met.isRead_iff.1 hread
    rw [metSlot] at hm
    split at hm
    · next htag =>
      obtain ⟨c, hc, rfl⟩ := mem_map.1 hm
      exact .value htag (Option.mem_toList.1 hc)
    · split at hm
      · next htag =>
        obtain ⟨c, hc, rfl⟩ := mem_map.1 hm
        exact .link htag hc hskipped
      · cases hm
  · intro h
    cases h with
    | value htag he =>
      refine ⟨⟨.value, depth, e⟩, ?_, rfl, rfl⟩
      rw [metSlot_value htag]
      exact mem_map_of_mem (Option.mem_toList.2 he)
    | link htag he henabled =>
      refine ⟨⟨.sequence, depth, e⟩, ?_, Met.isRead_iff.2 ⟨Route.noConfusion, henabled⟩, rfl⟩
      rw [metSlot_statement htag]
      exact mem_map_of_mem he

/-! ### Visited is read -/

theorem mem_metIn_self (m : Met) : m ∈ metIn m := by
  rw [metIn_eq]
  exact mem_cons_self

/-- What is met inside an element that is read is met with it. -/
theorem mem_metIn_of_inside {n c : Met} (hm : m ∈ metIn n) (hskipped : m.isSkipped = false)
    (hc : c ∈ metInside (m.depth + 1) m.element) : c ∈ metIn n := by
  induction n using Met.induct with
  | h n ih =>
    rw [metIn_eq] at hm ⊢
    -- the element is the outer one, or is met further inside
    obtain rfl | hm := mem_cons.1 hm
    · rw [if_neg (Bool.eq_false_iff.1 hskipped)]
      exact mem_cons_of_mem _ (mem_flatMap.2 ⟨c, hc, mem_metIn_self c⟩)
    · split at hm
      · cases hm
      · next hread =>
        obtain ⟨d, hd, hm⟩ := mem_flatMap.1 hm
        rw [if_neg hread]
        exact mem_cons_of_mem _ (mem_flatMap.2 ⟨d, hd, ih d hd hm⟩)

/-- What is met below the top is met in a block at the top. -/
theorem mem_met_iff (h : m.route ≠ .top) :
    m ∈ met root ↔ ∃ top ∈ topElements root, ∃ n ∈ metInTop top, m ∈ metIn n := by
  have hne : ∀ top, m ≠ ⟨.top, 0, top⟩ := fun top heq => h (congrArg Met.route heq)
  simp [met, mem_flatMap, hne]

/-- **Visited elements are read.** -/
theorem exists_met_of_visited (h : Visited root depth e) :
    ∃ m ∈ met root, m.isRead ∧ m.depth = depth ∧ m.element = e := by
  induction h with
  | first htop hslot he =>
    obtain ⟨m, hm, hread, rfl⟩ := exists_mem_metSlot_iff.2 he
    have hroute := (Met.isRead_iff.1 hread).1
    refine ⟨m, (mem_met_iff hroute).2 ⟨_, htop, m, ?_, mem_metIn_self m⟩, hread,
      (of_mem_metSlot hm).1, rfl⟩
    rw [metInTop_eq]
    exact mem_flatMap.2 ⟨_, hslot, hm⟩
  | inside _ hslot he ih =>
    obtain ⟨n, hn, hreadn, rfl, rfl⟩ := ih
    obtain ⟨hrouten, hskippedn⟩ := Met.isRead_iff.1 hreadn
    obtain ⟨m, hm, hread, rfl⟩ := exists_mem_metSlot_iff.2 he
    have hroute := (Met.isRead_iff.1 hread).1
    obtain ⟨top, htop, first, hfirst, hin⟩ := (mem_met_iff hrouten).1 hn
    have hinside : m ∈ metInside (n.depth + 1) n.element := mem_flatMap.2 ⟨_, hslot, hm⟩
    exact ⟨m, (mem_met_iff hroute).2 ⟨top, htop, first, hfirst,
      mem_metIn_of_inside hin hskippedn hinside⟩, hread, (of_mem_metSlot hm).1, rfl⟩

/-- What is read in a slot is held by it. -/
theorem holding_of_mem_metSlot {slot : Element} (hm : m ∈ metSlot depth slot)
    (hskipped : m.isSkipped = false) : Holding slot m.element :=
  exists_mem_metSlot_iff.1
    ⟨m, hm, Met.isRead_iff.2 ⟨(of_mem_metSlot hm).2.1, hskipped⟩, rfl⟩

/-- What is met in a slot of a block at the top is visited. -/
theorem visited_of_mem_metInTop {top : Element} (htop : top ∈ topElements root)
    (hm : m ∈ metInTop top) (hskipped : m.isSkipped = false) : Visited root m.depth m.element := by
  rw [metInTop_eq] at hm
  obtain ⟨slot, hentered, hslot⟩ := mem_flatMap.1 hm
  rw [(of_mem_metSlot hslot).1]
  exact .first htop hentered (holding_of_mem_metSlot hslot hskipped)

/-- What is read inside a visited element is visited. -/
theorem visited_of_mem_metIn {n : Met} (hn : n.isSkipped = false → Visited root n.depth n.element)
    (hm : m ∈ metIn n) (hskipped : m.isSkipped = false) : Visited root m.depth m.element := by
  induction n using Met.induct with
  | h n ih =>
    rw [metIn_eq] at hm
    obtain rfl | hm := mem_cons.1 hm
    · exact hn hskipped
    · split at hm
      · cases hm
      · next hread =>
        obtain ⟨c, hc, hm⟩ := mem_flatMap.1 hm
        refine ih c hc ?_ hm
        -- the outer element is not left out, so it is visited and each of its slots counts
        intro hskippedc
        obtain ⟨slot, hslot, hcslot⟩ := mem_flatMap.1 hc
        have haround := hn (Bool.eq_false_iff.2 hread)
        have hheld : Holding slot c.element := holding_of_mem_metSlot hcslot hskippedc
        rw [(of_mem_metSlot hcslot).1]
        exact haround.inside hslot hheld

/-- **The elements that are visited are those that reading meets and does not leave out.** -/
theorem visited_iff : Visited root depth e
    ↔ ∃ m ∈ met root, m.isRead ∧ m.depth = depth ∧ m.element = e := by
  refine ⟨exists_met_of_visited, ?_⟩
  rintro ⟨m, hm, hread, rfl, rfl⟩
  obtain ⟨hroute, hskipped⟩ := Met.isRead_iff.1 hread
  obtain ⟨top, htop, first, hfirst, hin⟩ := (mem_met_iff hroute).1 hm
  exact visited_of_mem_metIn (visited_of_mem_metInTop htop hfirst) hin hskipped

/-- **The blocks of a program are those of visited elements**, each at its depth. -/
theorem visited_of_mem_levels {level : Int × Block} (h : level ∈ (programOf root).levels) :
    ∃ e, Visited root level.1 e ∧ level.2 = blockOf e := by
  obtain ⟨m, hm, rfl⟩ := mem_map.1 ((levels_programOf_perm root).mem_iff.1 h)
  obtain ⟨top, htop, hm⟩ := mem_flatMap.1 hm
  obtain ⟨first, hfirst, hin⟩ := mem_flatMap.1 hm
  obtain ⟨hmet, hread⟩ := mem_filter.1 hfirst
  obtain ⟨hmetIn, hskipped⟩ := mem_metIn_of_kept ((Bool.not_eq_true' _).mp hread) hin
  exact ⟨m.element,
    visited_of_mem_metIn (visited_of_mem_metInTop htop hmet) hmetIn hskipped, rfl⟩

/-! ### The limit -/

theorem mem_stops_visitingHere {fault : Fault} :
    fault ∈ stops (visitingHere limit depth)
      ↔ fault = .malformedBlocks (.tooDeep limit) ∧ limit < depth := by
  rw [visitingHere, Journal.stops_look]
  split
  · next hdeep => simpa using fun _ => hdeep
  · next hdeep => simpa using fun _ => Int.not_lt.1 hdeep

/-- An element that is read stops at its depth only, and no other one stops. -/
theorem stops_entries (limit : Int) (m : Met) :
    stops (m.entries limit) = if m.isRead then stops (visitingHere limit m.depth) else [] := by
  by_cases htop : m.route = .top
  · rw [Met.entries, Met.isRead, htop]
    cases topOf m.element <;> rfl
  · rw [Met.entries_of_ne_top htop, Met.isRead, bne_iff_ne.2 htop]
    cases m.isSkipped <;> rfl

/-- **Reading finds one fault at most, and finds it at the visited elements below the limit.** -/
theorem mem_stops_visitingRoot {fault : Fault} :
    fault ∈ stops (visitingRoot limit root)
      ↔ fault = .malformedBlocks (.tooDeep limit)
        ∧ ∃ depth e, Visited root depth e ∧ limit < depth := by
  rw [visitingRoot_eq, Journal.stops_flatMap, mem_flatMap]
  constructor
  · rintro ⟨m, hm, hfault⟩
    rw [stops_entries] at hfault
    split at hfault
    · next hread =>
      obtain ⟨hfault, hdeep⟩ := mem_stops_visitingHere.1 hfault
      exact ⟨hfault, m.depth, m.element, visited_iff.2 ⟨m, hm, hread, rfl, rfl⟩, hdeep⟩
    · cases hfault
  · rintro ⟨rfl, depth, e, hvisited, hdeep⟩
    obtain ⟨m, hm, hread, rfl, rfl⟩ := visited_iff.1 hvisited
    refine ⟨m, hm, ?_⟩
    rw [stops_entries, if_pos hread]
    exact mem_stops_visitingHere.2 ⟨rfl, hdeep⟩

/-- Nothing stops the reading if no visited element stands below the limit. -/
theorem stops_visitingRoot_eq_nil_iff :
    stops (visitingRoot limit root) = [] ↔ ∀ depth e, Visited root depth e → depth ≤ limit := by
  rw [eq_nil_iff_forall_not_mem]
  constructor
  · intro hnone depth e hvisited
    by_contra hdeep
    exact hnone _ (mem_stops_visitingRoot.2 ⟨rfl, depth, e, hvisited, by omega⟩)
  · intro hall fault hfault
    obtain ⟨-, depth, e, hvisited, hdeep⟩ := mem_stops_visitingRoot.1 hfault
    have hle := hall depth e hvisited
    omega

/-- **The limit on the depth is exact.**  Without a deadline reading stops at the limit exactly if a
visited element stands below it, and comes to its end otherwise.  A deadline can only put a timeout
in the place of that.  No block of a program that is read stands below the limit. -/
theorem depth_limit_exact (limit : Int) (root : Element) :
    (settle .unlimited (visitingRoot limit root) = .error (.malformedBlocks (.tooDeep limit))
        ↔ ∃ depth e, Visited root depth e ∧ limit < depth)
      ∧ ((∃ report, settle .unlimited (visitingRoot limit root) = .ok report)
        ↔ ∀ depth e, Visited root depth e → depth ≤ limit)
      ∧ (∀ timer, settle timer (visitingRoot limit root)
            = settle .unlimited (visitingRoot limit root)
          ∨ ∃ stage seconds,
            settle timer (visitingRoot limit root) = .error (.timeout stage seconds))
      ∧ ∀ timer report, settle timer (visitingRoot limit root) = .ok report →
          ∀ level ∈ (programOf root).levels, level.1 ≤ limit := by
  refine ⟨?_, ?_, fun timer => Journal.settle_eq_or_timeout timer _, ?_⟩
  · rw [Journal.settle_unlimited_eq_error_iff]
    constructor
    · intro hfirst
      exact (mem_stops_visitingRoot.1 (mem_of_mem_head? hfirst)).2
    · intro hdeep
      -- there is a fault, and whichever is the first, it is this one
      have hmem := mem_stops_visitingRoot.2 ⟨rfl, hdeep⟩
      have hfirst := List.head?_eq_some_head (ne_nil_of_mem hmem)
      rw [hfirst, (mem_stops_visitingRoot.1 (mem_of_mem_head? hfirst)).1]
  · rw [← stops_visitingRoot_eq_nil_iff]
    constructor
    · rintro ⟨report, h⟩
      exact Journal.stops_eq_nil_of_settle h
    · intro h
      exact ⟨_, Journal.settle_unlimited_eq_ok_iff.2 ⟨h, rfl⟩⟩
  · intro timer report h level hlevel
    obtain ⟨e, hvisited, -⟩ := visited_of_mem_levels hlevel
    exact stops_visitingRoot_eq_nil_iff.1 (Journal.stops_eq_nil_of_settle h) _ _ hvisited

end Block
end ScreenForge
