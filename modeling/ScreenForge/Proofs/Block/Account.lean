/-
# An account of the blocks of a descriptor

Every block at the top of a descriptor gives one thing (`Gives`): a handler, a declaration or a
report.  The elements of a statement slot are the links of a chain (`Chain`), whether they are
disabled or not; the sequence of the slot is made of the enabled links, and each disabled link is
reported.
-/
import Mathlib.Data.List.Forall2
import ScreenForge.Proofs.Block.Depth
import ScreenForge.Proofs.Block.Disabled

namespace ScreenForge
namespace Block

open List
open Journal (notes settle)
open Markup (Element)

namespace Top

/-- Why an element is left out. -/
def reason? : Top → Option Diagnostic
  | .skipped reason => some reason
  | _ => none

end Top

/-! ### Reports -/

/-- The report of a disabled link. -/
def linkReport (e : Element) : Diagnostic :=
  .warning .disabledBlock "Disabled block skipped" (some (e.get "type"))

/-- The reports of the disabled links of a statement slot, in order. -/
def linkReports (slot : Element) : List Diagnostic :=
  ((sequenceIn slot).filter fun e => isDisabled e.attributes).map linkReport

/-- The statement slots inside an element, if it is read. -/
def Met.slots (m : Met) : List Element :=
  if m.isRead then named "statement" m.element.children else []

/-- The statement slots that reading a descriptor enters, each as often as it is entered. -/
def statementSlots (root : Element) : List Element :=
  (topElements root).flatMap (fun e => named "statement" (entered e))
    ++ (met root).flatMap Met.slots

/-- **The slots that are entered are those of the blocks at the top and of visited elements.** -/
theorem mem_statementSlots_iff {root slot : Element} :
    slot ∈ statementSlots root ↔ slot.tag = "statement"
      ∧ ((∃ top ∈ topElements root, slot ∈ entered top)
        ∨ ∃ depth e, Visited root depth e ∧ slot ∈ e.children) := by
  rw [statementSlots, mem_append, mem_flatMap, mem_flatMap]
  constructor
  · rintro (⟨top, htop, hslot⟩ | ⟨m, hm, hslot⟩)
    · obtain ⟨hentered, htag⟩ := mem_named_iff.1 hslot
      exact ⟨htag, .inl ⟨top, htop, hentered⟩⟩
    · rw [Met.slots] at hslot
      split at hslot
      · next hread =>
        obtain ⟨hchild, htag⟩ := mem_named_iff.1 hslot
        exact ⟨htag, .inr ⟨m.depth, m.element, visited_iff.2 ⟨m, hm, hread, rfl, rfl⟩, hchild⟩⟩
      · cases hslot
  · rintro ⟨htag, ⟨top, htop, hentered⟩ | ⟨depth, e, hvisited, hchild⟩⟩
    · exact .inl ⟨top, htop, mem_named_iff.2 ⟨hentered, htag⟩⟩
    · obtain ⟨m, hm, hread, rfl, rfl⟩ := visited_iff.1 hvisited
      refine .inr ⟨m, hm, ?_⟩
      rw [Met.slots, if_pos hread]
      exact mem_named_iff.2 ⟨hchild, htag⟩

section Notes

variable (limit : Int) (depth : Int)

/-- A block at the top notes why it gives no declaration. -/
theorem notes_entries_top (e : Element) :
    notes (Met.entries limit ⟨.top, 0, e⟩) = (topOf e).reason?.toList := by
  rw [Met.entries]
  cases topOf e <;> rfl

/-- A link notes that it is disabled, and nothing else. -/
theorem notes_entries_sequence (e : Element) :
    notes (Met.entries limit ⟨.sequence, depth, e⟩)
      = if isDisabled e.attributes then [linkReport e] else [] := by
  have hentries : Met.entries limit ⟨.sequence, depth, e⟩
      = if isDisabled e.attributes then [disabledNote "Disabled block skipped" (e.get "type")]
        else visitingHere limit depth := rfl
  rw [hentries]
  split
  · rfl
  · exact notes_visitingHere limit depth

/-- What the elements right inside a slot note themselves. -/
theorem notes_metSlot (slot : Element) :
    (metSlot depth slot).flatMap (fun m => notes (m.entries limit))
      = if slot.tag == "statement" then linkReports slot else [] := by
  rw [metSlot]
  split
  · next hvalue =>
    rw [hvalue, metHeld, flatMap_map]
    exact flatMap_eq_nil_iff.2 fun e _ => notes_visitingHere limit depth
  · split
    · next hstatement =>
      rw [hstatement, metSequence, flatMap_map, if_pos (beq_self_eq_true _), linkReports,
        map_eq_flatMap, flatMap_filter]
      exact flatMap_congr fun e _ => notes_entries_sequence limit depth e
    · next hstatement => rw [if_neg fun h => hstatement (beq_iff_eq.1 h), flatMap_nil]

/-- What the elements right inside some slots note themselves. -/
theorem notes_metSlots (slots : List Element) :
    (slots.flatMap (metSlot depth)).flatMap (fun m => notes (m.entries limit))
      = (named "statement" slots).flatMap linkReports := by
  rw [flatMap_assoc, named, flatMap_filter]
  exact flatMap_congr fun slot _ => notes_metSlot limit depth slot

/-- The reports of the disabled links in the slots of what is met. -/
def slotReports (m : Met) : List Diagnostic := m.slots.flatMap linkReports

/-- **What is noted inside an element**: what it notes itself, and the disabled links of the slots
that are entered. -/
theorem notes_metIn_perm {m : Met} (h : m.route ≠ .top) :
    ((metIn m).flatMap fun n => notes (n.entries limit)).Perm
      (notes (m.entries limit) ++ (metIn m).flatMap slotReports) := by
  induction m using Met.induct with
  | h m ih =>
    rw [metIn_eq, flatMap_cons]
    refine List.Perm.append_left _ ?_
    cases hskipped : m.isSkipped with
    | true =>
      have hslots : slotReports m = [] := by
        rw [slotReports, Met.slots, Met.isRead, hskipped, Bool.not_true, Bool.and_false,
          if_neg Bool.false_ne_true, flatMap_nil]
      rw [if_pos rfl, flatMap_singleton, hslots, flatMap_nil]
    | false =>
      have hslots : slotReports m = (metInside (m.depth + 1) m.element).flatMap fun c =>
          notes (c.entries limit) := by
        rw [slotReports, Met.slots, if_pos (Met.isRead_iff.2 ⟨h, hskipped⟩), metInside,
          notes_metSlots]
      rw [if_neg Bool.false_ne_true, flatMap_cons, hslots, flatMap_assoc, flatMap_assoc]
      -- what each element inside notes goes to the front
      refine List.Perm.trans ?_ (flatMap_append_perm _ _ _).symm
      refine List.Perm.flatMap_left _ fun c hc => ?_
      obtain ⟨slot, -, hcslot⟩ := mem_flatMap.1 hc
      exact ih c hc (of_mem_metSlot hcslot).2.1

/-- What a block at the top and all inside it note. -/
theorem notes_top_perm (e : Element) :
    ((⟨.top, 0, e⟩ :: (metInTop e).flatMap metIn : List Met).flatMap
        fun m => notes (m.entries limit)).Perm
      ((topOf e).reason?.toList ++ ((named "statement" (entered e)).flatMap linkReports
        ++ (⟨.top, 0, e⟩ :: (metInTop e).flatMap metIn : List Met).flatMap slotReports)) := by
  have hslots : slotReports ⟨.top, 0, e⟩ = [] := rfl
  rw [flatMap_cons, notes_entries_top, flatMap_cons, hslots, nil_append,
    ← notes_metSlots limit 1, ← metInTop_eq, flatMap_assoc, flatMap_assoc]
  refine List.Perm.append_left _ ?_
  refine List.Perm.trans ?_ (flatMap_append_perm _ _ _).symm
  refine List.Perm.flatMap_left _ fun m hm => ?_
  rw [metInTop_eq] at hm
  obtain ⟨slot, -, hslot⟩ := mem_flatMap.1 hm
  exact notes_metIn_perm limit (of_mem_metSlot hslot).2.1

/-- **The report of reading a descriptor**: the blocks at the top that are left out, and the
disabled links of the slots that are entered. -/
theorem notes_visitingRoot_perm (root : Element) :
    (notes (visitingRoot limit root)).Perm
      (((topElements root).map topOf).filterMap Top.reason?
        ++ (statementSlots root).flatMap linkReports) := by
  have hreasons : ((topElements root).map topOf).filterMap Top.reason?
      = (topElements root).flatMap fun e => (topOf e).reason?.toList := by
    rw [filterMap_map, filterMap_eq_flatMap_toList]
    rfl
  rw [visitingRoot_eq, Journal.notes_flatMap, hreasons, statementSlots, flatMap_append,
    flatMap_assoc, flatMap_assoc, met, flatMap_assoc, flatMap_assoc]
  refine (List.Perm.flatMap_left _ fun e _ => notes_top_perm limit e).trans ?_
  refine (flatMap_append_perm _ _ _).symm.trans ?_
  exact List.Perm.append_left _ (flatMap_append_perm _ _ _).symm

end Notes

/-! ### The account -/

/-- An account of a descriptor's blocks, in its program and its report. -/
structure Accounts (root : Element) (report : List Diagnostic) : Prop where
  /-- The elements of a statement slot are the links of its chain. -/
  chains : ∀ slot, Chain (first? slot) (sequenceIn slot)
  /-- The slots that are entered are those of the blocks at the top and of visited elements. -/
  slots : ∀ slot, slot ∈ statementSlots root ↔ slot.tag = "statement"
    ∧ ((∃ top ∈ topElements root, slot ∈ entered top)
      ∨ ∃ depth e, Visited root depth e ∧ slot ∈ e.children)
  /-- Each block at the top gives one thing, and these are the declarations, in order, and the
  report, together with the disabled links of the slots that are entered. -/
  tops : ∃ tops, List.Forall₂ Gives (topElements root) tops
    ∧ (programOf root).handlers = tops.filterMap Top.handler?
    ∧ (programOf root).globals = tops.filterMap Top.global?
    ∧ (programOf root).procedures = tops.filterMap Top.procedure?
    ∧ report.Perm (tops.filterMap Top.reason? ++ (statementSlots root).flatMap linkReports)
  /-- The sequences inside a block are made of the enabled links of its slots. -/
  blocks : ∀ level ∈ (programOf root).levels, ∃ e, Visited root level.1 e ∧ level.2 = blockOf e
    ∧ level.2.statements = Assoc.ofList ((named "statement" e.children).map fun slot =>
        (slot.get "name", (enabledIn slot).map blockOf))

/-- **Every block of a descriptor that is read is accounted for.** -/
theorem blocks_accounted_for {timer : Timer} {limit : Int} {root : Element}
    {report : List Diagnostic} (h : settle timer (visitingRoot limit root) = .ok report) :
    Accounts root report where
  chains := chain_sequenceIn
  slots _ := mem_statementSlots_iff
  tops := by
    obtain rfl := Journal.eq_notes_of_settle h
    refine ⟨(topElements root).map topOf, ?_, ?_, ?_, ?_, notes_visitingRoot_perm limit root⟩
    · exact forall₂_map_right_iff.2 (forall₂_same.2 fun e _ => gives_topOf e)
    all_goals rw [programOf_eq]
  blocks level hlevel := by
    obtain ⟨e, hvisited, hblock⟩ := visited_of_mem_levels hlevel
    exact ⟨e, hvisited, hblock, hblock ▸ statements_blockOf e⟩

/-- A loop over a disabled block and the one behind it, in front of a disabled shadow. -/
def loopElement : Element :=
  plainElement "block" [("type", "controls_while")] [
    plainElement "statement" [("name", "DO")] [pausedElement],
    plainElement "next" [] [
      plainElement "shadow" [("type", "text"), ("disabled", "True")] []]]

/-- A handler whose chain starts with a disabled block, behind a shadow that does not count. -/
def clickElement : Element :=
  plainElement "block" [("type", "component_event")] [
    plainElement "mutation" [("instance_name", "Button1"), ("event_name", "Click")] [],
    plainElement "statement" [("name", "DO")] [
      plainElement "shadow" [("type", "text")] [],
      plainElement "block" [("type", "controls_if"), ("disabled", "true")] [
        plainElement "next" [] [loopElement]]]]

/-- An event block without an event. -/
def namelessElement : Element :=
  plainElement "block" [("type", "component_event")] [
    plainElement "mutation" [("instance_name", "Button1")] []]

/-- A descriptor with blocks of all kinds at the top. -/
def mixedRoot : Element :=
  plainElement "xml" [] [pausedGlobal, clickElement, namelessElement, leaveElement, pausedProcedure]

/-- Its report. -/
def mixedReports : List Diagnostic := [
  .warning .disabledBlock "Disabled top-level block skipped" (some "global_declaration"),
  .warning .disabledBlock "Disabled block skipped" (some "controls_if"),
  .warning .disabledBlock "Disabled block skipped" (some "controls_break"),
  .warning .disabledBlock "Disabled block skipped" (some "text"),
  .warning .unsupportedEvent "Event block without an event name ignored" (some "Button1"),
  .warning .orphanBlock "Top-level block outside any event handler ignored" (some "controls_break"),
  .warning .disabledBlock "Disabled block skipped" (some "controls_break")]

/-- **The blocks of the descriptor are accounted for**: three at the top that are left out, a
handler, a procedure, and four disabled links. -/
theorem mixed_blocks_accounted_for :
    settle .unlimited (visitingRoot 64 mixedRoot) = .ok mixedReports
      ∧ ((programOf mixedRoot).handlers.map Handler.body = [[blockOf loopElement]]
        ∧ (programOf mixedRoot).globals.length = 0
        ∧ (programOf mixedRoot).procedures.map Procedure.body = [[blockOf leaveElement]])
      ∧ Accounts mixedRoot mixedReports := by
  have hsettle : settle .unlimited (visitingRoot 64 mixedRoot) = .ok mixedReports := by
    rw [Journal.settle_unlimited_eq_ok_iff]
    decide +kernel
  exact ⟨hsettle, ⟨rfl, rfl, rfl⟩, blocks_accounted_for hsettle⟩

end Block
end ScreenForge
