/-
# Blocks that are walked, and blocks that are lost

A block says in its fields and in its mutation how many slots it has, and the slots that it fills
may be others.  A slot that it names and does not fill is reported (`gap`); one that it fills and
does not name is `unread`: nobody walks what is in it, and nobody reports it.

To be met is to be handed to the writer of code: every handover looks at the clock once, and the
looks are counted by sites.
-/
import Mathlib.Data.List.Nodup
import ScreenForge.Proofs.Block.Walk
import ScreenForge.Proofs.Code.Argument
import ScreenForge.Proofs.Scope.Defect

namespace ScreenForge

open List
open Block (Part)

namespace Code

/-! ### Numbered slots differ -/

theorem nodup_slotNames (stem : String) (count : Int) : (slotNames stem count).Nodup :=
  List.Nodup.map (fun _ _ h => Allocator.append_toString_inj h) nodup_range

end Code

namespace Block

/-! ### The slots of a block -/

/-- Slots of one sort have different names. -/
structure HasDistinctSlots (b : Block) : Prop where
  values : (Assoc.keys b.values).Nodup
  statements : (Assoc.keys b.statements).Nodup

instance (b : Block) : Decidable (HasDistinctSlots b) :=
  decidable_of_iff ((Assoc.keys b.values).Nodup ∧ (Assoc.keys b.statements).Nodup)
    ⟨fun h => ⟨h.1, h.2⟩, fun h => ⟨h.values, h.statements⟩⟩

/-- The slots that a block fills, as parts. -/
def slots (b : Block) : List Part :=
  b.values.map (fun v => .slot v.1) ++ b.statements.map fun s => .body s.1

/-- The slots of a block that are not among its parts in a role. -/
def unread (b : Block) (role : Site.Role) : List Part :=
  b.slots.filter fun part => !(b.partsIn role).contains part

variable {b : Block}

theorem nodup_operandSlots (h : b.HasDistinctSlots) : b.operandSlots.Nodup := by
  unfold operandSlots
  split
  · split
    · exact Code.nodup_slotNames _ _
    · decide
  · decide
  · decide
  · decide
  · decide
  · decide
  · exact Code.nodup_slotNames _ _
  · exact Code.nodup_slotNames _ _
  · cases hslots : Code.argSlots? (b.values.map Prod.fst) with
    | none => exact nodup_nil
    | some slots => exact (Code.argSlots?_perm hslots).nodup_iff.2 (h.values.filter _)
  · exact Code.nodup_slotNames _ _
  · exact nodup_nil

theorem nodup_branchParts (b : Block) : b.branchParts.Nodup := by
  have harms : ∀ count, ((List.range count).flatMap fun i =>
      [Part.slot ("IF" ++ toString i), .body ("DO" ++ toString i)]).Nodup := by
    intro count
    rw [nodup_flatMap]
    refine ⟨fun i _ => by simp, nodup_range.imp fun {i j} hne part hi hj => hne ?_⟩
    simp only [mem_cons, not_mem_nil, or_false] at hi hj
    obtain rfl | rfl := hi <;> obtain hj | hj := hj
    · exact Allocator.append_toString_inj (Part.slot.inj hj)
    · cases hj
    · cases hj
    · exact Allocator.append_toString_inj (Part.body.inj hj)
  rw [branchParts]
  split
  · rw [append_nil]
    exact harms _
  · refine (harms _).append (nodup_singleton _) fun part harm helse => ?_
    obtain ⟨i, -, hpart⟩ := mem_flatMap.1 harm
    rw [mem_singleton.1 helse] at hpart
    simp only [mem_cons, not_mem_nil, or_false, reduceCtorEq, false_or] at hpart
    have hfirst := congrArg (fun s => s.toList.head?) (Part.body.inj hpart)
    simp [String.toList_append] at hfirst

/-- **No part of a block is walked twice.** -/
theorem nodup_partsIn (h : b.HasDistinctSlots) (role : Site.Role) : (b.partsIn role).Nodup := by
  have hoperands : (b.operandSlots.map Part.slot).Nodup :=
    (nodup_operandSlots h).map fun _ _ => Part.slot.inj
  cases role with
  | value => exact hoperands
  | act =>
    change b.parts.Nodup
    unfold parts
    split
    · exact nodup_branchParts b
    · split <;> simp
    · simp
    · simp
    · simp
    · simp
    · refine List.Nodup.append ?_ (nodup_singleton _) ?_
      · exact nodup_range.map fun _ _ h => Allocator.append_toString_inj (Part.slot.inj h)
      · simp
    · exact hoperands

/-! ### Parts and unread slots -/

theorem nodup_slots (h : b.HasDistinctSlots) : b.slots.Nodup := by
  have hvalues : (b.values.map fun v => Part.slot v.1) = (Assoc.keys b.values).map .slot := by
    rw [Assoc.keys, map_map]
    rfl
  have hstatements : (b.statements.map fun s => Part.body s.1)
      = (Assoc.keys b.statements).map .body := by
    rw [Assoc.keys, map_map]
    rfl
  rw [slots, hvalues, hstatements]
  refine List.Nodup.append (h.values.map fun _ _ => Part.slot.inj)
    (h.statements.map fun _ _ => Part.body.inj) fun part hslot hbody => ?_
  obtain ⟨name, -, rfl⟩ := mem_map.1 hslot
  obtain ⟨other, -, heq⟩ := mem_map.1 hbody
  cases heq

/-- What is inside a block with distinct slots stands in its slots. -/
theorem inside_eq (h : b.HasDistinctSlots) : b.inside = b.slots.flatMap b.inPart := by
  rw [inside, slots, flatMap_append, flatMap_map, flatMap_map, filterMap_eq_flatMap_toList]
  congr 1
  · refine flatMap_congr fun v hv => ?_
    rw [inPart, value?, Assoc.lookup_of_mem h.values hv, Option.join_some]
  · refine flatMap_congr fun s hs => ?_
    rw [inPart, body, Assoc.lookup_of_mem h.statements hs, Option.getD_some]

/-- What stands in a part stands in a slot. -/
theorem mem_slots_of_mem_inPart {part : Part} {c : Block} (h : c ∈ b.inPart part) :
    part ∈ b.slots := by
  cases part with
  | slot name =>
    have hlookup : b.values.lookup name = some (some c) :=
      Option.join_eq_some_iff.1 (Option.mem_toList.1 h)
    exact mem_append_left _ (mem_map.2 ⟨_, Assoc.mem_of_lookup hlookup, rfl⟩)
  | body name =>
    rw [inPart, body] at h
    cases hlookup : b.statements.lookup name with
    | none =>
      rw [hlookup] at h
      cases h
    | some blocks =>
      exact mem_append_right _ (mem_map.2 ⟨_, Assoc.mem_of_lookup hlookup, rfl⟩)

/-- **What a block holds is in its parts or in unread slots.** -/
theorem inside_perm (h : b.HasDistinctSlots) (role : Site.Role) :
    b.inside.Perm ((b.partsIn role).flatMap b.inPart ++ (b.unread role).flatMap b.inPart) := by
  have hread : (b.slots.filter fun part => (b.partsIn role).contains part).Perm
      ((b.partsIn role).filter fun part => b.slots.contains part) := by
    refine (perm_ext_iff_of_nodup ((nodup_slots h).filter _)
      ((nodup_partsIn h role).filter _)).2 fun part => ?_
    simp only [mem_filter, contains_iff_mem]
    exact And.comm
  -- a part that fills no slot holds nothing
  have hparts : ((b.partsIn role).filter fun part => b.slots.contains part).flatMap b.inPart
      = (b.partsIn role).flatMap b.inPart := by
    induction b.partsIn role with
    | nil => rfl
    | cons part rest ih =>
      rw [flatMap_cons, ← ih]
      by_cases hpart : b.slots.contains part = true
      · rw [filter_cons_of_pos hpart, flatMap_cons]
      · have hnil : b.inPart part = [] := eq_nil_iff_forall_not_mem.2 fun c hc =>
          hpart (contains_iff_mem.2 (mem_slots_of_mem_inPart hc))
        rw [filter_cons_of_neg hpart, hnil, nil_append]
  rw [inside_eq h, ← hparts, ← flatMap_append]
  refine List.Perm.flatMap_right _ ?_
  exact (filter_append_perm _ _).symm.trans (hread.append_right _)

end Block

namespace Site

open Journal (Entry notes settle)
open Kotlin (Env Scope Target)

variable {p : Block.Program}

/-! ### The account of a declaration -/

/-- How deep in its declaration a site stands, and its block. -/
def level (s : Site) : Int × Block := (s.levels.length + 1, s.block)

/-- The blocks in the slots of a site that are not read. -/
def unread (s : Site) : List Block := (s.block.unread s.role).flatMap s.block.inPart

/-- The blocks that are lost at a site: those in unread slots and all below them. -/
def lost (s : Site) : List (Int × Block) := s.unread.flatMap (Block.levels (s.levels.length + 2))

/-- **Every block in a block is walked once or lost at one site.** -/
theorem levels_perm_sitesIn {root : Root} {levels : List Level} {role : Role} {b : Block}
    (h : ∀ l ∈ b.levels (levels.length + 1), l.2.HasDistinctSlots) :
    (b.levels (levels.length + 1)).Perm
      ((sitesIn root levels role b).flatMap fun s => s.level :: s.lost) := by
  induction b using Block.inductParts generalizing levels role with
  | h b ih =>
    rw [Block.levels_eq] at h ⊢
    obtain ⟨hb, hinside⟩ := forall_mem_cons.1 h
    have hdepth : ∀ part : Part, ((levels.length : Int) + 1) + 1
        = (((⟨b, part⟩ : Level) :: levels).length : Int) + 1 := by
      intro part
      rw [length_cons]
      push_cast
      rfl
    have hparts : (((b.partsIn role).flatMap b.inPart).flatMap
          (Block.levels ((levels.length : Int) + 1 + 1))).Perm
        (((b.partsIn role).flatMap fun part =>
          (b.inPart part).flatMap (sitesIn root (⟨b, part⟩ :: levels) part.role)).flatMap
            fun s => s.level :: s.lost) := by
      rw [flatMap_assoc, flatMap_assoc]
      refine List.Perm.flatMap_left _ fun part _ => ?_
      rw [flatMap_assoc]
      refine List.Perm.flatMap_left _ fun c hc => ?_
      rw [hdepth part]
      refine ih part c hc fun l hl => hinside l (mem_flatMap.2 ⟨c, ?_, ?_⟩)
      · rw [Block.inside_eq hb]
        exact mem_flatMap.2 ⟨part, Block.mem_slots_of_mem_inPart hc, hc⟩
      · rwa [hdepth part]
    have hlost : ((b.unread role).flatMap b.inPart).flatMap
        (Block.levels ((levels.length : Int) + 1 + 1)) = lost ⟨root, levels, role, b⟩ := by
      rw [lost, unread, Int.add_assoc]
      rfl
    have hsplit := ((Block.inside_perm hb role).flatMap_right
      (Block.levels ((levels.length : Int) + 1 + 1)))
    rw [flatMap_append, hlost] at hsplit
    rw [sitesIn_eq, flatMap_append, flatMap_singleton]
    exact ((hsplit.trans (hparts.append_right _)).cons _).trans perm_middle.symm

/-- The results of procedures that return none. -/
def idleResults (p : Block.Program) : List Block :=
  p.procedures.flatMap fun q => if q.returnsValue then [] else q.result.toList

theorem firstsAfter_eq_self {α : Type} {name : α → String} {seen : List String} {items : List α}
    (h : Code.repeatsAfter seen (items.map name) = []) :
    Code.firstsAfter name seen items = items := by
  induction items generalizing seen with
  | nil => rfl
  | cons a rest ih =>
    rw [map_cons, Code.repeatsAfter] at h
    rw [Code.firstsAfter]
    split at h
    · cases h
    · next hnew => rw [if_neg hnew, ih h]

/-- **A program without reports has every declaration walked.** -/
theorem roots_of_quiet (h : duplicateReports p = []) :
    roots p = p.globals.map .initial ++ p.handlers.map .handler ++ p.procedures.map .procedure := by
  have hnotes : ∀ (what : String) (names : List String),
      notes (names.map (Kotlin.duplicateNote what)) = [] → names = [] := by
    intro what names hnames
    cases names with
    | nil => rfl
    | cons name rest => cases hnames
  rw [duplicateReports, duplicateNotes, Journal.notes_append, append_eq_nil_iff] at h
  rw [roots, Code.firsts, Code.firsts, firstsAfter_eq_self (hnotes _ _ h.1),
    firstsAfter_eq_self (hnotes _ _ h.2)]

/-- The blocks of a program are those of its declarations, and idle results. -/
theorem blocks_perm_roots (h : duplicateReports p = []) :
    p.blocks.Perm (((roots p).flatMap fun root => root.blocks.map Prod.snd) ++ idleResults p) := by
  have hglobals : (p.globals.map Root.initial).flatMap (fun root => root.blocks.map Prod.snd)
      = p.globals.filterMap Block.Global.value := by
    rw [flatMap_map, filterMap_eq_flatMap_toList]
    refine flatMap_congr fun g _ => ?_
    rw [Root.blocks, map_map]
    exact map_id _
  have hbodies : ∀ blocks : List Block,
      (blocks.map fun b => (Role.act, b)).map Prod.snd = blocks := fun blocks => by
    rw [map_map]
    exact map_id blocks
  have hhandlers : (p.handlers.map Root.handler).flatMap (fun root => root.blocks.map Prod.snd)
      = p.handlers.flatMap Block.Handler.body := by
    rw [flatMap_map]
    exact flatMap_congr fun g _ => hbodies _
  have hprocedures : (p.procedures.flatMap fun q => q.body ++ q.result.toList).Perm
      ((p.procedures.map Root.procedure).flatMap (fun root => root.blocks.map Prod.snd)
        ++ idleResults p) := by
    rw [flatMap_map, idleResults]
    refine List.Perm.trans (.of_eq ?_) (flatMap_append_perm _ _ _).symm
    refine flatMap_congr fun q _ => ?_
    rw [Root.blocks, map_append, hbodies]
    cases q.returnsValue with
    | false => simp
    | true =>
      rw [if_pos rfl, if_pos rfl, map_map, append_nil]
      exact congrArg (q.body ++ ·) (map_id _).symm
  rw [roots_of_quiet h, Block.Program.blocks, flatMap_append, flatMap_append, hglobals,
    hhandlers, append_assoc _ _ (idleResults p)]
  exact perm_append_comm.append hprocedures

/-- **Every block of a program is walked once, or lost at one site, or in an idle result.** -/
theorem levels_perm_sites (hslots : ∀ l ∈ p.levels, l.2.HasDistinctSlots)
    (h : duplicateReports p = []) : p.levels.Perm (p.sites.map level
      ++ (p.sites.flatMap lost ++ (idleResults p).flatMap (Block.levels 1))) := by
  have hblocks := (blocks_perm_roots h).flatMap_right (Block.levels 1)
  have hdeclared : (((roots p).flatMap fun root => root.blocks.map Prod.snd).flatMap
      (Block.levels 1)).Perm (p.sites.flatMap fun s => s.level :: s.lost) := by
    have hmem : ∀ root ∈ roots p, ∀ b ∈ root.blocks, ∀ l ∈ b.2.levels 1,
        l.2.HasDistinctSlots := by
      intro root hroot b hb l hl
      refine hslots l (hblocks.mem_iff.2 (mem_flatMap.2 ⟨b.2, ?_, hl⟩))
      exact mem_append_left _ (mem_flatMap.2 ⟨root, hroot, mem_map_of_mem hb⟩)
    rw [Block.Program.sites, flatMap_assoc, flatMap_assoc]
    refine List.Perm.flatMap_left _ fun root hroot => ?_
    rw [Root.sites_eq, flatMap_map, flatMap_assoc]
    exact List.Perm.flatMap_left _ fun b hb =>
      @levels_perm_sitesIn root [] b.1 b.2 (hmem root hroot b hb)
  have hsites : (p.sites.flatMap fun s => s.level :: s.lost).Perm
      (p.sites.map level ++ p.sites.flatMap lost) :=
    (map_append_flatMap_perm p.sites level lost).symm
  rw [flatMap_append] at hblocks
  rw [← append_assoc]
  exact hblocks.trans ((hdeclared.trans hsites).append_right _)

/-- **A program that is read from a descriptor has slots of different names.** -/
theorem hasDistinctSlots_programOf (root : Markup.Element) :
    ∀ l ∈ (Block.programOf root).levels, l.2.HasDistinctSlots := by
  intro l hl
  obtain ⟨m, -, rfl⟩ := mem_map.1 ((Block.levels_programOf_perm root).mem_iff.1 hl)
  rw [Block.blockOf_eq]
  exact ⟨Assoc.nodup_keys_ofList _, Assoc.nodup_keys_ofList _⟩

theorem idleResults_programOf (root : Markup.Element) :
    idleResults (Block.programOf root) = [] := by
  refine flatMap_eq_nil_iff.2 fun q hq => ?_
  cases hreturns : q.returnsValue with
  | true => rfl
  | false => rw [Block.result_eq_none_of_mem hq hreturns]; rfl

/-! ### Handovers -/

/-- The stage in which an entry looks at the clock. -/
def stage? : Entry → Option Stage
  | .look stage => some stage
  | _ => none

theorem aside_stage? : Code.Aside stage? := fun _ _ => rfl

theorem stages_looks (stages : List Stage) :
    (stages.map Entry.look).filterMap stage? = stages := by
  rw [filterMap_map]
  exact filterMap_some

theorem stages_own (env : Env) (scope : Scope) (role : Role) (b : Block) :
    (own env scope role b).filterMap stage? = [] := by
  rw [filterMap_own aside_stage? fun _ => rfl]
  exact flatMap_eq_nil_iff.2 fun name _ =>
    Code.filterMap_variableNotes (fun _ => rfl) env scope name

theorem stages_remarks (t : Target) (p : Block.Program) (s : Site) :
    (s.remarks t p).filterMap stage? = [] := by
  rw [remarks, filterMap_append, stages_own, append_nil, filterMap_flatMap]
  exact flatMap_eq_nil_iff.2 fun part _ => filterMap_gap aside_stage? _ part

/-- **The looks at the clock are those of declarations and sites.** -/
theorem stages_program (t : Target) (p : Block.Program) :
    ((t.review (.ofBlocks p)).filterMap stage?).Perm
      ((roots p).flatMap Root.handovers
        ++ p.sites.flatMap fun s => handovers s.role s.block) := by
  simpa only [filterMap_append, filterMap_duplicateNotes aside_stage?, nil_append,
    filterMap_flatMap, stages_looks, Root.filterMap_own aside_stage?, stages_remarks,
    append_nil] using (review_perm_sites t p).filterMap stage?

/-- **How often writing a program looks at the clock**: for every handler and procedure, for every
block on the walk, and once more for every value that stands where something is to be done. -/
theorem looks_review {t : Target} (h : duplicateReports p = []) :
    Journal.looks (t.review (.ofBlocks p)) = p.handlers.length + p.procedures.length
      + p.sites.length + p.sites.countP fun s => isHandedOn s.role s.block := by
  have hlooks : ∀ journal : List Entry,
      Journal.looks journal = (journal.filterMap stage?).length := by
    intro journal
    induction journal with
    | nil => rfl
    | cons e rest ih =>
      cases e with
      | look stage => exact (countP_cons_of_pos rfl).trans (congrArg (· + 1) ih)
      | note d | stop cause => exact (countP_cons_of_neg Bool.false_ne_true).trans ih
  have hsites : ∀ sites : List Site,
      (sites.flatMap fun s => handovers s.role s.block).length
        = sites.length + sites.countP fun s => isHandedOn s.role s.block := by
    intro sites
    induction sites with
    | nil => rfl
    | cons s rest ih =>
      rw [flatMap_cons, length_append, ih, length_cons, countP_cons, handovers]
      split <;> simp_all <;> omega
  rw [hlooks, (stages_program t p).length_eq, length_append, hsites, roots_of_quiet h]
  have hnone : (p.globals.map Root.initial).flatMap Root.handovers = [] := by
    rw [flatMap_map, flatMap_eq_nil_iff]
    exact fun g _ => rfl
  have hone : ∀ {α : Type} (items : List α),
      (items.flatMap fun _ => [Stage.blockCompilation]).length = items.length := by
    intro α items
    simp
  rw [flatMap_append, flatMap_append, hnone, nil_append, length_append, flatMap_map, flatMap_map]
  simp only [Root.handovers, hone]
  omega

/-- **Without a report every block is walked once, up to what is not read.**  Let the slots of each
block have different names, and let the program be written without a report.  Then its blocks are
those on the walk, each met once, and those that are lost in unread slots or idle results.  All are
walked exactly if no site has a block in an unread slot and no result is idle.  The writer of code
is handed every block on the walk, and one that is a value where something is to be done a second
time, as an expression. -/
theorem walked_once_iff_no_unread {t : Target} {p : Block.Program}
    (hslots : ∀ l ∈ p.levels, l.2.HasDistinctSlots)
    (hquiet : settle .unlimited (t.review (.ofBlocks p)) = .ok []) :
    p.levels.Perm (p.sites.map level
      ++ (p.sites.flatMap lost ++ (idleResults p).flatMap (Block.levels 1)))
    ∧ (p.levels.Perm (p.sites.map level)
      ↔ (∀ s ∈ p.sites, s.unread = []) ∧ idleResults p = [])
    ∧ Journal.looks (t.review (.ofBlocks p)) = p.handlers.length + p.procedures.length
      + p.sites.length + p.sites.countP fun s => isHandedOn s.role s.block := by
  have hduplicates : duplicateReports p = [] := by
    obtain ⟨-, hnotes⟩ := Journal.settle_unlimited_eq_ok_iff.1 hquiet
    rw [review_ofBlocks, Journal.notes_append] at hnotes
    exact (append_eq_nil_iff.1 hnotes.symm).1
  have haccount := levels_perm_sites hslots hduplicates
  have hbelow : ∀ (depth : Int) (blocks : List Block),
      blocks.flatMap (Block.levels depth) = [] ↔ blocks = [] := by
    intro depth blocks
    cases blocks with
    | nil => simp
    | cons b rest => simp [Block.levels_eq]
  refine ⟨haccount, ?_, looks_review hduplicates⟩
  constructor
  · intro hall
    have hlength := haccount.length_eq.symm.trans hall.length_eq
    rw [length_append, Nat.add_eq_left, length_eq_zero_iff, append_eq_nil_iff,
      flatMap_eq_nil_iff, hbelow] at hlength
    exact ⟨fun s hs => (hbelow _ _).1 (hlength.1 s hs), hlength.2⟩
  · rintro ⟨hread, hidle⟩
    have hlost : p.sites.flatMap lost = [] :=
      flatMap_eq_nil_iff.2 fun s hs => (hbelow _ _).2 (hread s hs)
    rwa [hlost, hidle, flatMap_nil, append_nil, append_nil] at haccount

/-- An element without text of its own. -/
def plain (name : String) (attributes : List (String × String))
    (children : List Markup.Element) : Markup.Element :=
  ⟨name, attributes, "", children⟩

/-- A procedure with a choice that otherwise leaves the loop around it; whether it has a body for
that is up to its mutation. -/
def choosing (mutation : List (String × String)) : Markup.Element :=
  plain "xml" [] [plain "block" [("type", "procedures_defnoreturn")] [
    plain "statement" [("name", "STACK")] [plain "block" [("type", "controls_if")] [
      plain "mutation" mutation [],
      plain "value" [("name", "IF0")] [plain "block" [("type", "logic_boolean")] []],
      plain "statement" [("name", "ELSE")] [plain "block" [("type", "controls_break")] []]]]]]

/-- Whether a descriptor is read and written without a report. -/
def isUnreported (root : Markup.Element) : Bool :=
  let entries := Block.visitingRoot 64 root
    ++ Target.review { package := "app" } (.ofBlocks (Block.programOf root))
  (Journal.stops entries).isEmpty && (notes entries).isEmpty

theorem settle_of_isUnreported {root : Markup.Element} (h : isUnreported root) :
    settle .unlimited (Block.visitingRoot 64 root) = .ok []
      ∧ settle .unlimited (Target.review { package := "app" } (.ofBlocks (Block.programOf root)))
        = .ok [] := by
  obtain ⟨hstops, hnotes⟩ := Bool.and_eq_true_iff.1 h
  rw [List.isEmpty_iff, Journal.stops_append, append_eq_nil_iff] at hstops
  rw [List.isEmpty_iff, Journal.notes_append, append_eq_nil_iff] at hnotes
  exact ⟨Journal.settle_unlimited_eq_ok_iff.2 ⟨hstops.1, hnotes.1.symm⟩,
    Journal.settle_unlimited_eq_ok_iff.2 ⟨hstops.2, hnotes.2.symm⟩⟩

/-- With the body announced all three blocks are walked. -/
theorem announced_body_walked :
    (Block.programOf (choosing [("else", "1")])).levels.length = 3
      ∧ (Block.programOf (choosing [("else", "1")])).levels.Perm
        ((Block.programOf (choosing [("else", "1")])).sites.map level) := by
  have hquiet : isUnreported (choosing [("else", "1")]) := by decide +kernel
  have hread : (Block.programOf (choosing [("else", "1")])).sites.all
      fun s => s.unread.isEmpty := by decide +kernel
  obtain ⟨-, hiff, -⟩ := walked_once_iff_no_unread (hasDistinctSlots_programOf _)
    (settle_of_isUnreported hquiet).2
  refine ⟨by decide +kernel, hiff.2 ⟨fun s hs => ?_, idleResults_programOf _⟩⟩
  exact List.isEmpty_iff.1 (all_eq_true.1 hread s hs)

/-- Without it the last block is lost, and neither stage reports anything. -/
theorem unannounced_body_lost :
    settle .unlimited (Block.visitingRoot 64 (choosing [])) = .ok []
      ∧ settle .unlimited
        (Target.review { package := "app" } (.ofBlocks (Block.programOf (choosing [])))) = .ok []
      ∧ ¬ (Block.programOf (choosing [])).levels.Perm
        ((Block.programOf (choosing [])).sites.map level) := by
  have hquiet : isUnreported (choosing []) := by decide +kernel
  have hlevels : (Block.programOf (choosing [])).levels.length = 3 := by decide +kernel
  have hsites : (Block.programOf (choosing [])).sites.length = 2 := by decide +kernel
  obtain ⟨hread, hwritten⟩ := settle_of_isUnreported hquiet
  refine ⟨hread, hwritten, fun hperm => ?_⟩
  have hlength := hperm.length_eq
  rw [length_map, hlevels, hsites] at hlength
  cases hlength

end Site
end ScreenForge
