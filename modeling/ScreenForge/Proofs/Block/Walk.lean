/-
# The elements that a reader of blocks meets

Reading a descriptor is a walk over its elements.  An element is met on one of three routes:

| route | where | if the element is disabled |
| --- | --- | --- |
| `top` | a block at the top of the descriptor | it is left out with a note |
| `sequence` | in a statement slot, or behind a block of a sequence | it is left out with a note |
| `value` | what counts in a value slot | it is read like any other |

What is left out is not entered; of a block at the top only the slots of its type are (`entered`).
Not every element that is read stays in the program: of two slots with one name the later counts
(`kept`).
-/
import Mathlib.Data.List.Perm.Basic
import ScreenForge.Proofs.Assoc
import ScreenForge.Proofs.Block.RoundTrip

namespace ScreenForge

open List

namespace Block

open Journal (Entry)
open Markup (Element)

variable {e slot : Element} {m : Met}

theorem mem_named_iff {tag : String} {elements : List Element} :
    e ∈ named tag elements ↔ e ∈ elements ∧ e.tag = tag := by
  rw [named, mem_filter, beq_iff_eq]

/-! ### Elements met -/

/-- How an element is reached. -/
inductive Route where
  | top
  | sequence
  | value
  deriving DecidableEq, Repr

/-- An element that is met, with the route to it and its depth; blocks at the top have the depth
zero. -/
structure Met where
  route : Route
  depth : Int
  element : Element

namespace Met

/-- Whether the element is disabled. -/
def isDisabled (m : Met) : Bool := Block.isDisabled m.element.attributes

/-- Whether the element is left out of a sequence. -/
def isSkipped (m : Met) : Bool := m.route != .value && m.isDisabled

/-- What an element has to say when it is met: a note, or a look at the clock and at the depth. -/
def entries (limit : Int) (m : Met) : List Entry :=
  match m.route with
  | .top => match topOf m.element with
    | .skipped reason => [.note reason]
    | _ => []
  | .sequence =>
    if m.isDisabled then [disabledNote "Disabled block skipped" (m.element.get "type")]
    else visitingHere limit m.depth
  | .value => visitingHere limit m.depth

/-- Inside a block at the top, an element that is left out says so, and any other looks. -/
theorem entries_of_ne_top {limit : Int} (h : m.route ≠ .top) :
    m.entries limit = if m.isSkipped then [disabledNote "Disabled block skipped"
      (m.element.get "type")] else visitingHere limit m.depth := by
  obtain ⟨route, depth, e⟩ := m
  cases route with
  | top => exact absurd rfl h
  | sequence | value => rfl

end Met

section Meeting

variable (depth : Int)

/-- What is met in a value slot. -/
def metHeld (slot : Element) : List Met := (counted? slot).toList.map (Met.mk .value depth)

/-- What is met in a statement slot. -/
def metSequence (slot : Element) : List Met := (sequenceIn slot).map (Met.mk .sequence depth)

/-- What is met in an element inside a block. -/
def metSlot (slot : Element) : List Met :=
  if slot.tag = "value" then metHeld depth slot
  else if slot.tag = "statement" then metSequence depth slot
  else []

/-- What is met right inside a block. -/
def metInside (e : Element) : List Met := e.children.flatMap (metSlot depth)

variable {depth}

theorem of_mem_metSlot (h : m ∈ metSlot depth slot) :
    m.depth = depth ∧ m.route ≠ .top ∧ sizeOf m.element < sizeOf slot := by
  rw [metSlot] at h
  split at h
  · obtain ⟨e, he, rfl⟩ := mem_map.1 h
    exact ⟨rfl, Route.noConfusion, sizeOf_lt_of_counted? (Option.mem_toList.1 he)⟩
  · split at h
    · obtain ⟨e, he, rfl⟩ := mem_map.1 h
      exact ⟨rfl, Route.noConfusion, sizeOf_lt_of_mem_sequenceIn he⟩
    · cases h

/-- What is met inside an element is smaller than it. -/
theorem sizeOf_lt_of_mem_metInside (h : m ∈ metInside depth e) : sizeOf m.element < sizeOf e := by
  obtain ⟨slot, hslot, hm⟩ := mem_flatMap.1 h
  exact Nat.lt_trans (of_mem_metSlot hm).2.2 (sizeOf_lt_of_mem_children hslot)

/-- **Induction over what is met, from the inside out.** -/
theorem Met.induct {P : Met → Prop}
    (h : ∀ m : Met, (∀ c ∈ metInside (m.depth + 1) m.element, P c) → P m) (m : Met) : P m :=
  h m fun c _ => Met.induct h c
termination_by sizeOf m.element
decreasing_by exact sizeOf_lt_of_mem_metInside ‹_›

theorem metSlot_value (h : slot.tag = "value") : metSlot depth slot = metHeld depth slot := if_pos h

theorem metSlot_statement (h : slot.tag = "statement") :
    metSlot depth slot = metSequence depth slot := by
  rw [metSlot, h]
  rfl

end Meeting

/-- An element and all that are met inside it. -/
def metIn (m : Met) : List Met :=
  m :: if m.isSkipped then []
    else (metInside (m.depth + 1) m.element).attach.flatMap fun c => metIn c.1
termination_by sizeOf m.element
decreasing_by exact sizeOf_lt_of_mem_metInside c.2

theorem metIn_eq (m : Met) :
    metIn m = m :: if m.isSkipped then []
      else (metInside (m.depth + 1) m.element).flatMap metIn := by
  rw [metIn, flatMap_subtype (g := metIn) fun _ _ => rfl, unattach_attach]

/-- What is met right inside a block at the top: the slots that its type has. -/
def metInTop (e : Element) : List Met :=
  let body := fun name => (slot? "statement" name e.children).elim [] (metSequence 1)
  let value := fun name => (slot? "value" name e.children).elim [] (metHeld 1)
  match topOf e with
  | .skipped _ => []
  | .handler _ => body "DO"
  | .global _ => value "VALUE"
  | .procedure p => body "STACK" ++ if p.returnsValue then value "RETURN" else []

/-- The slots of a block at the top that are entered: of a handler its body, of a global variable its
value, of a procedure its body and, if it returns one, its value. -/
def entered (e : Element) : List Element :=
  match topOf e with
  | .skipped _ => []
  | .handler _ => (slot? "statement" "DO" e.children).toList
  | .global _ => (slot? "value" "VALUE" e.children).toList
  | .procedure p => (slot? "statement" "STACK" e.children).toList
      ++ if p.returnsValue then (slot? "value" "RETURN" e.children).toList else []

/-- **What is met right inside a block at the top is met in the slots that are entered.** -/
theorem metInTop_eq (e : Element) : metInTop e = (entered e).flatMap (metSlot 1) := by
  have hslot : ∀ {tag : String} {walk : Element → List Met},
      (∀ slot : Element, slot.tag = tag → metSlot 1 slot = walk slot) → ∀ name,
      (slot? tag name e.children).elim [] walk
        = (slot? tag name e.children).toList.flatMap (metSlot 1) := by
    intro tag walk h name
    cases hslot : slot? tag name e.children with
    | none => rfl
    | some slot =>
      rw [Option.elim_some, Option.toList_some, flatMap_singleton,
        h _ (mem_named_iff.1 (mem_of_find?_eq_some hslot)).2]
  have hbody := hslot fun slot => metSlot_statement
  have hvalue := hslot fun slot => metSlot_value
  rw [metInTop, entered]
  cases topOf e with
  | skipped reason => rfl
  | handler _ => exact hbody "DO"
  | global _ => exact hvalue "VALUE"
  | procedure p =>
    show (slot? "statement" "STACK" e.children).elim [] (metSequence 1)
        ++ (if p.returnsValue then (slot? "value" "RETURN" e.children).elim [] (metHeld 1) else [])
      = _
    rw [flatMap_append, ← hbody]
    cases p.returnsValue with
    | false => rfl
    | true => exact congrArg _ (hvalue "RETURN")

/-- **The elements that reading a descriptor meets**, in order. -/
def met (root : Element) : List Met :=
  (topElements root).flatMap fun e => ⟨.top, 0, e⟩ :: (metInTop e).flatMap metIn

/-! ### The journal of reading -/

section Journal

variable (limit : Int)

/-- The journal of reading an element is what is met has to say. -/
def Told (e : Element) : Prop :=
  ∀ depth, visiting limit depth e = (metIn ⟨.value, depth, e⟩).flatMap (Met.entries limit)

variable {limit}

/-- The journal of a value slot is that of what is met there. -/
theorem visitingHeld_told (h : ∀ e ∈ counted? slot, Told limit e) (depth : Int) :
    visitingHeld limit depth slot
      = ((metHeld depth slot).flatMap metIn).flatMap (Met.entries limit) := by
  rw [visitingHeld, metHeld]
  cases hc : counted? slot with
  | none => rfl
  | some e =>
    rw [Option.elim_some, h e hc, Option.toList_some, map_singleton, flatMap_singleton]

/-- A disabled element of a sequence says only that it is left out. -/
theorem entries_metIn_sequence (h : Told limit e) (depth : Int) :
    (metIn ⟨.sequence, depth, e⟩).flatMap (Met.entries limit)
      = if isDisabled e.attributes then [disabledNote "Disabled block skipped" (e.get "type")]
        else visiting limit depth e := by
  have hskipped : Met.isSkipped ⟨.sequence, depth, e⟩ = isDisabled e.attributes := rfl
  rw [h depth, metIn_eq, metIn_eq, flatMap_cons, Met.entries_of_ne_top Route.noConfusion, hskipped]
  cases isDisabled e.attributes <;> rfl

/-- The journal of a chain is that of its links. -/
theorem visitingChain_told (h : ∀ d ∈ sequenceFrom e, Told limit d) (depth : Int) :
    visitingChain limit depth e
      = (((sequenceFrom e).map (Met.mk .sequence depth)).flatMap metIn).flatMap
          (Met.entries limit) := by
  induction e using inductElements with
  | h e ih =>
    rw [sequenceFrom_eq] at h
    rw [visitingChain_eq, visitingNext_eq, sequenceFrom_eq, map_cons, flatMap_cons,
      flatMap_append, entries_metIn_sequence (h e mem_cons_self)]
    congr 1
    cases hnext : next? e with
    | none => rfl
    | some d =>
      rw [hnext] at h
      exact ih d (sizeOf_lt_of_next? hnext) fun c hc => h c (mem_cons_of_mem e hc)

theorem visitingSequence_told (h : ∀ e ∈ sequenceIn slot, Told limit e) (depth : Int) :
    visitingSequence limit depth slot
      = ((metSequence depth slot).flatMap metIn).flatMap (Met.entries limit) := by
  rw [sequenceIn] at h
  rw [visitingSequence, metSequence, sequenceIn]
  cases hc : counted? slot with
  | none => rfl
  | some first =>
    rw [hc] at h
    exact visitingChain_told h depth

theorem visitingSlot_told (h : ∀ e, sizeOf e < sizeOf slot → Told limit e) (depth : Int) :
    visitingSlot limit depth slot
      = ((metSlot depth slot).flatMap metIn).flatMap (Met.entries limit) := by
  rw [visitingSlot, metSlot]
  split
  · exact visitingHeld_told (fun e he => h e (sizeOf_lt_of_counted? he)) depth
  · split
    · exact visitingSequence_told (fun e he => h e (sizeOf_lt_of_mem_sequenceIn he)) depth
    · rfl

/-- The journal of an element is that of what is met in it. -/
theorem told (e : Element) : Told limit e := by
  induction e using inductElements with
  | h e ih =>
    intro depth
    have hslots : visitingSlots limit (depth + 1) e.children
        = ((metInside (depth + 1) e).flatMap metIn).flatMap (Met.entries limit) := by
      rw [visitingSlots_eq, metInside, flatMap_assoc, flatMap_assoc]
      refine flatMap_congr fun slot hslot => ?_
      rw [visitingSlot_told fun c hc => ih c (Nat.lt_trans hc (sizeOf_lt_of_mem_children hslot)),
        flatMap_assoc]
    rw [visiting_eq, hslots, metIn_eq]
    rfl

theorem elim_told {walk : Element → List Entry} {meet : Element → List Met}
    (h : ∀ slot, walk slot = ((meet slot).flatMap metIn).flatMap (Met.entries limit))
    (slot? : Option Element) : slot?.elim [] walk
      = ((slot?.elim [] meet).flatMap metIn).flatMap (Met.entries limit) := by
  cases slot? with
  | none => rfl
  | some slot => exact h slot

/-- The journal of a block at the top is its own and that of what is met in its slots. -/
theorem visitingTop_told (e : Element) :
    visitingTop limit e = Met.entries limit ⟨.top, 0, e⟩
      ++ ((metInTop e).flatMap metIn).flatMap (Met.entries limit) := by
  have hbody := elim_told fun slot => @visitingSequence_told slot limit (fun e _ => told e) 1
  have hvalue := elim_told fun slot => @visitingHeld_told slot limit (fun e _ => told e) 1
  simp only [visitingTop, visitingBody_eq, visitingValue_eq, hbody, hvalue, metInTop, Met.entries]
  cases topOf e with
  | skipped reason | handler h | global g => rfl
  | procedure p => cases h : p.returnsValue <;> simp [h]

/-- **The journal of reading a descriptor is what the elements met have to say.** -/
theorem visitingRoot_eq (root : Element) :
    visitingRoot limit root = (met root).flatMap (Met.entries limit) := by
  rw [visitingRoot, met, flatMap_assoc]
  refine flatMap_congr fun e _ => ?_
  rw [visitingTop_told, flatMap_cons]

end Journal

/-! ### Elements that stay -/

section Keeping

variable (depth : Int)

/-- What stays right inside a block: of the slots with one name the last counts. -/
def keptInside (e : Element) : List Met :=
  ((Assoc.ofList ((named "value" e.children).map fun s => (s.get "name", counted? s))).filterMap
      Prod.snd).map (Met.mk .value depth)
    ++ ((Assoc.ofList ((named "statement" e.children).map fun s =>
        (s.get "name", enabledIn s))).flatMap Prod.snd).map (Met.mk .sequence depth)

variable {depth}

/-- What stays right inside a block is met there, and not left out. -/
theorem mem_metInside_of_kept (h : m ∈ keptInside depth e) :
    m ∈ metInside depth e ∧ m.isSkipped = false := by
  obtain h | h := mem_append.1 h
  · obtain ⟨c, hc, rfl⟩ := mem_map.1 h
    obtain ⟨entry, hentry, hsome⟩ := mem_filterMap.1 hc
    obtain ⟨slot, hslot, rfl⟩ := mem_map.1 (Assoc.mem_of_mem_ofList hentry)
    obtain ⟨hchild, htag⟩ := mem_named_iff.1 hslot
    refine ⟨mem_flatMap.2 ⟨slot, hchild, ?_⟩, rfl⟩
    rw [metSlot_value htag]
    exact mem_map_of_mem (Option.mem_toList.2 hsome)
  · obtain ⟨c, hc, rfl⟩ := mem_map.1 h
    obtain ⟨entry, hentry, hmem⟩ := mem_flatMap.1 hc
    obtain ⟨slot, hslot, rfl⟩ := mem_map.1 (Assoc.mem_of_mem_ofList hentry)
    obtain ⟨hchild, htag⟩ := mem_named_iff.1 hslot
    obtain ⟨hsequence, henabled⟩ := mem_filter.1 hmem
    refine ⟨mem_flatMap.2 ⟨slot, hchild, ?_⟩, (Bool.not_eq_true' _).mp henabled⟩
    rw [metSlot_statement htag]
    exact mem_map_of_mem hsequence

end Keeping

/-- An element that stays and all that stay inside it. -/
def keptIn (m : Met) : List Met :=
  m :: (keptInside (m.depth + 1) m.element).attach.flatMap fun c => keptIn c.1
termination_by sizeOf m.element
decreasing_by exact sizeOf_lt_of_mem_metInside (mem_metInside_of_kept c.2).1

theorem keptIn_eq (m : Met) :
    keptIn m = m :: (keptInside (m.depth + 1) m.element).flatMap keptIn := by
  rw [keptIn, flatMap_subtype (g := keptIn) fun _ _ => rfl, unattach_attach]

/-- What stays right inside a block at the top. -/
def keptInTop (e : Element) : List Met := (metInTop e).filter fun m => !m.isSkipped

/-- Whether a block at the top declares something. -/
def declares (e : Element) : Bool :=
  match topOf e with
  | .skipped _ => false
  | _ => true

/-- The blocks at the top that declare something. -/
def declaring (root : Element) : List Element := (topElements root).filter declares

/-- The elements that stay as blocks of a program. -/
def keptBlocks (root : Element) : List Met :=
  (topElements root).flatMap fun e => (keptInTop e).flatMap keptIn

/-- **The elements that stay in the program of a descriptor**: as declarations, or as blocks. -/
def kept (root : Element) : List Met :=
  (declaring root).map (Met.mk .top 0) ++ keptBlocks root

/-- What stays inside an element is met there, and not left out. -/
theorem mem_metIn_of_kept {c : Met} (h : m.isSkipped = false) (hc : c ∈ keptIn m) :
    c ∈ metIn m ∧ c.isSkipped = false := by
  induction m using Met.induct with
  | h m ih =>
    rw [metIn_eq, h]
    rw [keptIn_eq] at hc
    obtain rfl | hc := mem_cons.1 hc
    · exact ⟨mem_cons_self, h⟩
    · obtain ⟨d, hd, hc⟩ := mem_flatMap.1 hc
      obtain ⟨hmet, hskipped⟩ := mem_metInside_of_kept hd
      obtain ⟨hin, hc⟩ := ih d hmet hskipped hc
      exact ⟨mem_cons_of_mem _ (mem_flatMap.2 ⟨d, hmet, hin⟩), hc⟩

/-- A block at the top that declares something is not disabled. -/
theorem not_isDisabled_of_declares (h : declares e) : isDisabled e.attributes = false := by
  cases hd : isDisabled e.attributes with
  | false => rfl
  | true =>
    rw [declares, topOf, hd] at h
    cases h

/-- **What stays is met, and not left out.** -/
theorem mem_met_of_kept {root : Element} (hm : m ∈ kept root) :
    m ∈ met root ∧ m.isSkipped = false := by
  obtain hm | hm := mem_append.1 hm
  · obtain ⟨e, he, rfl⟩ := mem_map.1 hm
    obtain ⟨he, hdeclares⟩ := mem_filter.1 he
    exact ⟨mem_flatMap.2 ⟨e, he, mem_cons_self⟩, not_isDisabled_of_declares hdeclares⟩
  · obtain ⟨e, he, hm⟩ := mem_flatMap.1 hm
    obtain ⟨d, hd, hm⟩ := mem_flatMap.1 hm
    obtain ⟨hmet, hskipped⟩ := mem_filter.1 hd
    obtain ⟨hin, hm⟩ := mem_metIn_of_kept ((Bool.not_eq_true' _).mp hskipped) hm
    exact ⟨mem_flatMap.2
      ⟨e, he, mem_cons_of_mem _ (mem_flatMap.2 ⟨d, hmet, hin⟩)⟩, hm⟩

/-! ### The blocks of the elements that stay -/

theorem statements_blockOf (e : Element) : (blockOf e).statements
    = Assoc.ofList ((named "statement" e.children).map fun slot =>
        (slot.get "name", (enabledIn slot).map blockOf)) := by
  rw [blockOf_eq, statementsIn_eq]
  exact congrArg Assoc.ofList (map_congr_left fun s _ => congrArg _ (sequenceOf_eq s))

/-- **The blocks right inside a block are those of what stays there.** -/
theorem inside_blockOf (depth : Int) (e : Element) :
    (blockOf e).inside = (keptInside depth e).map fun m => blockOf m.element := by
  have hvalues : (blockOf e).values
      = (Assoc.ofList ((named "value" e.children).map fun s => (s.get "name", counted? s))).map
          fun v => (v.1, v.2.map blockOf) := by
    rw [← Assoc.ofList_map, map_map, blockOf_eq, valuesIn_eq]
    rfl
  have hstatements : (blockOf e).statements
      = (Assoc.ofList ((named "statement" e.children).map fun s =>
          (s.get "name", enabledIn s))).map fun s => (s.1, s.2.map blockOf) := by
    rw [← Assoc.ofList_map, map_map]
    exact statements_blockOf e
  rw [inside, hvalues, hstatements, keptInside, map_append, map_map, map_map,
    filterMap_map, flatMap_map, map_filterMap, map_flatMap]
  rfl

/-- **All blocks in a block are those of what stays in its element.** -/
theorem levels_blockOf (route : Route) (depth : Int) (e : Element) :
    (blockOf e).levels depth
      = (keptIn ⟨route, depth, e⟩).map fun m => (m.depth, blockOf m.element) := by
  induction e using inductElements generalizing route depth with
  | h e ih =>
    rw [levels_eq, inside_blockOf (depth + 1), flatMap_map, keptIn_eq, map_cons, map_flatMap]
    congr 1
    refine flatMap_congr fun m hm => ?_
    have hmet := (mem_metInside_of_kept hm).1
    obtain ⟨slot, -, hslot⟩ := mem_flatMap.1 hmet
    rw [ih m.element (sizeOf_lt_of_mem_metInside hmet) m.route (depth + 1),
      ← (of_mem_metSlot hslot).1]

/-! ### The program of the elements that stay -/

/-- A skipped element declares nothing, whatever is asked for. -/
theorem filterMap_declaring {β : Type} {part? : Top → Option β}
    (h : ∀ reason, part? (.skipped reason) = none) (elements : List Element) :
    ((elements.filter declares).map topOf).filterMap part?
      = (elements.map topOf).filterMap part? := by
  rw [filterMap_map, filterMap_map, filterMap_filter]
  refine filterMap_congr fun e _ => ?_
  rw [declares, Function.comp_apply]
  cases htop : topOf e with
  | skipped reason => exact (h reason).symm
  | handler _ | global _ | procedure _ => rfl

/-- **The program of a descriptor is that of the blocks at the top that declare something.** -/
theorem programOf_declaring (root : Element) :
    programOf root = programOf { root with children := declaring root } := by
  have htops : topElements { root with children := declaring root } = declaring root :=
    filter_eq_self.2 fun e he =>
      (mem_filter.1 (mem_of_mem_filter he : e ∈ topElements root)).2
  rw [programOf_eq, programOf_eq, htops, declaring, filterMap_declaring fun _ => rfl,
    filterMap_declaring fun _ => rfl, filterMap_declaring fun _ => rfl]

/-- A sequence is made of the elements met in its slot that are not left out. -/
theorem sequenceAt_eq_kept (e : Element) (name : String) :
    sequenceAt name e = ((((slot? "statement" name e.children).elim []
      (metSequence 1)).filter fun m => !m.isSkipped).map fun m => blockOf m.element) := by
  rw [sequenceAt]
  cases slot? "statement" name e.children with
  | none => rfl
  | some s =>
    rw [Option.elim_some, Option.elim_some, enabledIn, metSequence, filter_map, map_map]
    rfl

/-- A value is what is met in its slot. -/
theorem value_eq_kept (e : Element) (name : String) :
    (((slot? "value" name e.children).bind first?).map blockOf).toList
      = ((((slot? "value" name e.children).elim []
        (metHeld 1)).filter fun m => !m.isSkipped).map fun m => blockOf m.element) := by
  cases slot? "value" name e.children with
  | none => rfl
  | some s =>
    rw [Option.bind_some, Option.elim_some, ← counted?_eq_first?, metHeld]
    cases counted? s <;> rfl

/-- **The blocks in the slots of an element at the top are those of what stays there.** -/
theorem blocks_topOf (e : Element) :
    (topOf e).blocks = (keptInTop e).map fun m => blockOf m.element := by
  have hgives := gives_topOf e
  rw [keptInTop, metInTop]
  generalize topOf e = top at hgives
  cases hgives with
  | disabled | unsupported | orphan => rfl
  | handler _ _ _ _ hbody => exact hbody.trans (sequenceAt_eq_kept e "DO")
  | global _ _ hvalue => rw [Top.blocks, hvalue, value_eq_kept]
  | @procedure p _ _ hbody hresult =>
    rw [Top.blocks, hbody, hresult, filter_append, map_append, ← sequenceAt_eq_kept]
    cases p.returnsValue with
    | false => rfl
    | true => exact congrArg _ (value_eq_kept e "RETURN")

theorem depth_of_mem_metInTop (h : m ∈ metInTop e) : m.depth = 1 := by
  rw [metInTop_eq] at h
  obtain ⟨slot, -, hm⟩ := mem_flatMap.1 h
  exact (of_mem_metSlot hm).1

/-- **The blocks of a program are those of the elements that stay**, each at its depth. -/
theorem levels_programOf_perm (root : Element) :
    (programOf root).levels.Perm
      ((keptBlocks root).map fun m => (m.depth, blockOf m.element)) := by
  have hlevels : ((topElements root).map topOf).flatMap (fun top => top.blocks.flatMap (levels 1))
      = (keptBlocks root).map fun m => (m.depth, blockOf m.element) := by
    rw [keptBlocks, map_flatMap, flatMap_map]
    refine flatMap_congr fun e _ => ?_
    rw [blocks_topOf, flatMap_map, map_flatMap]
    refine flatMap_congr fun m hm => ?_
    rw [levels_blockOf m.route, ← depth_of_mem_metInTop (mem_of_mem_filter hm)]
  rw [Program.levels, ← hlevels, programOf_eq, ← flatMap_assoc]
  exact (blocks_perm _).flatMap_right _

/-- **Every block of a program that is read has the kind of its type.** -/
theorem kind_of_mem_levels {root : Element} {level : Int × Block}
    (h : level ∈ (programOf root).levels) : level.2.kind = kindOf level.2.type level.2.mutation := by
  obtain ⟨m, -, rfl⟩ := mem_map.1 ((levels_programOf_perm root).mem_iff.1 h)
  rw [blockOf_eq]
  rfl

end Block
end ScreenForge
