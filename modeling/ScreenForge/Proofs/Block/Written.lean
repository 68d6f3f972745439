/-
# Blocks written as elements

A block is written as an element that holds, in this order, what the readers of blocks look for:

    <block type=... id=...>
      <mutation ...> <arg name=.../> ... </mutation>
      <field name=...>...</field> ...
      <value name=...> a block, or nothing </value> ...
      <statement name=...> a sequence </statement> ...
      <next> the rest of the sequence it stands in </next>
    </block>

A sequence is its first block with the others behind it.  All elements are in one namespace, or in
none.
-/
import Mathlib.Data.List.Basic
import ScreenForge.Proofs.Block.Reader
import ScreenForge.Proofs.Journal

namespace ScreenForge
namespace Block

open List
open Journal (Entry settle stops notes)
open Markup (Element)

variable {tag : String} {elements : List Element} (depth : Int)
  (values : List (String × Option Block)) (statements : List (String × List Block))

/-! ### Writing blocks -/

section Writing

variable (uri : String)

/-- An element of a namespace. -/
def drawn (tag : String) (attributes : List (String × String)) (text : String)
    (children : List Element) : Element :=
  ⟨Markup.inNamespace uri tag, attributes, text, children⟩

/-- The element of a field. -/
def fieldElement (field : String × String) : Element :=
  drawn uri "field" [("name", field.1)] field.2 []

/-- The element of an argument. -/
def argElement (name : String) : Element := drawn uri "arg" [("name", name)] "" []

/-- The element of a mutation; one that says nothing is left out. -/
def mutationElements (mutation : List (String × String)) (args : List String) : List Element :=
  if mutation.isEmpty && args.isEmpty then []
  else [drawn uri "mutation" mutation "" (args.map (argElement uri))]

/-- The element of a slot with what is inside. -/
def slotElement (tag name : String) (inside : Option Element) : Element :=
  drawn uri tag [("name", name)] "" inside.toList

/-- The attributes of a block. -/
def ownAttributes (type : String) (id : Option String) : List (String × String) :=
  ("type", type) :: (id.map fun i => ("id", i)).toList

/-- What stands in the element of a block: what the block says, and the elements of its slots and of
what follows it. -/
structure Content where
  type : String
  id : Option String := none
  fields : List (String × String) := []
  mutation : List (String × String) := []
  args : List String := []
  values : List Element := []
  statements : List Element := []
  next : List Element := []

/-- The element of a block. -/
def Content.element (c : Content) : Element :=
  drawn uri "block" (ownAttributes c.type c.id) ""
    (mutationElements uri c.mutation c.args ++ c.fields.map (fieldElement uri) ++ c.values
      ++ c.statements ++ c.next)

/-- The element that leads on to the rest of a sequence. -/
def nextElements (rest : Option Element) : List Element :=
  (rest.map fun e => drawn uri "next" [] "" [e]).toList

mutual

/-- The element of a block that stands before the rest of a sequence. -/
def blockElement (rest : Option Element) : Block → Element
  | ⟨_, type, id, fields, mutation, args, values, statements⟩ =>
    Content.element uri
      { type, id, fields, mutation, args
        values := valueElements values
        statements := statementElements statements
        next := nextElements uri rest }

/-- The elements of value slots. -/
def valueElements : List (String × Option Block) → List Element
  | [] => []
  | (name, value) :: rest => slotElement uri "value" name (heldElement? value) :: valueElements rest

/-- The element of what a value slot holds. -/
def heldElement? : Option Block → Option Element
  | none => none
  | some b => some (blockElement none b)

/-- The elements of statement slots. -/
def statementElements : List (String × List Block) → List Element
  | [] => []
  | (name, blocks) :: rest =>
    slotElement uri "statement" name (chainElement? blocks) :: statementElements rest

/-- The element of a sequence: its first block, with the others behind it. -/
def chainElement? : List Block → Option Element
  | [] => none
  | b :: rest => some (blockElement (chainElement? rest) b)

end

end Writing

/-! ### Blocks and how deep they stand -/

/-- The blocks in the slots of a block. -/
def inside (b : Block) : List Block :=
  b.values.filterMap Prod.snd ++ b.statements.flatMap Prod.snd

theorem sizeOf_lt_of_mem_inside {b c : Block} (h : c ∈ b.inside) : sizeOf c < sizeOf b := by
  obtain ⟨kind⟩ := b
  rw [Block.mk.sizeOf_spec]
  obtain hvalue | hstatement := mem_append.1 h
  · obtain ⟨⟨name, value⟩, hmem, rfl : value = some c⟩ := mem_filterMap.1 hvalue
    have hlt := sizeOf_lt_of_mem hmem
    simp only [Prod.mk.sizeOf_spec, Option.some.sizeOf_spec] at hlt
    omega
  · obtain ⟨⟨name, blocks⟩, hmem, hc⟩ := mem_flatMap.1 hstatement
    have hlt := sizeOf_lt_of_mem hmem
    have hin := sizeOf_lt_of_mem hc
    simp only [Prod.mk.sizeOf_spec] at hlt hin
    omega

/-- **Induction over blocks by what is in their slots.** -/
theorem inductInside {P : Block → Prop} (h : ∀ b : Block, (∀ c ∈ b.inside, P c) → P b)
    (b : Block) : P b :=
  h b fun c _ => inductInside h c
termination_by sizeOf b
decreasing_by exact sizeOf_lt_of_mem_inside ‹_›

mutual

/-- A block that stands at a depth and all blocks in it, each with its depth. -/
def levels (depth : Int) (b : Block) : List (Int × Block) :=
  match b with
  | ⟨kind, type, id, fields, mutation, args, values, statements⟩ =>
    (depth, ⟨kind, type, id, fields, mutation, args, values, statements⟩)
      :: (valueLevels (depth + 1) values ++ statementLevels (depth + 1) statements)

/-- `levels` for value slots. -/
def valueLevels (depth : Int) : List (String × Option Block) → List (Int × Block)
  | [] => []
  | (_, value) :: rest => heldLevels depth value ++ valueLevels depth rest

/-- `levels` for what a value slot holds. -/
def heldLevels (depth : Int) : Option Block → List (Int × Block)
  | none => []
  | some b => levels depth b

/-- `levels` for statement slots. -/
def statementLevels (depth : Int) : List (String × List Block) → List (Int × Block)
  | [] => []
  | (_, blocks) :: rest => bodyLevels depth blocks ++ statementLevels depth rest

/-- `levels` for a sequence. -/
def bodyLevels (depth : Int) : List Block → List (Int × Block)
  | [] => []
  | b :: rest => levels depth b ++ bodyLevels depth rest

end

theorem bodyLevels_eq (blocks : List Block) :
    bodyLevels depth blocks = blocks.flatMap (levels depth) := by
  induction blocks with
  | nil => rfl
  | cons b rest ih => rw [bodyLevels, ih, flatMap_cons]

theorem valueLevels_eq :
    valueLevels depth values = (values.filterMap Prod.snd).flatMap (levels depth) := by
  induction values with
  | nil => rfl
  | cons v rest ih =>
    obtain ⟨name, value⟩ := v
    rw [valueLevels, ih]
    cases value <;> rfl

theorem statementLevels_eq :
    statementLevels depth statements = (statements.flatMap Prod.snd).flatMap (levels depth) := by
  induction statements with
  | nil => rfl
  | cons s rest ih =>
    obtain ⟨name, blocks⟩ := s
    rw [statementLevels, ih, bodyLevels_eq, flatMap_cons, flatMap_append]

/-- **One level down at a time.** -/
theorem levels_eq (b : Block) :
    b.levels depth = (depth, b) :: b.inside.flatMap (levels (depth + 1)) := by
  rw [inside, flatMap_append, ← valueLevels_eq, ← statementLevels_eq]
  cases b
  rw [levels]

/-! ### What the readers find in a written block -/

/-- Elements of one tag. -/
def Tagged (tag : String) (elements : List Element) : Prop := ∀ e ∈ elements, e.tag = tag

theorem Tagged.named_self (h : Tagged tag elements) : named tag elements = elements :=
  filter_eq_self.2 fun e he => beq_iff_eq.2 (h e he)

/-- Elements of one tag are none of another. -/
theorem Tagged.named_other {other : String} (h : Tagged tag elements) (hne : tag ≠ other) :
    named other elements = [] :=
  filter_eq_nil_iff.2 fun e he heq => hne ((h e he).symm.trans (beq_iff_eq.1 heq))

theorem named_append (tag : String) (elements others : List Element) :
    named tag (elements ++ others) = named tag elements ++ named tag others :=
  filter_append elements others

section Finding

variable {uri : String} (rest : Option Element) (b : Block)

theorem tag_drawn (h : '\x7d' ∉ tag.toList) (attributes : List (String × String)) (text : String)
    (children : List Element) : (drawn uri tag attributes text children).tag = tag :=
  (Markup.localName_inNamespace uri tag).trans (Markup.localName_eq_self h)

theorem tagged_mutationElements (mutation : List (String × String)) (args : List String) :
    Tagged "mutation" (mutationElements uri mutation args) := by
  intro e he
  rw [mutationElements] at he
  split at he
  · cases he
  · rw [mem_singleton.1 he]
    exact tag_drawn (by decide) _ _ _

theorem tagged_map {α : Type} {f : α → Element} (h : ∀ a, (f a).tag = tag) (l : List α) :
    Tagged tag (l.map f) := by
  intro e he
  obtain ⟨a, -, rfl⟩ := mem_map.1 he
  exact h a

theorem tagged_nextElements : Tagged "next" (nextElements uri rest) := by
  rw [nextElements, Option.toList_map]
  exact tagged_map (fun e => tag_drawn (by decide) _ _ _) _

theorem valueElements_eq : valueElements uri values
    = values.map fun v => slotElement uri "value" v.1 (v.2.map (blockElement uri none)) := by
  induction values with
  | nil => rfl
  | cons v rest ih =>
    obtain ⟨name, value⟩ := v
    rw [valueElements, ih]
    cases value <;> rfl

theorem statementElements_eq : statementElements uri statements
      = statements.map fun s => slotElement uri "statement" s.1 (chainElement? uri s.2) := by
  induction statements with
  | nil => rfl
  | cons s rest ih =>
    obtain ⟨name, blocks⟩ := s
    rw [statementElements, ih, map_cons]

theorem tag_blockElement : (blockElement uri rest b).tag = "block" := by
  cases b
  rw [blockElement]
  exact tag_drawn (by decide) _ _ _

/-- **In a written slot the element inside counts.** -/
theorem counted?_drawn {inside : Option Element} (h : ∀ e ∈ inside, e.tag = "block")
    (tag : String) (attributes : List (String × String)) :
    counted? (drawn uri tag attributes "" inside.toList) = inside := by
  cases inside with
  | none => rfl
  | some e =>
    have he : e.tag = "block" := h e rfl
    have hslot : slotTag [e] = "block" := if_pos (by simp [he])
    have hnamed : named "block" [e] = [e] :=
      Tagged.named_self fun d hd => (mem_singleton.1 hd).symm ▸ he
    show (named (slotTag [e]) [e]).head? = some e
    rw [hslot, hnamed]
    rfl

/-- The elements of slots and of what follows have the tags that tell them apart. -/
structure Content.IsTagged (c : Content) : Prop where
  values : Tagged "value" c.values
  statements : Tagged "statement" c.statements
  next : Tagged "next" c.next

namespace Content

variable (c : Content)

theorem not_isDisabled : isDisabled (c.element uri).attributes = false := by
  obtain ⟨type, id, fields, mutation, args, values, statements, next⟩ := c
  cases id <;> rfl

theorem get?_id : (c.element uri).get? "id" = c.id := by
  obtain ⟨type, id, fields, mutation, args, values, statements, next⟩ := c
  cases id <;> rfl

variable {c}

/-- **The readers find the parts of a written block by their tags.** -/
theorem IsTagged.named (h : c.IsTagged) :
    named "mutation" (c.element uri).children = mutationElements uri c.mutation c.args
      ∧ named "field" (c.element uri).children = c.fields.map (fieldElement uri)
      ∧ named "value" (c.element uri).children = c.values
      ∧ named "statement" (c.element uri).children = c.statements
      ∧ named "next" (c.element uri).children = c.next := by
  have hmutation : Tagged "mutation" (mutationElements uri c.mutation c.args) :=
    tagged_mutationElements c.mutation c.args
  have hfields : Tagged "field" (c.fields.map (fieldElement uri)) :=
    tagged_map (fun f => tag_drawn (by decide) _ _ _) c.fields
  simp [Content.element, drawn, named_append, hmutation.named_self, hmutation.named_other,
    hfields.named_self, hfields.named_other, h.values.named_self, h.values.named_other,
    h.statements.named_self, h.statements.named_other, h.next.named_self, h.next.named_other]

theorem IsTagged.mutationOf (h : c.IsTagged) :
    Block.mutationOf (c.element uri).children = c.mutation := by
  obtain ⟨hmutation, -⟩ := h.named
  rw [Block.mutationOf, mutationOf?, hmutation, mutationElements]
  split
  · next hempty =>
    rw [Bool.and_eq_true, List.isEmpty_iff, List.isEmpty_iff] at hempty
    rw [hempty.1]
    rfl
  · rfl

theorem IsTagged.argsOf (h : c.IsTagged) : Block.argsOf (c.element uri).children = c.args := by
  have hargs : (c.args.map (argElement uri)).filterMap (fun a => a.get? "name") = c.args := by
    rw [filterMap_map]
    exact filterMap_some
  obtain ⟨hmutation, -⟩ := h.named
  rw [Block.argsOf, mutationOf?, hmutation, mutationElements]
  by_cases hempty : (c.mutation.isEmpty && c.args.isEmpty) = true
  · rw [if_pos hempty]
    rw [Bool.and_eq_true, List.isEmpty_iff, List.isEmpty_iff] at hempty
    exact hempty.2.symm
  · rw [if_neg hempty]
    exact hargs

/-- The fields are read back if their names are distinct. -/
theorem IsTagged.fieldsOf (h : c.IsTagged) (hfields : (Assoc.keys c.fields).Nodup) :
    Block.fieldsOf (c.element uri).children = c.fields := by
  obtain ⟨-, hfield, -⟩ := h.named
  rw [Block.fieldsOf, hfield, map_map]
  exact (congrArg Assoc.ofList (map_id c.fields)).trans (Assoc.ofList_eq_self hfields)

/-- **A written block is read from its parts.** -/
theorem IsTagged.blockOf (h : c.IsTagged) (hfields : (Assoc.keys c.fields).Nodup) :
    Block.blockOf (c.element uri)
      = { kind := kindOf c.type c.mutation
          type := c.type
          id := c.id
          fields := c.fields
          mutation := c.mutation
          args := c.args
          values := Assoc.ofList (c.values.map fun s => (s.get "name", held? s))
          statements := Assoc.ofList (c.statements.map fun s => (s.get "name", sequenceOf s)) } := by
  obtain ⟨-, -, hvalue, hstatement, -⟩ := h.named
  have hid : (c.element uri).attributes.lookup "id" = c.id := get?_id c
  rw [blockOf_eq, valuesIn_eq, statementsIn_eq, hvalue, hstatement, assemble, h.mutationOf, h.argsOf,
    h.fieldsOf hfields, hid]
  rfl

end Content

/-! ### Sequences -/

/-- The journal of reading blocks that stand at given depths. -/
def visitingLevels (limit : Int) (levels : List (Int × Block)) : List Entry :=
  levels.flatMap fun l => visitingHere limit l.1

/-- What is written for a block is read as the block, and nothing is noted. -/
structure ReadsBack (uri : String) (b : Block) : Prop where
  block : ∀ rest, blockOf (blockElement uri rest b) = b
  journal : ∀ limit depth rest,
    visiting limit depth (blockElement uri rest b) = visitingLevels limit (b.levels depth)

theorem tagged_valueElements : Tagged "value" (valueElements uri values) := by
  rw [valueElements_eq]
  exact tagged_map (fun v => tag_drawn (by decide) _ _ _) values

theorem tagged_statementElements : Tagged "statement" (statementElements uri statements) := by
  rw [statementElements_eq]
  exact tagged_map (fun s => tag_drawn (by decide) _ _ _) statements

/-- What stands in the element of a block before the rest of a sequence. -/
def contentOf (uri : String) (rest : Option Element) (b : Block) : Content where
  type := b.type
  id := b.id
  fields := b.fields
  mutation := b.mutation
  args := b.args
  values := valueElements uri b.values
  statements := statementElements uri b.statements
  next := nextElements uri rest

theorem blockElement_eq : blockElement uri rest b = (contentOf uri rest b).element uri := by
  cases b
  rw [blockElement]
  rfl

theorem isTagged_contentOf : (contentOf uri rest b).IsTagged :=
  ⟨tagged_valueElements b.values, tagged_statementElements b.statements, tagged_nextElements rest⟩

theorem tag_of_mem_chainElement? (blocks : List Block) :
    ∀ e ∈ chainElement? uri blocks, e.tag = "block" := by
  cases blocks with
  | nil => exact fun e he => nomatch he
  | cons b rest =>
    intro e he
    obtain rfl := Option.some.inj (he : some (blockElement uri (chainElement? uri rest) b) = some e)
    exact tag_blockElement _ b

theorem named_next_blockElement :
    named "next" (blockElement uri rest b).children = nextElements uri rest := by
  rw [blockElement_eq]
  exact (isTagged_contentOf rest b).named.2.2.2.2

theorem not_isDisabled_blockElement : isDisabled (blockElement uri rest b).attributes = false := by
  rw [blockElement_eq]
  exact (contentOf uri rest b).not_isDisabled

section Rest

variable {rest : Option Element} (hrest : ∀ e ∈ rest, e.tag = "block") (b : Block)

include hrest

/-- Behind a block stands the rest of its sequence. -/
theorem next?_blockElement : next? (blockElement uri rest b) = rest := by
  rw [next?, named_next_blockElement]
  cases rest with
  | none => rfl
  | some e => exact counted?_drawn hrest "next" []

/-- A written chain is read link by link. -/
theorem chainOf_blockElement : chainOf (blockElement uri rest b)
    = blockOf (blockElement uri rest b) :: rest.elim [] chainOf := by
  rw [chainOf_eq, not_isDisabled_blockElement, if_neg Bool.false_ne_true, nextIn_eq,
    next?_blockElement hrest]

theorem visitingChain_blockElement (limit depth : Int) :
    visitingChain limit depth (blockElement uri rest b)
      = visiting limit depth (blockElement uri rest b)
        ++ rest.elim [] (visitingChain limit depth) := by
  rw [visitingChain_eq, not_isDisabled_blockElement, if_neg Bool.false_ne_true, visitingNext_eq,
    next?_blockElement hrest]

end Rest

section Slots

variable {tag name : String}

/-- What a written value slot holds is read back. -/
theorem held_slotElement {value : Option Block} (h : ∀ c ∈ value, ReadsBack uri c) {slot : Element}
    (hslot : slot = slotElement uri tag name (value.map (blockElement uri none))) :
    held? slot = value ∧ ∀ limit depth, visitingHeld limit depth slot
      = visitingLevels limit (value.toList.flatMap (levels depth)) := by
  have hcounted : counted? slot = value.map (blockElement uri none) := by
    rw [hslot]
    refine counted?_drawn (fun e he => ?_) tag [("name", name)]
    obtain ⟨b, -, rfl⟩ := Option.map_eq_some_iff.1 he
    exact tag_blockElement none b
  simp only [held?, visitingHeld, hcounted]
  cases value with
  | none => exact ⟨rfl, fun _ _ => rfl⟩
  | some b => simp [(h b rfl).block, (h b rfl).journal]

/-- A written sequence is read back. -/
theorem sequence_slotElement {blocks : List Block} (h : ∀ c ∈ blocks, ReadsBack uri c)
    {slot : Element} (hslot : slot = slotElement uri tag name (chainElement? uri blocks)) :
    sequenceOf slot = blocks ∧ ∀ limit depth, visitingSequence limit depth slot
      = visitingLevels limit (blocks.flatMap (levels depth)) := by
  simp only [sequenceOf, visitingSequence, hslot, slotElement,
    counted?_drawn (tag_of_mem_chainElement? blocks)]
  clear hslot
  -- the sequence goes on behind its first block
  induction blocks with
  | nil => exact ⟨rfl, fun _ _ => rfl⟩
  | cons b rest ih =>
    obtain ⟨hb, hrest⟩ := forall_mem_cons.1 h
    have htag : ∀ e ∈ chainElement? uri rest, e.tag = "block" := tag_of_mem_chainElement? rest
    simp only [chainElement?, Option.elim_some, chainOf_blockElement htag, hb.block,
      visitingChain_blockElement htag, hb.journal, ih hrest, visitingLevels, flatMap_cons,
      flatMap_append, implies_true, and_self]

end Slots

/-! ### Blocks -/

/-- The journal of slots of one kind is that of what they hold. -/
theorem Tagged.visitingSlots (h : Tagged tag elements) (limit depth : Int) :
    visitingSlots limit depth elements = elements.flatMap fun e =>
      if tag = "value" then visitingHeld limit depth e
      else if tag = "statement" then visitingSequence limit depth e else [] := by
  rw [visitingSlots_eq]
  refine flatMap_congr fun e he => ?_
  rw [visitingSlot, h e he]

theorem visitingSlots_append (limit depth : Int) (elements others : List Element) :
    visitingSlots limit depth (elements ++ others)
      = visitingSlots limit depth elements ++ visitingSlots limit depth others := by
  rw [visitingSlots_eq, visitingSlots_eq, visitingSlots_eq, flatMap_append]

theorem visitingSlots_blockElement (limit depth : Int) (rest : Option Element) (b : Block) :
    visitingSlots limit depth (blockElement uri rest b).children
      = (valueElements uri b.values).flatMap (visitingHeld limit depth)
        ++ (statementElements uri b.statements).flatMap (visitingSequence limit depth) := by
  have hmutation : Tagged "mutation" (mutationElements uri b.mutation b.args) :=
    tagged_mutationElements b.mutation b.args
  have hfields : Tagged "field" (b.fields.map (fieldElement uri)) :=
    tagged_map (fun f => tag_drawn (by decide) _ _ _) b.fields
  have hnext : Tagged "next" (nextElements uri rest) := tagged_nextElements rest
  have hnone : ∀ l : List Element, l.flatMap (fun _ => ([] : List Entry)) = [] := fun l =>
    flatMap_eq_nil_iff.2 fun _ _ => rfl
  simp [blockElement_eq, Content.element, drawn, contentOf, visitingSlots_append, hnone,
    hmutation.visitingSlots, hfields.visitingSlots, hnext.visitingSlots,
    (tagged_valueElements b.values).visitingSlots,
    (tagged_statementElements b.statements).visitingSlots]

/-- A block that elements can describe. -/
structure IsRegular (b : Block) : Prop where
  kind : b.kind = kindOf b.type b.mutation
  fields : (Assoc.keys b.fields).Nodup
  values : (Assoc.keys b.values).Nodup
  statements : (Assoc.keys b.statements).Nodup

instance (b : Block) : Decidable (IsRegular b) :=
  decidable_of_iff (b.kind = kindOf b.type b.mutation ∧ (Assoc.keys b.fields).Nodup
      ∧ (Assoc.keys b.values).Nodup ∧ (Assoc.keys b.statements).Nodup)
    ⟨fun h => ⟨h.1, h.2.1, h.2.2.1, h.2.2.2⟩, fun h => ⟨h.kind, h.fields, h.values, h.statements⟩⟩

/-- **A block is read back if those in its slots are.** -/
theorem readsBack_of_inside {b : Block} (hb : IsRegular b)
    (h : ∀ c ∈ b.inside, ReadsBack uri c) : ReadsBack uri b := by
  have hvalue : ∀ v ∈ b.values, ∀ c ∈ v.2, ReadsBack uri c := fun v hv c hc =>
    h c (mem_append_left _ (mem_filterMap.2 ⟨v, hv, hc⟩))
  have hstatement : ∀ s ∈ b.statements, ∀ c ∈ s.2, ReadsBack uri c := fun s hs c hc =>
    h c (mem_append_right _ (mem_flatMap.2 ⟨s, hs, hc⟩))
  constructor
  · intro rest
    have hvalues : (valueElements uri b.values).map (fun s => (s.get "name", held? s))
        = b.values := by
      rw [valueElements_eq, map_map]
      refine (map_congr_left fun v hv => ?_).trans (map_id b.values)
      exact congrArg (Prod.mk v.1) (held_slotElement (hvalue v hv) rfl).1
    have hstatements : (statementElements uri b.statements).map
        (fun s => (s.get "name", sequenceOf s)) = b.statements := by
      rw [statementElements_eq, map_map]
      refine (map_congr_left fun s hs => ?_).trans (map_id b.statements)
      exact congrArg (Prod.mk s.1) (sequence_slotElement (hstatement s hs) rfl).1
    rw [blockElement_eq, (isTagged_contentOf rest b).blockOf hb.fields]
    simp only [contentOf]
    rw [hvalues, hstatements, Assoc.ofList_eq_self hb.values, Assoc.ofList_eq_self hb.statements,
      ← hb.kind]
    cases b
    rfl
  · intro limit depth rest
    have hvalues : (valueElements uri b.values).flatMap (visitingHeld limit (depth + 1))
        = visitingLevels limit ((b.values.filterMap Prod.snd).flatMap (levels (depth + 1))) := by
      rw [valueElements_eq, flatMap_map, filterMap_eq_flatMap_toList, flatMap_assoc,
        visitingLevels, flatMap_assoc]
      exact flatMap_congr fun v hv => (held_slotElement (hvalue v hv) rfl).2 limit (depth + 1)
    have hstatements : (statementElements uri b.statements).flatMap
        (visitingSequence limit (depth + 1))
        = visitingLevels limit ((b.statements.flatMap Prod.snd).flatMap (levels (depth + 1))) := by
      rw [statementElements_eq, flatMap_map, flatMap_assoc, visitingLevels, flatMap_assoc]
      exact flatMap_congr fun s hs =>
        (sequence_slotElement (hstatement s hs) rfl).2 limit (depth + 1)
    rw [visiting_eq, visitingSlots_blockElement, hvalues, hstatements, levels_eq, inside,
      flatMap_append, visitingLevels, visitingLevels, visitingLevels, flatMap_cons,
      flatMap_append]

/-- **A block is read back if all blocks in it are regular.** -/
theorem readsBack_of_regular {b : Block} {depth : Int}
    (h : ∀ l ∈ b.levels depth, IsRegular l.2) : ReadsBack uri b := by
  induction b using inductInside generalizing depth with
  | h b ih =>
    rw [levels_eq] at h
    refine readsBack_of_inside (h _ mem_cons_self) fun c hc => ?_
    have hinside : ∀ l ∈ c.levels (depth + 1), IsRegular l.2 := fun l hl =>
      h l (mem_cons_of_mem _ (mem_flatMap.2 ⟨c, hc, hl⟩))
    exact ih c hc hinside

end Finding

/-! ### Depths -/

/-- A block stops the reading if it stands too deep. -/
theorem stops_visitingHere {limit depth : Int} :
    stops (visitingHere limit depth) = [] ↔ depth ≤ limit := by
  rw [visitingHere, Journal.stops_look]
  split
  · simp only [Journal.stops_stop, cons_ne_nil, false_iff]
    omega
  · simp only [Journal.stops_nil, true_iff]
    omega

theorem notes_visitingHere (limit depth : Int) : notes (visitingHere limit depth) = [] := by
  rw [visitingHere]
  split <;> rfl

/-- **Blocks are read without a remark exactly if none stands too deep.** -/
theorem settle_visitingLevels {limit : Int} {levels : List (Int × Block)} :
    settle .unlimited (visitingLevels limit levels) = .ok [] ↔ ∀ l ∈ levels, l.1 ≤ limit := by
  rw [Journal.settle_unlimited_eq_ok_iff]
  induction levels with
  | nil => exact ⟨fun _ l hl => (nomatch hl), fun _ => ⟨rfl, rfl⟩⟩
  | cons l rest ih =>
    rw [visitingLevels, flatMap_cons, ← visitingLevels, Journal.stops_append,
      Journal.notes_append, notes_visitingHere, nil_append, append_eq_nil_iff,
      stops_visitingHere, and_assoc, ih, forall_mem_cons]

end Block
end ScreenForge
