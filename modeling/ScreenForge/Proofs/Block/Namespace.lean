/-
# Namespaces of block descriptors

Readers of blocks ask an element for its local name, its attributes, its text and the elements
inside it, so they read a tree as they read its bare copy, where every element has its local name
only (`bare`).  Putting elements into namespaces does not change the bare copy.
-/
import ScreenForge.Component.Packaged
import ScreenForge.Conversion.Screen
import ScreenForge.Proofs.Block.Walk

namespace ScreenForge

open List

namespace Markup
namespace Element

mutual

/-- A tree with its elements in namespaces, by where they stand; an empty name is no namespace. -/
def qualify (uris : List Nat → String) : Element → Element
  | ⟨name, attributes, text, children⟩ =>
    ⟨inNamespace (uris []) name, attributes, text, qualifyFrom uris 0 children⟩

/-- Elements in namespaces, the first of them at an index. -/
def qualifyFrom (uris : List Nat → String) (i : Nat) : List Element → List Element
  | [] => []
  | e :: rest => qualify (fun address => uris (i :: address)) e :: qualifyFrom uris (i + 1) rest

end

mutual

/-- A tree without namespaces. -/
def bare : Element → Element
  | ⟨name, attributes, text, children⟩ => ⟨localName name, attributes, text, bareAll children⟩

/-- Elements without namespaces. -/
def bareAll : List Element → List Element
  | [] => []
  | e :: rest => bare e :: bareAll rest

end

mutual

/-- **Namespaces leave no trace in the bare copy.** -/
theorem bare_qualify (uris : List Nat → String) (e : Element) : (e.qualify uris).bare = e.bare := by
  cases e
  rw [qualify, bare, bare, localName_inNamespace, bareAll_qualifyFrom]

theorem bareAll_qualifyFrom (uris : List Nat → String) (i : Nat) (elements : List Element) :
    bareAll (qualifyFrom uris i elements) = bareAll elements := by
  cases elements with
  | nil => rfl
  | cons e rest => rw [qualifyFrom, bareAll, bareAll, bare_qualify, bareAll_qualifyFrom]

end

theorem bareAll_eq (elements : List Element) : bareAll elements = elements.map bare := by
  induction elements with
  | nil => rfl
  | cons e rest ih => rw [bareAll, ih, map_cons]

variable (e : Element)

@[simp] theorem attributes_bare : e.bare.attributes = e.attributes := by
  cases e
  rfl

@[simp] theorem text_bare : e.bare.text = e.text := by
  cases e
  rfl

@[simp] theorem children_bare : e.bare.children = e.children.map bare := by
  rw [← bareAll_eq]
  cases e
  rfl

@[simp] theorem tag_bare : e.bare.tag = e.tag := by
  cases e
  rw [bare, tag, tag, localName, localName, String.toList_ofList,
    Text.afterLast_eq_self (Text.not_mem_afterLast _ _)]

@[simp] theorem get?_bare (name : String) : e.bare.get? name = e.get? name := by
  rw [get?, get?, attributes_bare]

@[simp] theorem get_bare (name : String) : e.bare.get name = e.get name := by
  rw [get, get, get?_bare]

end Element
end Markup

namespace Block

open Markup (Element)
open Markup.Element (bare attributes_bare children_bare get_bare tag_bare)

/-! ### Elements of a bare copy -/

/-- A selection by tag commutes with taking the bare copy. -/
@[simp] theorem named_bare (tag : String) (elements : List Element) :
    named tag (elements.map bare) = (named tag elements).map bare := by
  rw [named, named, filter_map]
  congr 2
  funext e
  simp

@[simp] theorem counted?_bare (slot : Element) : counted? slot.bare = (counted? slot).map bare := by
  have htag : slotTag slot.bare.children = slotTag slot.children := by
    simp [slotTag, Function.comp_def]
  rw [counted?, htag, children_bare, named_bare, List.head?_map, counted?]

variable (children : List Element) (e : Element)

theorem next?_bare : next? e.bare = (next? e).map bare := by
  rw [next?, children_bare, named_bare, List.head?_map, next?]
  cases (named "next" e.children).head? with
  | none => rfl
  | some slot => exact counted?_bare slot

@[simp] theorem slot?_bare (tag name : String) (children : List Element) :
    slot? tag name (children.map bare) = (slot? tag name children).map bare := by
  rw [slot?, named_bare, List.find?_map, slot?]
  congr 2
  funext e
  simp

@[simp] theorem fieldsOf_bare : fieldsOf (children.map bare) = fieldsOf children := by
  simp [fieldsOf, Function.comp_def]

@[simp] theorem mutationOf_bare : mutationOf (children.map bare) = mutationOf children := by
  simp [mutationOf, mutationOf?, Function.comp_def]

@[simp] theorem argsOf_bare : argsOf (children.map bare) = argsOf children := by
  rw [argsOf, argsOf, mutationOf?, named_bare, List.head?_map, mutationOf?]
  cases (named "mutation" children).head? with
  | none => rfl
  | some m => simp

/-! ### Reading a bare copy -/

/-- An element reads as its bare copy: as a block, as a sequence, and in the journals. -/
structure ReadsBare (e : Element) : Prop where
  block : blockOf e.bare = blockOf e
  chain : chainOf e.bare = chainOf e
  visit : ∀ limit depth, visiting limit depth e.bare = visiting limit depth e
  visitChain : ∀ limit depth, visitingChain limit depth e.bare = visitingChain limit depth e

/-- What is read alike of a bare copy is read alike of one that is found. -/
theorem elim_bare {β : Type} {read : Element → β} (last : β) {found : Option Element}
    (h : ∀ e ∈ found, read e.bare = read e) :
    (found.map bare).elim last read = found.elim last read := by
  cases found with
  | none => rfl
  | some e => exact h e rfl

section Slots

variable {slot : Element} (h : ∀ e ∈ counted? slot, ReadsBare e) (limit depth : Int)

include h

theorem held?_bare : held? slot.bare = held? slot := by
  rw [held?, counted?_bare, Option.map_map, held?]
  exact Option.map_congr fun e he => (h e he).block

theorem sequenceOf_bare : sequenceOf slot.bare = sequenceOf slot := by
  rw [sequenceOf, counted?_bare]
  exact elim_bare [] fun e he => (h e he).chain

theorem visitingHeld_bare : visitingHeld limit depth slot.bare = visitingHeld limit depth slot := by
  rw [visitingHeld, counted?_bare]
  exact elim_bare [] fun e he => (h e he).visit limit depth

theorem visitingSequence_bare :
    visitingSequence limit depth slot.bare = visitingSequence limit depth slot := by
  rw [visitingSequence, counted?_bare]
  exact elim_bare [] fun e he => (h e he).visitChain limit depth

theorem visitingSlot_bare : visitingSlot limit depth slot.bare = visitingSlot limit depth slot := by
  rw [visitingSlot, visitingHeld_bare h, visitingSequence_bare h, tag_bare, visitingSlot]

end Slots

/-- **One level of reading**: if what counts in the slots of an element reads as its bare copy, so
does the element. -/
theorem readsBare_step {e : Element} (h : ∀ s ∈ e.children, ∀ c ∈ counted? s, ReadsBare c) :
    ReadsBare e := by
  have hnamed : ∀ {tag : String}, ∀ s ∈ named tag e.children, ∀ c ∈ counted? s, ReadsBare c :=
    fun s hs => h s (mem_named_iff.1 hs).1
  have hblock : blockOf e.bare = blockOf e := by
    have hvalues : valuesIn e.bare.children = valuesIn e.children := by
      rw [valuesIn_eq, valuesIn_eq, children_bare, named_bare, map_map]
      exact map_congr_left fun s hs => by simp [held?_bare (hnamed s hs)]
    have hstatements : statementsIn e.bare.children = statementsIn e.children := by
      rw [statementsIn_eq, statementsIn_eq, children_bare, named_bare, map_map]
      exact map_congr_left fun s hs => by simp [sequenceOf_bare (hnamed s hs)]
    rw [blockOf_eq, blockOf_eq, hvalues, hstatements]
    simp [assemble]
  have hvisit : ∀ limit depth, visiting limit depth e.bare = visiting limit depth e := by
    intro limit depth
    rw [visiting_eq, visiting_eq, visitingSlots_eq, visitingSlots_eq, children_bare, flatMap_map]
    exact congrArg _ (flatMap_congr fun s hs => visitingSlot_bare (h s hs) limit _)
  have hnext : ∀ c ∈ next? e, ReadsBare c := by
    intro c hc
    obtain ⟨s, hs, hc⟩ := Option.bind_eq_some_iff.1 hc
    exact hnamed s (mem_of_mem_head? hs) c hc
  constructor
  · exact hblock
  · rw [chainOf_eq, chainOf_eq, hblock, nextIn_eq, nextIn_eq, next?_bare,
      elim_bare [] fun c hc => (hnext c hc).chain, attributes_bare]
  · exact hvisit
  · intro limit depth
    rw [visitingChain_eq, visitingChain_eq, hvisit, visitingNext_eq, visitingNext_eq, next?_bare,
      elim_bare [] fun c hc => (hnext c hc).visitChain limit depth, attributes_bare, get_bare]

/-- **Every element reads as its bare copy.** -/
theorem readsBare : ReadsBare e := by
  induction e using inductElements with
  | h e ih =>
    refine readsBare_step fun s hs c hc => ih c ?_
    exact Nat.lt_trans (sizeOf_lt_of_counted? hc) (sizeOf_lt_of_mem_children hs)

/-! ### Blocks at the top -/

section Top

variable (limit : Int) (children : List Element) (slot : String)

@[simp] theorem bodyOf_bare : bodyOf (children.map bare) slot = bodyOf children slot := by
  rw [bodyOf_eq, bodyOf_eq, slot?_bare]
  exact elim_bare [] fun s _ => sequenceOf_bare fun e _ => readsBare e

@[simp] theorem valueOf_bare : valueOf (children.map bare) slot = valueOf children slot := by
  rw [valueOf_eq, valueOf_eq, slot?_bare]
  exact elim_bare none fun s _ => held?_bare fun e _ => readsBare e

@[simp] theorem visitingBody_bare :
    visitingBody limit (children.map bare) slot = visitingBody limit children slot := by
  rw [visitingBody_eq, visitingBody_eq, slot?_bare]
  exact elim_bare [] fun s _ => visitingSequence_bare (fun e _ => readsBare e) limit 1

@[simp] theorem visitingValue_bare :
    visitingValue limit (children.map bare) slot = visitingValue limit children slot := by
  rw [visitingValue_eq, visitingValue_eq, slot?_bare]
  exact elim_bare [] fun s _ => visitingHeld_bare (fun e _ => readsBare e) limit 1

end Top

/-- A block at the top gives the same in its bare copy. -/
@[simp] theorem topOf_bare : topOf e.bare = topOf e := by
  simp [topOf, eventOf, globalOf, procedureOf]

/-- A bare copy holds the same program. -/
theorem programOf_bare (root : Element) : programOf root.bare = programOf root := by
  simp [programOf, topElements, Function.comp_def]

/-- A bare copy has the same journal. -/
theorem visitingRoot_bare (limit : Int) (root : Element) :
    visitingRoot limit root.bare = visitingRoot limit root := by
  rw [visitingRoot, topElements, children_bare, named_bare, flatMap_map]
  exact flatMap_congr fun e _ => by simp [visitingTop]

/-- What is read alike of the bare copy is read alike in any namespaces. -/
theorem qualify_eq {β : Type} {read : Element → β} (h : ∀ e, read e.bare = read e)
    (root : Element) (uris : List Nat → String) : read (root.qualify uris) = read root := by
  rw [← h, root.bare_qualify, h]

/-- **Namespaces do not matter.**  However the elements of a tree are put into namespaces, its root
is accepted or refused alike, the program read from it is the same, and so is the journal of
reading it, under every limit.  So a screen whose blocks are written with such namespaces converts
as it does without them. -/
theorem namespaces_do_not_matter (root : Element) (uris : List Nat → String) :
    (root.qualify uris).tag = root.tag
    ∧ programOf (root.qualify uris) = programOf root
    ∧ (∀ limit, visitingRoot limit (root.qualify uris) = visitingRoot limit root)
    ∧ ∀ (table : Component.Table) (limits : Limits) (repair : Bool)
        (source : Conversion.ScreenSource) (blocks package : String),
      Markup.read? source.blocks = some root → Markup.read? blocks = some (root.qualify uris) →
      (source.blocks.utf8ByteSize : Int) ≤ limits.maxSize →
      (blocks.utf8ByteSize : Int) ≤ limits.maxSize →
      Conversion.draft table limits repair { source with blocks } package
        = Conversion.draft table limits repair source package := by
  have htag := qualify_eq tag_bare root uris
  have hprogram := qualify_eq programOf_bare root uris
  have hvisiting := fun limit => qualify_eq (visitingRoot_bare limit) root uris
  refine ⟨htag, hprogram, hvisiting, ?_⟩
  intro table limits repair source blocks package hread hqualified hsize hlarger
  have hplain : rootOf source.blocks limits
      = if root.tag = "xml" then .ok (some root) else .error (.wrongRoot root.tag) := by
    rw [rootOf_of_read hread, if_neg (by omega)]
  have hroot : rootOf blocks limits
      = if root.tag = "xml" then .ok (some (root.qualify uris)) else .error (.wrongRoot root.tag) := by
    rw [rootOf_of_read hqualified, if_neg (by omega), htag]
  simp only [Conversion.draft, hplain, hroot]
  by_cases hxml : root.tag = "xml"
  · simp only [if_pos hxml, Conversion.programOf, Conversion.visitingOf, Option.map_some, hprogram,
      hvisiting]
  · simp only [if_neg hxml]

/-- A procedure without a body, in no namespace. -/
def plainText : String := "<xml><block type=\"procedures_defnoreturn\"/></xml>"

/-- The same in a namespace. -/
def namespacedText : String := "<xml xmlns=\"u\"><block type=\"procedures_defnoreturn\"/></xml>"

/-- The two texts convert alike. -/
theorem namespaced_text_converts_alike :
    Conversion.draft .packaged {} false ⟨"Screen1", "", namespacedText⟩ "app"
      = Conversion.draft .packaged {} false ⟨"Screen1", "", plainText⟩ "app" := by
  let root : Element := ⟨"xml", [], "", [⟨"block", [("type", actionType)], "", []⟩]⟩
  have hplain : Markup.read? plainText = some root := by decide +kernel
  have hqualified : Markup.read? namespacedText = some (root.qualify fun _ => "u") := by
    decide +kernel
  obtain ⟨-, -, -, hdraft⟩ := namespaces_do_not_matter root fun _ => "u"
  exact hdraft .packaged {} false ⟨"Screen1", "", plainText⟩ namespacedText "app" hplain hqualified
    (by decide) (by decide)

end Block
end ScreenForge
