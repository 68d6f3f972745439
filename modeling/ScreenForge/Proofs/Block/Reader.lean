/-
# Reading blocks by tags

The readers of blocks walk down lists of elements so that their recursion is plain.  What they find
is what a selection by tags finds.  What counts in a slot is one element at most (`counted?`), and
the journals of reading follow the same elements.  What a block at the top gives is told by `Gives`.
-/
import ScreenForge.Block.Reading
import ScreenForge.Proofs.Layout.Document

namespace ScreenForge

open List

namespace Text

theorem mem_normalizeLines {s : List Char} {c : Char} (h : c ∈ normalizeLines s) :
    c = '\n' ∨ c ∈ s := by
  fun_induction normalizeLines s with
  | case1 => exact .inr h
  | case2 rest ih | case3 rest _ ih | case4 d rest _ _ ih =>
    simp only [mem_cons] at h ⊢
    grind

/-- Only a text of blanks is stripped to nothing. -/
theorem isBlank_of_stripChars_eq_nil {s : List Char} (h : stripChars s = []) :
    ∀ c ∈ s, isBlank c := by
  obtain ⟨before, after, hbefore, hafter, hs⟩ := exists_trim isBlank s
  rw [← stripChars, h] at hs
  exact hs ▸ forall_mem_append.2 ⟨hbefore, hafter⟩

end Text

namespace Markup

theorem ne_of_isBlank {c : Char} (h : Text.isBlank c) : c ≠ '<' ∧ c ≠ '&' := by
  constructor <;> rintro rfl <;> exact absurd h (by decide)

/-- Blanks are one piece of text, if they are legal. -/
theorem scan?_blank {s : List Char} (h : ∀ c ∈ s, Text.isBlank c) :
    scan? s = none ∨ scan? s = some [] ∨ scan? s = some [.text s] := by
  cases s with
  | nil => exact .inr (.inl rfl)
  | cons c rest =>
    have htext : ∀ d ∈ c :: rest, isTextChar d := by
      intro d hd
      simp [isTextChar, ne_of_isBlank (h d hd)]
    have hrun : (c :: rest).takeWhile isTextChar = c :: rest :=
      takeWhile_eq_self_iff.2 htext
    have hleft : (c :: rest).dropWhile isTextChar = [] := dropWhile_eq_nil_iff.2 htext
    obtain ⟨hbracket, hreference⟩ := ne_of_isBlank (h c mem_cons_self)
    have htoken : token? (c :: rest)
        = if isPlain (c :: rest) then some (some (.text (c :: rest)), []) else none := by
      rw [token?, hrun, hleft]
      · exact fun _ heq => absurd heq hbracket
      · exact fun _ heq => absurd heq hbracket
      · exact fun _ heq => absurd heq hbracket
      · exact hbracket
      · exact hreference
    have hscan : scan? (c :: rest) = (token? (c :: rest)).bind fun found =>
        (scanFrom rest.length found.2).map (found.1.toList ++ ·) := by
      rw [scan?, length_cons, scanFrom, htoken]
      · split
        · next h => rw [h]; rfl
        · next h => rw [h]; rfl
      · exact cons_ne_nil c rest
    rw [hscan, htoken]
    split
    · cases rest <;> exact .inr (.inr rfl)
    · exact .inl rfl

theorem start?_blank {s : List Char} (h : ∀ c ∈ s, Text.isBlank c) :
    start? s = some (false, s) := by
  cases s with
  | nil => rfl
  | cons c rest =>
    have hc := (ne_of_isBlank (h c mem_cons_self)).1
    have hneed : need? "<?xml".toList (c :: rest) = none := if_neg hc.symm
    rw [start?, hneed]

theorem prolog?_blank {s : List Char} (h : ∀ c ∈ s, Text.isBlank c) (fuel : Nat)
    (standalone : Bool) : prolog? (fuel + 1) none standalone s = some ({}, skipSpace s) := by
  have hbracket : ∀ rest, skipSpace s ≠ '<' :: rest := by
    intro rest heq
    have hmem : '<' ∈ s := (dropWhile_sublist _).mem (heq ▸ mem_cons_self)
    exact (ne_of_isBlank (h _ hmem)).1 rfl
  rw [prolog?]
  split
  · next heq => exact absurd heq (hbracket _)
  · next heq => exact absurd heq (hbracket _)
  · next heq => exact absurd heq (hbracket _)
  · rfl

theorem dropMark_sublist (s : List Char) : (dropMark s).Sublist s := by
  cases s with
  | nil => exact .slnil
  | cons c rest =>
    rw [dropMark]
    split
    · exact sublist_cons_self c rest
    · exact List.Sublist.refl _

/-- **A text of blanks is no markup.** -/
theorem read?_blank {text : String} (h : ∀ c ∈ text.toList, Text.isBlank c) :
    read? text = none := by
  have hbody : ∀ c ∈ dropMark (Text.normalizeLines text.toList), Text.isBlank c := by
    intro c hc
    obtain rfl | hmem := Text.mem_normalizeLines ((dropMark_sublist _).mem hc)
    · decide
    · exact h c hmem
  have hskipped : ∀ c ∈ skipSpace (dropMark (Text.normalizeLines text.toList)),
      Text.isBlank c := fun c hc => hbody c ((dropWhile_sublist _).mem hc)
  simp only [read?, start?_blank hbody, prolog?_blank hbody, Option.bind_eq_bind, Option.bind_some]
  obtain hscan | hscan | hscan := scan?_blank hskipped <;> rw [hscan] <;> rfl

/-- **A name in a namespace keeps its local part.** -/
theorem localName_inNamespace (uri name : String) :
    localName (inNamespace uri name) = localName name := by
  rw [localName, inNamespace]
  split
  · rfl
  · have hchars : ("\x7b" ++ uri ++ "\x7d" ++ name).toList
        = ("\x7b" ++ uri).toList ++ '\x7d' :: name.toList := by
      rw [String.toList_append, String.toList_append, append_assoc]
      rfl
    rw [hchars, Text.afterLast_append_cons, localName]

theorem localName_eq_self {name : String} (h : '\x7d' ∉ name.toList) : localName name = name := by
  rw [localName, Text.afterLast_eq_self h, String.ofList_toList]

end Markup

namespace Block

open Journal (Entry)
open Markup (Element localName)

variable {root : Element} (children : List Element) (elements : List Element) (e : Element)

/-! ### Elements by their tags -/

section Named

variable {β : Type} {tag : String}

/-- A walk that passes by all elements but those of a tag goes over the selection of these. -/
theorem eq_foldr {walk : List Element → β} {last : β} {f : Element → β → β} (hnil : walk [] = last)
    (hcons : ∀ e rest, walk (e :: rest) = if e.tag = tag then f e (walk rest) else walk rest)
    (elements : List Element) : walk elements = (named tag elements).foldr f last := by
  induction elements with
  | nil => exact hnil
  | cons e rest ih =>
    rw [hcons, ih, named, named, filter_cons]
    by_cases h : e.tag = tag
    · rw [if_pos h, if_pos (beq_iff_eq.2 h), foldr_cons]
    · rw [if_neg h, if_neg fun heq => h (beq_iff_eq.1 heq)]

/-- A walk that ends at the first element of a tag is the selection of that element. -/
theorem eq_first {walk : List Element → β} {last : β} {found : Element → β} (hnil : walk [] = last)
    (hcons : ∀ e rest, walk (e :: rest) = if e.tag = tag then found e else walk rest)
    (elements : List Element) : walk elements = (named tag elements).head?.elim last found := by
  rw [eq_foldr (f := fun e _ => found e) hnil hcons]
  cases named tag elements <;> rfl

/-- A walk that gathers from every element of a tag is the selection of those elements. -/
theorem eq_map {walk : List Element → List β} {found : Element → β} (hnil : walk [] = [])
    (hcons : ∀ e rest, walk (e :: rest) = if e.tag = tag then found e :: walk rest else walk rest)
    (elements : List Element) : walk elements = (named tag elements).map found :=
  (eq_foldr hnil hcons elements).trans map_eq_foldr.symm

end Named

/-- The element that counts in a slot. -/
def counted? (slot : Element) : Option Element :=
  (named (slotTag slot.children) slot.children).head?

/-- The element that follows another in a sequence. -/
def next? (e : Element) : Option Element := (named "next" e.children).head?.bind counted?

/-- The block that a value slot holds. -/
def held? (slot : Element) : Option Block := (counted? slot).map blockOf

/-- The sequence that a statement slot holds. -/
def sequenceOf (slot : Element) : List Block := (counted? slot).elim [] chainOf

theorem blockOf_eq :
    blockOf e = assemble e.attributes e.children (valuesIn e.children) (statementsIn e.children) := by
  cases e
  rw [blockOf]

theorem chainOf_eq : chainOf e
    = if isDisabled e.attributes then nextIn e.children else blockOf e :: nextIn e.children := by
  rw [blockOf_eq]
  cases e
  rw [chainOf]

theorem firstIn_eq (tag : String) (elements : List Element) :
    firstIn tag elements = (named tag elements).head?.map blockOf := by
  have hfirst : firstIn tag elements
      = (named tag elements).head?.elim none fun e => some (blockOf e) :=
    eq_first rfl (fun e rest => by cases e; rw [firstIn]; rfl) elements
  rw [hfirst]
  cases (named tag elements).head? <;> rfl

theorem chainIn_eq (tag : String) (elements : List Element) :
    chainIn tag elements = (named tag elements).head?.elim [] chainOf :=
  eq_first rfl (fun e rest => by cases e; rw [chainIn]; rfl) elements

/-- Each value slot holds what counts in it. -/
theorem valuesIn_eq :
    valuesIn elements = (named "value" elements).map fun s => (s.get "name", held? s) :=
  eq_map rfl (fun e rest => by cases e; rw [valuesIn, firstIn_eq]; rfl) elements

/-- Each statement slot holds its sequence. -/
theorem statementsIn_eq : statementsIn elements
    = (named "statement" elements).map fun s => (s.get "name", sequenceOf s) :=
  eq_map rfl (fun e rest => by cases e; rw [statementsIn, chainIn_eq]; rfl) elements

theorem elim_next? (walk : Element → List β) :
    (named "next" e.children).head?.elim [] (fun slot => (counted? slot).elim [] walk)
      = (next? e).elim [] walk := by
  rw [next?]
  cases (named "next" e.children).head? with
  | none => rfl
  | some slot => rfl

/-- The blocks behind a block are the chain of what counts in its `next` element. -/
theorem nextIn_eq : nextIn e.children = (next? e).elim [] chainOf := by
  rw [← elim_next?]
  exact eq_first rfl (fun e rest => by cases e; rw [nextIn, chainIn_eq]; rfl) e.children

/-! ### Journals by tags -/

section Visiting

variable (limit depth : Int)

/-- The journal of reading what counts in a value slot. -/
def visitingHeld (slot : Element) : List Entry := (counted? slot).elim [] (visiting limit depth)

/-- The journal of reading the sequence in a statement slot. -/
def visitingSequence (slot : Element) : List Entry :=
  (counted? slot).elim [] (visitingChain limit depth)

/-- The journal of reading an element inside a block. -/
def visitingSlot (e : Element) : List Entry :=
  if e.tag = "value" then visitingHeld limit depth e
  else if e.tag = "statement" then visitingSequence limit depth e
  else []

theorem visiting_eq (e : Element) : visiting limit depth e
    = visitingHere limit depth ++ visitingSlots limit (depth + 1) e.children := by
  cases e
  rw [visiting]

theorem visitingChain_eq (e : Element) : visitingChain limit depth e
    = (if isDisabled e.attributes then [disabledNote "Disabled block skipped" (e.get "type")]
        else visiting limit depth e)
      ++ visitingNext limit depth e.children := by
  rw [visiting_eq]
  cases e
  rw [visitingChain]
  rfl

theorem visitingFirst_eq (tag : String) (elements : List Element) :
    visitingFirst limit depth tag elements
      = (named tag elements).head?.elim [] (visiting limit depth) :=
  eq_first rfl (fun e rest => by cases e; rw [visitingFirst]; rfl) elements

theorem visitingChainIn_eq (tag : String) (elements : List Element) :
    visitingChainIn limit depth tag elements
      = (named tag elements).head?.elim [] (visitingChain limit depth) :=
  eq_first rfl (fun e rest => by cases e; rw [visitingChainIn]; rfl) elements

/-- The journal of a chain goes on where the chain does. -/
theorem visitingNext_eq (e : Element) :
    visitingNext limit depth e.children = (next? e).elim [] (visitingChain limit depth) := by
  rw [← elim_next?]
  exact eq_first rfl (fun e rest => by cases e; rw [visitingNext, visitingChainIn_eq]; rfl)
    e.children

theorem visitingSlots_eq (elements : List Element) :
    visitingSlots limit depth elements = elements.flatMap (visitingSlot limit depth) := by
  induction elements with
  | nil => rfl
  | cons e rest ih =>
    obtain ⟨name, attributes, text, children⟩ := e
    rw [visitingSlots, ih, visitingFirst_eq, visitingChainIn_eq]
    rfl

end Visiting

/-! ### Blocks at the top -/

theorem bodyOf_eq (slot : String) :
    bodyOf children slot = (slot? "statement" slot children).elim [] sequenceOf := by
  rw [bodyOf]
  cases slot? "statement" slot children with
  | none => rfl
  | some s => exact chainIn_eq _ _

theorem valueOf_eq (slot : String) :
    valueOf children slot = (slot? "value" slot children).elim none held? := by
  rw [valueOf]
  cases slot? "value" slot children with
  | none => rfl
  | some s => exact firstIn_eq _ _

theorem visitingBody_eq (limit : Int) (children : List Element) (slot : String) :
    visitingBody limit children slot
      = (slot? "statement" slot children).elim [] (visitingSequence limit 1) := by
  rw [visitingBody]
  cases slot? "statement" slot children with
  | none => rfl
  | some s => exact visitingChainIn_eq _ _ _ _

theorem visitingValue_eq (limit : Int) (children : List Element) (slot : String) :
    visitingValue limit children slot
      = (slot? "value" slot children).elim [] (visitingHeld limit 1) := by
  rw [visitingValue]
  cases slot? "value" slot children with
  | none => rfl
  | some s => exact visitingFirst_eq _ _ _ _

/-! ### Sequences -/

section Sequences

variable {e} {slot : Element}

theorem sizeOf_lt_of_mem_children {c : Element} (h : c ∈ e.children) : sizeOf c < sizeOf e := by
  obtain ⟨name, attributes, text, children⟩ := e
  have hlt : sizeOf c < sizeOf children := sizeOf_lt_of_mem h
  simp only [Element.mk.sizeOf_spec]
  omega

/-- What counts in a slot is smaller than the slot. -/
theorem sizeOf_lt_of_counted? (h : counted? slot = some e) : sizeOf e < sizeOf slot :=
  sizeOf_lt_of_mem_children (mem_of_mem_filter (mem_of_mem_head? h))

/-- **Induction over elements by size.** -/
theorem inductElements {P : Element → Prop}
    (h : ∀ e, (∀ c, sizeOf c < sizeOf e → P c) → P e) (e : Element) : P e :=
  h e fun c _ => inductElements h c
termination_by sizeOf e

theorem sizeOf_lt_of_next? {d : Element} (h : next? e = some d) : sizeOf d < sizeOf e := by
  obtain ⟨s, hs, hd⟩ := Option.bind_eq_some_iff.1 h
  have hlt := sizeOf_lt_of_mem_children (mem_of_mem_filter (mem_of_mem_head? hs))
  have hin := sizeOf_lt_of_counted? hd
  omega

/-- The elements of a sequence from one of them on, disabled ones among them. -/
def sequenceFrom (e : Element) : List Element :=
  e :: match _h : next? e with
    | none => []
    | some d => sequenceFrom d
termination_by sizeOf e
decreasing_by exact sizeOf_lt_of_next? _h

/-- A sequence goes from one link to the next. -/
theorem sequenceFrom_eq (e : Element) : sequenceFrom e = e :: (next? e).elim [] sequenceFrom := by
  rw [sequenceFrom]
  split <;> next h => rw [h]; rfl

theorem sizeOf_le_of_mem_sequenceFrom {d : Element} (h : d ∈ sequenceFrom e) :
    sizeOf d ≤ sizeOf e := by
  induction e using inductElements with
  | h e ih =>
    rw [sequenceFrom_eq] at h
    obtain rfl | h := mem_cons.1 h
    · exact Nat.le_refl _
    · cases hnext : next? e with
      | none =>
        rw [hnext] at h
        cases h
      | some c =>
        rw [hnext] at h
        have hlt := sizeOf_lt_of_next? hnext
        exact Nat.le_of_lt (Nat.lt_of_le_of_lt (ih c hlt h) hlt)

/-- The elements of the sequence in a statement slot. -/
def sequenceIn (slot : Element) : List Element := (counted? slot).elim [] sequenceFrom

theorem sizeOf_lt_of_mem_sequenceIn (h : e ∈ sequenceIn slot) : sizeOf e < sizeOf slot := by
  rw [sequenceIn] at h
  cases hc : counted? slot with
  | none =>
    rw [hc] at h
    cases h
  | some first =>
    rw [hc] at h
    have hle := sizeOf_le_of_mem_sequenceFrom h
    have hlt := sizeOf_lt_of_counted? hc
    omega

/-- The elements of a sequence that are not left out. -/
def enabledIn (slot : Element) : List Element :=
  (sequenceIn slot).filter fun e => !isDisabled e.attributes

/-- A chain has the blocks of the links that are enabled. -/
theorem chainOf_eq_sequenceFrom (e : Element) :
    chainOf e = ((sequenceFrom e).filter fun d => !isDisabled d.attributes).map blockOf := by
  induction e using inductElements with
  | h e ih =>
    have hrest : nextIn e.children = (((next? e).elim [] sequenceFrom).filter fun d =>
        !isDisabled d.attributes).map blockOf := by
      rw [nextIn_eq]
      cases hnext : next? e with
      | none => rfl
      | some d => exact ih d (sizeOf_lt_of_next? hnext)
    rw [chainOf_eq, sequenceFrom_eq, hrest, filter_cons]
    cases isDisabled e.attributes with
    | true => rfl
    | false => rfl

/-- The sequence of a statement slot is made of the links that are enabled. -/
theorem sequenceOf_eq (slot : Element) : sequenceOf slot = (enabledIn slot).map blockOf := by
  rw [sequenceOf, enabledIn, sequenceIn]
  cases counted? slot with
  | none => rfl
  | some e => exact chainOf_eq_sequenceFrom e

end Sequences

/-! ### Chains -/

/-- What counts in a slot: its first block, or its first shadow if there is no block. -/
def first? (slot : Element) : Option Element :=
  (named "block" slot.children).head?.or (named "shadow" slot.children).head?

/-- The links of a chain from one of them on, disabled ones among them. -/
inductive Chain : Option Element → List Element → Prop where
  | nil : Chain none []
  | cons {e : Element} {links : List Element}
    (hrest : Chain ((named "next" e.children).head?.bind first?) links) : Chain (some e) (e :: links)

/-- What counts in a slot is its first block, or its first shadow. -/
theorem counted?_eq_first? (slot : Element) : counted? slot = first? slot := by
  rw [counted?, slotTag, first?]
  cases hany : slot.children.any fun e => e.tag == "block" with
  | true =>
    obtain ⟨e, he, htag⟩ := any_eq_true.1 hany
    have hmem : e ∈ named "block" slot.children := mem_filter.2 ⟨he, htag⟩
    rw [if_pos rfl, List.head?_eq_some_head (ne_nil_of_mem hmem), Option.some_or]
  | false =>
    have hnone : named "block" slot.children = [] :=
      filter_eq_nil_iff.2 (any_eq_false.1 hany)
    rw [if_neg Bool.false_ne_true, hnone, List.head?_nil, Option.none_or]

/-- The links of a sequence form a chain. -/
theorem chain_sequenceFrom (e : Element) : Chain (some e) (sequenceFrom e) := by
  induction e using inductElements with
  | h e ih =>
    rw [sequenceFrom_eq]
    refine .cons ?_
    have hnext : (named "next" e.children).head?.bind first? = next? e := by
      rw [next?, funext counted?_eq_first?]
    rw [hnext]
    cases hd : next? e with
    | none => exact .nil
    | some d => exact ih d (sizeOf_lt_of_next? hd)

/-- **The elements of a statement slot are the links of its chain.** -/
theorem chain_sequenceIn (slot : Element) : Chain (first? slot) (sequenceIn slot) := by
  rw [← counted?_eq_first?, sequenceIn]
  cases counted? slot with
  | none => exact .nil
  | some e => exact chain_sequenceFrom e

/-- The sequence of a named slot: the blocks of its enabled links. -/
def sequenceAt (name : String) (e : Element) : List Block :=
  (slot? "statement" name e.children).elim [] fun slot => (enabledIn slot).map blockOf

theorem bodyOf_eq_sequenceAt (e : Element) (name : String) :
    bodyOf e.children name = sequenceAt name e := by
  rw [bodyOf_eq, sequenceAt, funext sequenceOf_eq]

/-! ### What blocks at the top give -/

/-- The event of an event block. -/
def eventName (e : Element) : String := ((mutationOf e.children).lookup "event_name").getD ""

/-- An event block is for an event, and not for all components of a type. -/
def Supported (e : Element) : Prop :=
  eventName e ≠ "" ∧ Text.lower (((mutationOf e.children).lookup "is_generic").getD "false") ≠ "true"

/-- **What a block at the top gives.** -/
inductive Gives (e : Element) : Top → Prop where
  | disabled {reason : Diagnostic} (hdisabled : isDisabled e.attributes = true)
    (hcode : reason.code = .disabledBlock) (hsubject : reason.subject = some (e.get "type")) :
    Gives e (.skipped reason)
  | unsupported {reason : Diagnostic} (henabled : isDisabled e.attributes = false)
    (htype : e.get "type" = eventType) (hnot : ¬ Supported e)
    (hcode : reason.code = .unsupportedEvent) : Gives e (.skipped reason)
  | orphan {reason : Diagnostic} (henabled : isDisabled e.attributes = false)
    (htype : e.get "type" ∉ [eventType, globalType, actionType, functionType])
    (hcode : reason.code = .orphanBlock) (hsubject : reason.subject = some (e.get "type")) :
    Gives e (.skipped reason)
  | handler {h : Handler} (henabled : isDisabled e.attributes = false)
    (htype : e.get "type" = eventType) (hsupported : Supported e) (hevent : h.event = eventName e)
    (hbody : h.body = sequenceAt "DO" e) : Gives e (.handler h)
  | global {g : Global} (henabled : isDisabled e.attributes = false)
    (htype : e.get "type" = globalType)
    (hvalue : g.value = ((slot? "value" "VALUE" e.children).bind first?).map blockOf) :
    Gives e (.global g)
  | procedure {p : Procedure} (henabled : isDisabled e.attributes = false)
    (htype : e.get "type" = if p.returnsValue then functionType else actionType)
    (hbody : p.body = sequenceAt "STACK" e)
    (hresult : p.result = if p.returnsValue then
      ((slot? "value" "RETURN" e.children).bind first?).map blockOf else none) :
    Gives e (.procedure p)

theorem valueOf_eq_first? (e : Element) (name : String) :
    valueOf e.children name = ((slot? "value" name e.children).bind first?).map blockOf := by
  rw [valueOf_eq, ← funext counted?_eq_first?]
  cases slot? "value" name e.children <;> rfl

/-- An enabled event block gives its handler. -/
theorem gives_eventOf {e : Element} (henabled : isDisabled e.attributes = false)
    (htype : e.get "type" = eventType) : Gives e (eventOf e) := by
  rw [eventOf]
  split
  · next hgeneric => exact .unsupported henabled htype (fun h => h.2 hgeneric) rfl
  · next hgeneric =>
    split
    · next hevent => exact .unsupported henabled htype (fun h => h.1 hevent) rfl
    · next hevent =>
      exact .handler henabled htype ⟨hevent, hgeneric⟩ rfl (bodyOf_eq_sequenceAt e "DO")

/-- A block at the top gives one thing, told by its type. -/
theorem gives_topOf (e : Element) : Gives e (topOf e) := by
  rw [topOf]
  split
  · next hdisabled => exact .disabled hdisabled rfl rfl
  next hdisabled =>
  have henabled : isDisabled e.attributes = false := Bool.eq_false_iff.2 hdisabled
  split
  · next htype => exact gives_eventOf henabled htype
  next hevent =>
  split
  · next htype => exact .global henabled htype (valueOf_eq_first? e "VALUE")
  next hglobal =>
  split
  · next htype => exact .procedure henabled htype (bodyOf_eq_sequenceAt e "STACK") rfl
  next haction =>
  split
  · next htype =>
    exact .procedure henabled htype (bodyOf_eq_sequenceAt e "STACK") (valueOf_eq_first? e "RETURN")
  · next hfunction =>
    refine .orphan henabled ?_ rfl rfl
    simp [hevent, hglobal, haction, hfunction]

/-- **A handler that is read has an event**, whatever it is read from. -/
theorem event_ne_empty_of_mem {h : Handler} (hh : h ∈ (programOf root).handlers) :
    h.event ≠ "" := by
  obtain ⟨top, htop, hh⟩ := mem_filterMap.1 hh
  obtain ⟨e, -, rfl⟩ := mem_map.1 htop
  have hgives := gives_topOf e
  generalize topOf e = top at hgives hh
  cases hgives with
  | handler _ _ hsupported hevent =>
    cases hh
    exact hevent ▸ hsupported.1
  | _ => cases hh

/-- **A procedure that is read and returns no value has no result.** -/
theorem result_eq_none_of_mem {p : Procedure} (hp : p ∈ (programOf root).procedures)
    (hreturns : p.returnsValue = false) : p.result = none := by
  obtain ⟨top, htop, hp⟩ := mem_filterMap.1 hp
  obtain ⟨e, -, rfl⟩ := mem_map.1 htop
  have hgives := gives_topOf e
  generalize topOf e = top at hgives hp
  cases hgives with
  | procedure _ _ _ hresult =>
    cases hp
    rw [hresult, hreturns]
    rfl
  | _ => cases hp

/-! ### Texts -/

/-- A root element is handed on if the text is within the limit and the root is named well. -/
theorem rootOf_of_read {text : String} (hread : Markup.read? text = some root) (limits : Limits) :
    rootOf text limits
      = if (text.utf8ByteSize : Int) > limits.maxSize then
          .error (.tooLarge text.utf8ByteSize limits.maxSize)
        else if root.tag = "xml" then .ok (some root) else .error (.wrongRoot root.tag) := by
  have hblank : (Text.stripChars text.toList).isEmpty = false := by
    rw [isEmpty_eq_false_iff]
    intro hnil
    rw [Markup.read?_blank (Text.isBlank_of_stripChars_eq_nil hnil)] at hread
    cases hread
  rw [rootOf, if_neg (by rw [hblank]; decide), hread]

/-- **A text with a root element is handed on if it is within the limit of octets.** -/
theorem rootOf_eq_ok_iff {text : String} (hread : Markup.read? text = some root)
    (hroot : root.tag = "xml") {limits : Limits} {found : Option Element} :
    rootOf text limits = .ok found
      ↔ (text.utf8ByteSize : Int) ≤ limits.maxSize ∧ found = some root := by
  rw [rootOf_of_read hread, if_pos hroot]
  by_cases hsize : (text.utf8ByteSize : Int) ≤ limits.maxSize
  · rw [if_neg (by omega)]
    simp [hsize, eq_comm]
  · rw [if_pos (by omega)]
    simp [hsize]

end Block
end ScreenForge
