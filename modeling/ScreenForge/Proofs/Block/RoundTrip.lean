/-
# Programs written as elements and read back

The declarations of a program, its handlers, globals and procedures, are written as blocks at the
top of a descriptor, in any order that keeps the order among those of a kind (`Declaration`,
`collect`). There a slot is written only if something is in it.
-/
import ScreenForge.Proofs.Block.Written

namespace ScreenForge
namespace Block

open List
open Journal (settle)
open Markup (Element)

variable {name : String} {children : List Element} {declarations : List Declaration}

/-! ### Declarations -/

/-- What stands at the top of a descriptor. -/
inductive Declaration where
  | handler (h : Handler)
  | global (g : Global)
  | procedure (p : Procedure)

namespace Declaration

/-- The handler that is declared. -/
def handler? : Declaration → Option Handler
  | .handler h => some h
  | _ => none

/-- The global variable that is declared. -/
def global? : Declaration → Option Global
  | .global g => some g
  | _ => none

/-- The procedure that is declared. -/
def procedure? : Declaration → Option Procedure
  | .procedure p => some p
  | _ => none

/-- The blocks in the slots of a declaration. -/
def blocks : Declaration → List Block
  | .handler h => h.body
  | .global g => g.value.toList
  | .procedure p => p.body ++ p.result.toList

/-- A handler has an event, and only a procedure that returns a value has a result. -/
def IsSound : Declaration → Prop
  | .handler h => h.event ≠ ""
  | .global _ => True
  | .procedure p => p.returnsValue = false → p.result = none

/-- A declaration as what it is read as. -/
def top : Declaration → Top
  | .handler h => .handler h
  | .global g => .global g
  | .procedure p => .procedure p

section Element

variable (uri : String)

/-- The slot of a declaration, if something is in it. -/
def slotElements (tag name : String) (inside : Option Element) : List Element :=
  (inside.map fun e => slotElement uri tag name (some e)).toList

/-- What stands in the element of a declaration. -/
def content : Declaration → Content
  | .handler h =>
    { type := eventType
      id := h.id
      fields := [("COMPONENT_SELECTOR", h.component)]
      mutation := [("component_type", h.componentType), ("is_generic", "false"),
        ("instance_name", h.component), ("event_name", h.event)]
      statements := slotElements uri "statement" "DO" (chainElement? uri h.body) }
  | .global g =>
    { type := globalType
      fields := [("NAME", g.name)]
      values := slotElements uri "value" "VALUE" (g.value.map (blockElement uri none)) }
  | .procedure p =>
    { type := if p.returnsValue then functionType else actionType
      fields := [("NAME", p.name)]
      args := p.params
      values := slotElements uri "value" "RETURN" (p.result.map (blockElement uri none))
      statements := slotElements uri "statement" "STACK" (chainElement? uri p.body) }

/-- The element of a declaration. -/
def element (d : Declaration) : Element := (d.content uri).element uri

end Element

end Declaration

/-- The program of declarations. -/
def collect (declarations : List Declaration) : Program where
  handlers := declarations.filterMap Declaration.handler?
  globals := declarations.filterMap Declaration.global?
  procedures := declarations.filterMap Declaration.procedure?

/-- The descriptor of declarations. -/
def descriptorOf (uri : String) (declarations : List Declaration) : Element :=
  drawn uri "xml" [] "" (declarations.map (Declaration.element uri))

/-- The blocks in the slots of a program's declarations. -/
def Program.blocks (p : Program) : List Block :=
  p.handlers.flatMap Handler.body ++ p.globals.filterMap Global.value
    ++ p.procedures.flatMap fun q => q.body ++ q.result.toList

/-- All blocks of a program, each with its depth. -/
def Program.levels (p : Program) : List (Int × Block) := p.blocks.flatMap (Block.levels 1)

/-! ### Programs of what stands at the top -/

namespace Top

/-- The handler that an element is. -/
def handler? : Top → Option Handler
  | .handler h => some h
  | _ => none

/-- The global variable that an element is. -/
def global? : Top → Option Global
  | .global g => some g
  | _ => none

/-- The procedure that an element is. -/
def procedure? : Top → Option Procedure
  | .procedure p => some p
  | _ => none

/-- The blocks in the slots of an element at the top. -/
def blocks : Top → List Block
  | .skipped _ => []
  | .handler h => h.body
  | .global g => g.value.toList
  | .procedure p => p.body ++ p.result.toList

end Top

theorem programOf_eq (root : Element) : programOf root
    = { handlers := ((topElements root).map topOf).filterMap Top.handler?
        globals := ((topElements root).map topOf).filterMap Top.global?
        procedures := ((topElements root).map topOf).filterMap Top.procedure? } := by
  rw [programOf, Program.mk.injEq]
  refine ⟨filterMap_congr fun t _ => ?_, filterMap_congr fun t _ => ?_,
    filterMap_congr fun t _ => ?_⟩ <;> cases t <;> rfl

/-- The blocks of declarations, kind by kind or in the order of the descriptor. -/
theorem blocks_perm (tops : List Top) :
    (Program.blocks
      { handlers := tops.filterMap Top.handler?
        globals := tops.filterMap Top.global?
        procedures := tops.filterMap Top.procedure? }).Perm (tops.flatMap Top.blocks) := by
  induction tops with
  | nil => exact .nil
  | cons top rest ih =>
    rw [flatMap_cons]
    refine List.Perm.trans ?_ (ih.append_left top.blocks)
    cases top with
    | skipped reason => exact .refl _
    | handler h =>
      simp only [Program.blocks, Top.handler?, Top.global?, Top.procedure?, Top.blocks,
        filterMap_cons, flatMap_cons, append_assoc]
      exact .refl _
    | global g =>
      have hvalues : ∀ gs : List Global, (g :: gs).filterMap Global.value
          = g.value.toList ++ gs.filterMap Global.value := by
        intro gs
        rw [filterMap_cons]
        cases g.value <;> rfl
      simp only [Program.blocks, Top.handler?, Top.global?, Top.procedure?, Top.blocks,
        filterMap_cons, hvalues]
      rw [← append_assoc g.value.toList, ← append_assoc g.value.toList]
      refine List.Perm.append_right _ ?_
      rw [← append_assoc]
      exact List.Perm.append_right _ perm_append_comm
    | procedure p =>
      simp only [Program.blocks, Top.handler?, Top.global?, Top.procedure?, Top.blocks,
        filterMap_cons, flatMap_cons]
      exact perm_append_comm_assoc _ _ _

section Top

variable {uri : String} {tag : String}

theorem tagged_slotElements (h : '\x7d' ∉ tag.toList) (name : String) (inside : Option Element) :
    Tagged tag (Declaration.slotElements uri tag name inside) := by
  rw [Declaration.slotElements, Option.toList_map]
  exact tagged_map (fun e => tag_drawn h _ _ _) _

theorem slot?_slotElements {inside : Option Element}
    (h : named tag children = Declaration.slotElements uri tag name inside) :
    slot? tag name children = inside.map fun e => slotElement uri tag name (some e) := by
  rw [slot?, h, Declaration.slotElements]
  cases inside with
  | none => rfl
  | some e => exact List.find?_cons_of_pos (beq_self_eq_true (some name))

/-- A slot that is left out is read like an empty one. -/
theorem elim_slotElement {γ : Type} {f : Element → γ} {empty : γ}
    (h : f (slotElement uri tag name none) = empty) (inside : Option Element) :
    (inside.map fun e => slotElement uri tag name (some e)).elim empty f
      = f (slotElement uri tag name inside) := by
  cases inside with
  | none => exact h.symm
  | some e => rfl

/-- A body is read back from its slot. -/
theorem body_slotElements {blocks : List Block} (h : named "statement" children
      = Declaration.slotElements uri "statement" name (chainElement? uri blocks))
    (hblocks : ∀ c ∈ blocks, ReadsBack uri c) : bodyOf children name = blocks ∧ ∀ limit,
      visitingBody limit children name = visitingLevels limit (blocks.flatMap (levels 1)) := by
  obtain ⟨hread, hvisited⟩ := sequence_slotElement hblocks rfl
  simp only [bodyOf_eq, visitingBody_eq, slot?_slotElements h]
  exact ⟨(elim_slotElement rfl _).trans hread,
    fun limit => (elim_slotElement rfl _).trans (hvisited limit 1)⟩

/-- A value is read back from its slot. -/
theorem value_slotElements {value : Option Block} (h : named "value" children
      = Declaration.slotElements uri "value" name (value.map (blockElement uri none)))
    (hvalue : ∀ c ∈ value, ReadsBack uri c) : valueOf children name = value ∧ ∀ limit,
      visitingValue limit children name = visitingLevels limit (value.toList.flatMap (levels 1)) := by
  obtain ⟨hread, hvisited⟩ := held_slotElement hvalue rfl
  simp only [valueOf_eq, visitingValue_eq, slot?_slotElements h]
  exact ⟨(elim_slotElement rfl _).trans hread,
    fun limit => (elim_slotElement rfl _).trans (hvisited limit 1)⟩

theorem tagged_nil (tag : String) : Tagged tag [] := fun _ he => nomatch he

theorem isTagged_content (d : Declaration) : (d.content uri).IsTagged := by
  cases d with
  | handler h => exact ⟨tagged_nil _, tagged_slotElements (by decide) _ _, tagged_nil _⟩
  | global g => exact ⟨tagged_slotElements (by decide) _ _, tagged_nil _, tagged_nil _⟩
  | procedure p =>
    exact ⟨tagged_slotElements (by decide) _ _, tagged_slotElements (by decide) _ _, tagged_nil _⟩

theorem fieldsOf_element (d : Declaration) :
    fieldsOf (d.element uri).children = (d.content uri).fields := by
  refine (isTagged_content d).fieldsOf ?_
  cases d <;> exact pairwise_singleton _ _

/-- The component of a handler is named twice; either place is enough. -/
theorem componentOf_content (h : Handler) :
    componentOf ((Declaration.handler h).content uri).mutation
      ((Declaration.handler h).content uri).fields = h.component := by
  have hfound : (((Declaration.handler h).content uri).mutation.lookup "instance_name").bind
      nonempty? = nonempty? h.component := rfl
  rw [componentOf, hfound, nonempty?]
  by_cases hempty : h.component = ""
  · rw [if_pos hempty]
    rfl
  · rw [if_neg hempty]

/-- A handler of an event is read back. -/
theorem eventOf_element {h : Handler} (hevent : h.event ≠ "")
    (hbody : ∀ b ∈ h.body, ReadsBack uri b) :
    eventOf ((Declaration.handler h).element uri) = .handler h := by
  have htagged : ((Declaration.handler h).content uri).IsTagged := isTagged_content _
  have hslot : bodyOf ((Declaration.handler h).element uri).children "DO" = h.body :=
    (body_slotElements htagged.named.2.2.2.1 hbody).1
  have hid : ((Declaration.handler h).element uri).get? "id" = h.id := Content.get?_id _
  have hmutation : mutationOf ((Declaration.handler h).element uri).children
      = ((Declaration.handler h).content uri).mutation := htagged.mutationOf
  have hgeneric : Text.lower "false" ≠ "true" := by decide
  rw [eventOf, fieldsOf_element, hmutation, hslot, hid, componentOf_content]
  exact (if_neg hgeneric).trans (if_neg hevent)

/-- A global variable is read back. -/
theorem globalOf_element {g : Global} (hvalue : ∀ b ∈ g.value, ReadsBack uri b) :
    globalOf ((Declaration.global g).element uri) = g := by
  have htagged : ((Declaration.global g).content uri).IsTagged := isTagged_content _
  have hslot : valueOf ((Declaration.global g).element uri).children "VALUE" = g.value :=
    (value_slotElements htagged.named.2.2.1 hvalue).1
  rw [globalOf, fieldsOf_element, hslot]
  rfl

/-- A procedure is read back if it has a result only where it returns one. -/
theorem procedureOf_element {p : Procedure} (hresult : p.returnsValue = false → p.result = none)
    (hbody : ∀ b ∈ p.body, ReadsBack uri b) (hvalue : ∀ b ∈ p.result, ReadsBack uri b) :
    procedureOf p.returnsValue ((Declaration.procedure p).element uri) = p := by
  have htagged : ((Declaration.procedure p).content uri).IsTagged := isTagged_content _
  have hslot : bodyOf ((Declaration.procedure p).element uri).children "STACK" = p.body :=
    (body_slotElements htagged.named.2.2.2.1 hbody).1
  have hreturn : valueOf ((Declaration.procedure p).element uri).children "RETURN" = p.result :=
    (value_slotElements htagged.named.2.2.1 hvalue).1
  have hargs : argsOf ((Declaration.procedure p).element uri).children = p.params := htagged.argsOf
  rw [procedureOf, fieldsOf_element, hslot, hreturn, hargs]
  obtain ⟨name, params, body, result, returnsValue⟩ := p
  cases returnsValue with
  | true => rfl
  | false =>
    obtain rfl : result = none := hresult rfl
    rfl

theorem topOf_of_type {e : Element} (h : isDisabled e.attributes = false) :
    (e.get "type" = eventType → topOf e = eventOf e)
      ∧ (e.get "type" = globalType → topOf e = .global (globalOf e))
      ∧ ∀ returnsValue, (e.get "type" = if returnsValue then functionType else actionType) →
        topOf e = .procedure (procedureOf returnsValue e) := by
  have hglobal : globalType ≠ eventType := by decide
  have haction : actionType ≠ eventType ∧ actionType ≠ globalType := by decide
  have hfunction : functionType ≠ eventType ∧ functionType ≠ globalType
      ∧ functionType ≠ actionType := by decide
  refine ⟨fun ht => ?_, fun ht => ?_, fun returnsValue ht => ?_⟩
  · simp only [topOf, h, ht, Bool.false_eq_true, if_false, if_true]
  · simp only [topOf, h, ht, hglobal, Bool.false_eq_true, if_false, if_true]
  · cases returnsValue with
    | false =>
      rw [if_neg Bool.false_ne_true] at ht
      simp only [topOf, h, ht, haction, Bool.false_eq_true, if_false, if_true]
    | true =>
      rw [if_pos rfl] at ht
      simp only [topOf, h, ht, hfunction, Bool.false_eq_true, if_false, if_true]

/-- **A sound declaration is read as what it declares.** -/
theorem topOf_element {d : Declaration} (hd : d.IsSound) (h : ∀ b ∈ d.blocks, ReadsBack uri b) :
    topOf (d.element uri) = d.top := by
  have htype : (d.element uri).get "type" = (d.content uri).type := rfl
  obtain ⟨hevent, hglobal, hprocedure⟩ := topOf_of_type (d.content uri).not_isDisabled
  cases d with
  | handler handler => exact (hevent htype).trans (eventOf_element hd h)
  | global g =>
    have hread := globalOf_element fun b hb => h b (Option.mem_toList.2 hb)
    exact (hglobal htype).trans (congrArg Top.global hread)
  | procedure p =>
    have hread := procedureOf_element hd (fun b hb => h b (mem_append_left _ hb)) fun b hb =>
      h b (mem_append_right _ (Option.mem_toList.2 hb))
    exact (hprocedure p.returnsValue htype).trans (congrArg Top.procedure hread)

/-- **Reading a sound declaration looks at each of its blocks and notes nothing.** -/
theorem visitingTop_element {d : Declaration} (hd : d.IsSound)
    (h : ∀ b ∈ d.blocks, ReadsBack uri b) (limit : Int) :
    visitingTop limit (d.element uri) = visitingLevels limit (d.blocks.flatMap (levels 1)) := by
  have htagged : (d.content uri).IsTagged := isTagged_content d
  obtain ⟨-, -, hvalues, hstatements, -⟩ := htagged.named
  rw [visitingTop, topOf_element hd h]
  cases d with
  | handler handler => exact (body_slotElements hstatements h).2 limit
  | global g =>
    exact (value_slotElements hvalues fun b hb => h b (Option.mem_toList.2 hb)).2 limit
  | procedure p =>
    have hbody : visitingBody limit ((Declaration.procedure p).element uri).children "STACK"
        = visitingLevels limit (p.body.flatMap (levels 1)) :=
      (body_slotElements hstatements fun b hb => h b (mem_append_left _ hb)).2 limit
    have hvalue : visitingValue limit ((Declaration.procedure p).element uri).children "RETURN"
        = visitingLevels limit (p.result.toList.flatMap (levels 1)) :=
      (value_slotElements hvalues fun b hb =>
        h b (mem_append_right _ (Option.mem_toList.2 hb))).2 limit
    show visitingBody limit _ "STACK"
        ++ (if p.returnsValue then visitingValue limit _ "RETURN" else [])
      = visitingLevels limit ((p.body ++ p.result.toList).flatMap (levels 1))
    rw [hbody, hvalue, flatMap_append, visitingLevels, visitingLevels, visitingLevels,
      flatMap_append]
    cases hreturns : p.returnsValue with
    | true => rfl
    | false =>
      rw [hd hreturns]
      rfl

/-! ### Programs -/

theorem mem_filterMap_iff {α β : Type} {part? : α → Option β} {whole : β → α}
    (h : ∀ a x, part? a = some x ↔ a = whole x) {l : List α} {x : β} :
    x ∈ l.filterMap part? ↔ whole x ∈ l := by
  rw [mem_filterMap]
  constructor
  · rintro ⟨a, ha, hx⟩
    exact (h a x).1 hx ▸ ha
  · exact fun hx => ⟨whole x, hx, (h _ x).2 rfl⟩

theorem mem_handlers_collect {h : Handler} :
    h ∈ (collect declarations).handlers ↔ .handler h ∈ declarations :=
  mem_filterMap_iff fun d h => by cases d <;> simp [Declaration.handler?]

theorem mem_procedures_collect {p : Procedure} :
    p ∈ (collect declarations).procedures ↔ .procedure p ∈ declarations :=
  mem_filterMap_iff fun d p => by cases d <;> simp [Declaration.procedure?]

theorem collect_eq (declarations : List Declaration) : collect declarations
    = { handlers := (declarations.map Declaration.top).filterMap Top.handler?
        globals := (declarations.map Declaration.top).filterMap Top.global?
        procedures := (declarations.map Declaration.top).filterMap Top.procedure? } := by
  simp only [collect, Program.mk.injEq, filterMap_map]
  refine ⟨filterMap_congr fun d _ => ?_, filterMap_congr fun d _ => ?_,
    filterMap_congr fun d _ => ?_⟩ <;> cases d <;> rfl

/-- The blocks of a program are those of its declarations. -/
theorem mem_blocks_collect {b : Block} :
    b ∈ (collect declarations).blocks ↔ ∃ d ∈ declarations, b ∈ d.blocks := by
  have hblocks : ∀ d : Declaration, d.top.blocks = d.blocks := fun d => by cases d <;> rfl
  rw [collect_eq, (blocks_perm _).mem_iff, flatMap_map, mem_flatMap]
  simp only [hblocks]

/-- What is sound in a program is sound among its declarations. -/
theorem isSound_of_collect (hevent : ∀ h ∈ (collect declarations).handlers, h.event ≠ "")
    (hresult : ∀ p ∈ (collect declarations).procedures, p.returnsValue = false → p.result = none) :
    ∀ d ∈ declarations, d.IsSound := by
  intro d hd
  cases d with
  | handler h => exact hevent h (mem_handlers_collect.2 hd)
  | global g => trivial
  | procedure p => exact hresult p (mem_procedures_collect.2 hd)

theorem topElements_descriptorOf (declarations : List Declaration) :
    topElements (descriptorOf uri declarations) = declarations.map (Declaration.element uri) :=
  (tagged_map (fun _ => tag_drawn (by decide) _ _ _) declarations).named_self

/-- **Sound declarations are read as the program they declare.** -/
theorem programOf_descriptorOf (hsound : ∀ d ∈ declarations, d.IsSound)
    (h : ∀ d ∈ declarations, ∀ b ∈ d.blocks, ReadsBack uri b) :
    programOf (descriptorOf uri declarations) = collect declarations := by
  have htops : (topElements (descriptorOf uri declarations)).map topOf
      = declarations.map Declaration.top := by
    rw [topElements_descriptorOf, map_map]
    refine map_congr_left fun d hd => ?_
    rw [Function.comp_apply, topOf_element (hsound d hd) (h d hd)]
  rw [programOf_eq, htops, collect_eq]

/-- **Reading sound declarations looks at each block of the program and notes nothing.** -/
theorem visitingRoot_descriptorOf (hsound : ∀ d ∈ declarations, d.IsSound)
    (h : ∀ d ∈ declarations, ∀ b ∈ d.blocks, ReadsBack uri b) (limit : Int) :
    visitingRoot limit (descriptorOf uri declarations)
      = visitingLevels limit ((declarations.flatMap Declaration.blocks).flatMap (levels 1)) := by
  rw [visitingRoot, topElements_descriptorOf, flatMap_map, flatMap_assoc, visitingLevels,
    flatMap_assoc]
  exact flatMap_congr fun d hd => visitingTop_element (hsound d hd) (h d hd) limit

end Top

/-! ### Texts -/

/-- A text is read as a program without a remark. -/
def ReadsAs (text : String) (limits : Limits) (p : Program) : Prop :=
  ∃ root, rootOf text limits = .ok (some root) ∧ programOf root = p
    ∧ settle .unlimited (visitingRoot limits.maxDepth root) = .ok []

/-- **A program is read back from the text of its elements exactly if the text is within the limit
of octets, its blocks are within the limit of depth, its handlers have events, and only its
procedures that return a value have results.**  The order of the declarations does not matter as
long as it keeps handlers, globals and procedures each in order, nor does the namespace. -/
theorem program_reads_back_iff {uri : String} {declarations : List Declaration} {p : Program}
    (hp : collect declarations = p) (hregular : ∀ l ∈ p.levels, IsRegular l.2) {text : String}
    (hread : Markup.read? text = some (descriptorOf uri declarations)) (limits : Limits) :
    ReadsAs text limits p ↔
      (text.utf8ByteSize : Int) ≤ limits.maxSize ∧ (∀ l ∈ p.levels, l.1 ≤ limits.maxDepth)
        ∧ (∀ h ∈ p.handlers, h.event ≠ "")
        ∧ ∀ q ∈ p.procedures, q.returnsValue = false → q.result = none := by
  subst hp
  have hback : ∀ d ∈ declarations, ∀ b ∈ d.blocks, ReadsBack uri b := fun d hd b hb =>
    readsBack_of_regular fun l hl =>
      hregular l (mem_flatMap.2 ⟨b, mem_blocks_collect.2 ⟨d, hd, hb⟩, hl⟩)
  have hroot : (descriptorOf uri declarations).tag = "xml" := tag_drawn (by decide) _ _ _
  -- what is sound is read, so both directions come down to the depths of the blocks
  have hdepth : (∀ d ∈ declarations, d.IsSound) →
      (settle .unlimited (visitingRoot limits.maxDepth (descriptorOf uri declarations)) = .ok []
        ↔ ∀ l ∈ (collect declarations).levels, l.1 ≤ limits.maxDepth) := by
    intro hsound
    rw [visitingRoot_descriptorOf hsound hback, settle_visitingLevels]
    simp only [Program.levels, mem_flatMap, mem_blocks_collect]
  constructor
  · rintro ⟨root, hfound, hprogram, hjournal⟩
    obtain ⟨hsize, hsome⟩ := (rootOf_eq_ok_iff hread hroot).1 hfound
    obtain rfl := Option.some.inj hsome
    have hevent : ∀ h ∈ (collect declarations).handlers, h.event ≠ "" := fun h hh =>
      event_ne_empty_of_mem (hprogram.symm ▸ hh)
    have hresult : ∀ q ∈ (collect declarations).procedures, q.returnsValue = false →
        q.result = none := fun q hq => result_eq_none_of_mem (hprogram.symm ▸ hq)
    exact ⟨hsize, (hdepth (isSound_of_collect hevent hresult)).1 hjournal, hevent, hresult⟩
  · rintro ⟨hsize, hlevels, hevent, hresult⟩
    have hsound := isSound_of_collect hevent hresult
    exact ⟨_, (rootOf_eq_ok_iff hread hroot).2 ⟨hsize, rfl⟩, programOf_descriptorOf hsound hback,
      (hdepth hsound).2 hlevels⟩

/-- Declarations of each kind; the handler holds a sequence with a block inside a block. -/
def clickDeclarations : List Declaration := [
  .global { name := "n" },
  .procedure
    { name := "f"
      params := ["x"]
      result := some { kind := .text, type := "text", fields := [("TEXT", "hi")] }
      returnsValue := true },
  .handler
    { component := "B"
      componentType := "Button"
      event := "Click"
      id := some "e"
      body := [
        { kind := .branch
          type := "controls_if"
          values := [("IF0", none)]
          statements := [("DO0", [{ kind := .leave, type := "controls_break" }])] },
        { kind := .propertySet
          type := "component_set_get"
          mutation := [("set_or_get", "set")] }] }]

/-- The text of the declarations, cut into short pieces. -/
def clickPieces : List String := [
  "<xml>", "<block type=\"global_declaration\">", "<field name=\"NAME\">n</field>", "</block>",
  "<block type=\"procedures_defreturn\">", "<mutation><arg name=\"x\"/></mutation>",
  "<field name=\"NAME\">f</field>", "<value name=\"RETURN\">", "<block type=\"text\">",
  "<field name=\"TEXT\">hi</field>", "</block></value></block>",
  "<block type=\"component_event\" id=\"e\">", "<mutation component_type=\"Button\"",
  " is_generic=\"false\"", " instance_name=\"B\" event_name=\"Click\"/>",
  "<field name=\"COMPONENT_SELECTOR\">B</field>", "<statement name=\"DO\">",
  "<block type=\"controls_if\">", "<value name=\"IF0\"/><statement name=\"DO0\">",
  "<block type=\"controls_break\"/></statement>", "<next><block type=\"component_set_get\">",
  "<mutation set_or_get=\"set\"/></block></next>", "</block></statement></block>", "</xml>"]

/-- The text of the declarations. -/
def clickText : String := String.ofList (clickPieces.flatMap String.toList)

theorem read?_clickText : Markup.read? clickText = some (descriptorOf "" clickDeclarations) := by
  have hchars : clickText.toList = clickPieces.flatMap String.toList := String.toList_ofList
  unfold Markup.read?
  rw [hchars]
  decide +kernel

/-- **The declarations are read back within limits that leave no room**: all octets of the text, and
two levels of blocks. -/
theorem click_reads_back :
    (∀ l ∈ (collect clickDeclarations).levels, IsRegular l.2)
      ∧ Markup.read? clickText = some (descriptorOf "" clickDeclarations)
      ∧ ReadsAs clickText { maxSize := clickText.utf8ByteSize, maxDepth := 2 }
        (collect clickDeclarations) := by
  have hall : (collect clickDeclarations).levels.all (fun l => decide (IsRegular l.2)) := by
    decide +kernel
  have hregular : ∀ l ∈ (collect clickDeclarations).levels, IsRegular l.2 := fun l hl =>
    of_decide_eq_true (all_eq_true.1 hall l hl)
  have hdepths : (collect clickDeclarations).levels.all (fun l => decide (l.1 ≤ 2)) := by
    decide +kernel
  refine ⟨hregular, read?_clickText, ?_⟩
  refine (program_reads_back_iff rfl hregular read?_clickText _).2 ⟨Int.le_refl _, ?_, ?_, ?_⟩
  · exact fun l hl => of_decide_eq_true (all_eq_true.1 hdepths l hl)
  · intro h hh
    obtain rfl := mem_singleton.1 hh
    decide
  · intro q hq
    obtain rfl := mem_singleton.1 hq
    exact fun hreturns => nomatch hreturns

/-- A procedure that has a result but returns no value. -/
def idleResult : Procedure where
  name := "f"
  result := some { kind := .text, type := "text", fields := [("TEXT", "hi")] }

/-- The text of the procedure, cut into short pieces. -/
def idlePieces : List String := [
  "<xml>", "<block type=\"procedures_defnoreturn\">", "<field name=\"NAME\">f</field>",
  "<value name=\"RETURN\">", "<block type=\"text\">", "<field name=\"TEXT\">hi</field>",
  "</block></value></block>", "</xml>"]

/-- The text of the procedure. -/
def idleText : String := String.ofList (idlePieces.flatMap String.toList)

theorem read?_idleText :
    Markup.read? idleText = some (descriptorOf "" [.procedure idleResult]) := by
  have hchars : idleText.toList = idlePieces.flatMap String.toList := String.toList_ofList
  unfold Markup.read?
  rw [hchars]
  decide +kernel

/-- **A result is not read back if its procedure returns no value**, regular as its one block is,
and whatever the limits are. -/
theorem idle_result_not_read_back :
    (∀ l ∈ (collect [.procedure idleResult]).levels, IsRegular l.2 ∧ l.1 ≤ 1)
      ∧ (collect [.procedure idleResult]).handlers = []
      ∧ Markup.read? idleText = some (descriptorOf "" [.procedure idleResult])
      ∧ ∀ limits, ¬ ReadsAs idleText limits (collect [.procedure idleResult]) := by
  have hall : (collect [.procedure idleResult]).levels.all
      (fun l => decide (IsRegular l.2 ∧ l.1 ≤ 1)) := by decide +kernel
  refine ⟨fun l hl => of_decide_eq_true (all_eq_true.1 hall l hl), rfl, read?_idleText, ?_⟩
  rintro limits ⟨root, -, hprogram, -⟩
  have hmem : idleResult ∈ (programOf root).procedures := hprogram.symm ▸ mem_singleton_self _
  exact Option.some_ne_none _ (result_eq_none_of_mem hmem rfl)

end Block
end ScreenForge
