/-
# Programs from block descriptors

A block descriptor is markup.  The blocks at its top are handlers of events, global variables and
procedures; others stand alone and are noted.  A `value` or `statement` element inside a block is a
slot, and the first block in it counts, or the first shadow if there is no block.  A sequence goes
on through `next` elements.  Disabled blocks are left out of sequences, and what follows them stays.

`blockOf` and `chainOf` give the blocks, `visiting` and `visitingChain` the journal of reading them
under a limit on their depth.
-/
import ScreenForge.Block.Basic
import ScreenForge.Journal
import ScreenForge.Markup.Reader

namespace ScreenForge
namespace Block

open Journal (Entry)
open Markup (Element localName)

/-- The elements of a local name, in order. -/
def named (tag : String) (elements : List Element) : List Element :=
  elements.filter fun e => e.tag == tag

/-- Whether a block is disabled. -/
def isDisabled (attributes : List (String × String)) : Bool :=
  Text.lower ((attributes.lookup "disabled").getD "") == "true"

/-- The fields of a block. -/
def fieldsOf (children : List Element) : List (String × String) :=
  Assoc.ofList ((named "field" children).map fun f => (f.get "name", f.text))

/-- The mutation element of a block. -/
def mutationOf? (children : List Element) : Option Element := (named "mutation" children).head?

/-- The mutation of a block. -/
def mutationOf (children : List Element) : List (String × String) :=
  ((mutationOf? children).map Element.attributes).getD []

/-- The arguments that a mutation names. -/
def argsOf (children : List Element) : List String :=
  match mutationOf? children with
  | some m => m.children.filterMap fun c => c.get? "name"
  | none => []

/-- The tag that counts in a slot: blocks before shadows. -/
def slotTag (children : List Element) : String :=
  if children.any fun e => e.tag == "block" then "block" else "shadow"

/-- A block from its attributes, the elements inside it, and its slots as they are written. -/
def assemble (attributes : List (String × String)) (children : List Element)
    (values : List (String × Option Block)) (statements : List (String × List Block)) : Block :=
  let type := (attributes.lookup "type").getD ""
  let mutation := mutationOf children
  { kind := kindOf type mutation
    type
    id := attributes.lookup "id"
    fields := fieldsOf children
    mutation
    args := argsOf children
    values := Assoc.ofList values
    statements := Assoc.ofList statements }

mutual

/-- The block of an element. -/
def blockOf (e : Element) : Block :=
  match e with
  | ⟨_, attributes, _, children⟩ =>
    assemble attributes children (valuesIn children) (statementsIn children)

/-- The value slots among elements. -/
def valuesIn : List Element → List (String × Option Block)
  | [] => []
  | ⟨name, attributes, _, children⟩ :: rest =>
    if localName name = "value" then
      ((attributes.lookup "name").getD "", firstIn (slotTag children) children) :: valuesIn rest
    else valuesIn rest

/-- The first block of a tag among elements. -/
def firstIn (tag : String) : List Element → Option Block
  | [] => none
  | ⟨name, attributes, text, children⟩ :: rest =>
    if localName name = tag then some (blockOf ⟨name, attributes, text, children⟩)
    else firstIn tag rest

/-- The statement slots among elements. -/
def statementsIn : List Element → List (String × List Block)
  | [] => []
  | ⟨name, attributes, _, children⟩ :: rest =>
    if localName name = "statement" then
      ((attributes.lookup "name").getD "", chainIn (slotTag children) children)
        :: statementsIn rest
    else statementsIn rest

/-- The sequence that starts with the first block of a tag among elements. -/
def chainIn (tag : String) : List Element → List Block
  | [] => []
  | ⟨name, attributes, text, children⟩ :: rest =>
    if localName name = tag then chainOf ⟨name, attributes, text, children⟩ else chainIn tag rest

/-- The sequence that starts with an element. -/
def chainOf (e : Element) : List Block :=
  match e with
  | ⟨_, attributes, _, children⟩ =>
    if isDisabled attributes then nextIn children
    else assemble attributes children (valuesIn children) (statementsIn children)
      :: nextIn children

/-- The rest of a sequence: what the first `next` element holds. -/
def nextIn : List Element → List Block
  | [] => []
  | ⟨name, _, _, children⟩ :: rest =>
    if localName name = "next" then chainIn (slotTag children) children else nextIn rest

end

/-- The note of a disabled block. -/
def disabledNote (message type : String) : Entry :=
  .note (.warning .disabledBlock message (some type))

/-- The journal of reading a block at a depth, before its slots. -/
def visitingHere (limit depth : Int) : List Entry :=
  .look .blockParsing
    :: if depth > limit then [.stop (.malformedBlocks (.tooDeep limit))] else []

mutual

/-- The journal of reading the block of an element at a depth. -/
def visiting (limit depth : Int) (e : Element) : List Entry :=
  match e with
  | ⟨_, _, _, children⟩ => visitingHere limit depth ++ visitingSlots limit (depth + 1) children

/-- The journal of reading the slots among elements. -/
def visitingSlots (limit depth : Int) : List Element → List Entry
  | [] => []
  | ⟨name, _, _, children⟩ :: rest =>
    (if localName name = "value" then visitingFirst limit depth (slotTag children) children
      else if localName name = "statement" then
        visitingChainIn limit depth (slotTag children) children
      else [])
    ++ visitingSlots limit depth rest

/-- The journal of reading the first block of a tag among elements. -/
def visitingFirst (limit depth : Int) (tag : String) : List Element → List Entry
  | [] => []
  | ⟨name, attributes, text, children⟩ :: rest =>
    if localName name = tag then visiting limit depth ⟨name, attributes, text, children⟩
    else visitingFirst limit depth tag rest

/-- The journal of reading the sequence that starts with the first block of a tag. -/
def visitingChainIn (limit depth : Int) (tag : String) : List Element → List Entry
  | [] => []
  | ⟨name, attributes, text, children⟩ :: rest =>
    if localName name = tag then visitingChain limit depth ⟨name, attributes, text, children⟩
    else visitingChainIn limit depth tag rest

/-- The journal of reading the sequence that starts with an element. -/
def visitingChain (limit depth : Int) (e : Element) : List Entry :=
  match e with
  | ⟨_, attributes, _, children⟩ =>
    (if isDisabled attributes then
      [disabledNote "Disabled block skipped" ((attributes.lookup "type").getD "")]
    else visitingHere limit depth ++ visitingSlots limit (depth + 1) children)
    ++ visitingNext limit depth children

/-- The journal of reading the rest of a sequence. -/
def visitingNext (limit depth : Int) : List Element → List Entry
  | [] => []
  | ⟨name, _, _, children⟩ :: rest =>
    if localName name = "next" then visitingChainIn limit depth (slotTag children) children
    else visitingNext limit depth rest

end

/-- The first slot of a kind with a name. -/
def slot? (tag name : String) (children : List Element) : Option Element :=
  (named tag children).find? fun s => s.get? "name" == some name

/-- The sequence in a statement slot of a block at the top. -/
def bodyOf (children : List Element) (slot : String) : List Block :=
  match slot? "statement" slot children with
  | some s => chainIn (slotTag s.children) s.children
  | none => []

/-- The block in a value slot of a block at the top. -/
def valueOf (children : List Element) (slot : String) : Option Block :=
  match slot? "value" slot children with
  | some s => firstIn (slotTag s.children) s.children
  | none => none

/-- The journal of reading a statement slot of a block at the top. -/
def visitingBody (limit : Int) (children : List Element) (slot : String) : List Entry :=
  match slot? "statement" slot children with
  | some s => visitingChainIn limit 1 (slotTag s.children) s.children
  | none => []

/-- The journal of reading a value slot of a block at the top. -/
def visitingValue (limit : Int) (children : List Element) (slot : String) : List Entry :=
  match slot? "value" slot children with
  | some s => visitingFirst limit 1 (slotTag s.children) s.children
  | none => []

/-- What a block at the top is. -/
inductive Top where
  | handler (h : Handler)
  | global (g : Global)
  | procedure (p : Procedure)
  /-- It is left out, for a reason. -/
  | skipped (reason : Diagnostic)

/-- A text, unless it is empty. -/
def nonempty? (s : String) : Option String := if s = "" then none else some s

/-- The component that a block refers to. -/
def componentOf (mutation fields : List (String × String)) : String :=
  match (mutation.lookup "instance_name").bind nonempty? with
  | some name => name
  | none => (fields.lookup "COMPONENT_SELECTOR").getD ""

/-- The type of blocks that handle events. -/
def eventType : String := "component_event"

/-- The type of blocks that declare global variables. -/
def globalType : String := "global_declaration"

/-- The type of blocks that define procedures without a value. -/
def actionType : String := "procedures_defnoreturn"

/-- The type of blocks that define procedures with a value. -/
def functionType : String := "procedures_defreturn"

/-- The handler of an event block; one for all components of a type, or for no event, is none. -/
def eventOf (e : Element) : Top :=
  let mutation := mutationOf e.children
  let component := componentOf mutation (fieldsOf e.children)
  let componentType := (mutation.lookup "component_type").getD ""
  let event := (mutation.lookup "event_name").getD ""
  if Text.lower ((mutation.lookup "is_generic").getD "false") = "true" then
    .skipped (.warning .unsupportedEvent
      s!"Generic 'any {componentType}' event handlers are not supported" (nonempty? event))
  else if event = "" then
    .skipped (.warning .unsupportedEvent "Event block without an event name ignored"
      (nonempty? component))
  else
    .handler ⟨component, componentType, event, e.get? "id", bodyOf e.children "DO"⟩

/-- The global variable of a declaration. -/
def globalOf (e : Element) : Global :=
  ⟨((fieldsOf e.children).lookup "NAME").getD "", valueOf e.children "VALUE"⟩

/-- The procedure of a definition. -/
def procedureOf (returnsValue : Bool) (e : Element) : Procedure where
  name := ((fieldsOf e.children).lookup "NAME").getD ""
  params := argsOf e.children
  body := bodyOf e.children "STACK"
  result := if returnsValue then valueOf e.children "RETURN" else none
  returnsValue

/-- What an element at the top is. -/
def topOf (e : Element) : Top :=
  let type := e.get "type"
  if isDisabled e.attributes then
    .skipped (.warning .disabledBlock "Disabled top-level block skipped" (some type))
  else if type = eventType then eventOf e
  else if type = globalType then .global (globalOf e)
  else if type = actionType then .procedure (procedureOf false e)
  else if type = functionType then .procedure (procedureOf true e)
  else
    .skipped (.warning .orphanBlock "Top-level block outside any event handler ignored" (some type))

/-- The journal of reading an element at the top. -/
def visitingTop (limit : Int) (e : Element) : List Entry :=
  match topOf e with
  | .skipped reason => [.note reason]
  | .handler _ => visitingBody limit e.children "DO"
  | .global _ => visitingValue limit e.children "VALUE"
  | .procedure p =>
    visitingBody limit e.children "STACK"
      ++ if p.returnsValue then visitingValue limit e.children "RETURN" else []

/-- The blocks at the top of a descriptor. -/
def topElements (root : Element) : List Element := named "block" root.children

/-- The program of a descriptor's root. -/
def programOf (root : Element) : Program :=
  let tops := (topElements root).map topOf
  { handlers := tops.filterMap fun t => match t with
      | .handler h => some h
      | _ => none
    globals := tops.filterMap fun t => match t with
      | .global g => some g
      | _ => none
    procedures := tops.filterMap fun t => match t with
      | .procedure p => some p
      | _ => none }

/-- The journal of reading a descriptor's root. -/
def visitingRoot (limit : Int) (root : Element) : List Entry :=
  (topElements root).flatMap (visitingTop limit)

/-- The root of a block descriptor; `none` for a screen without blocks. -/
def rootOf (text : String) (limits : Limits) : Except Error (Option Element) :=
  if (Text.stripChars text.toList).isEmpty then .ok none
  else if (text.utf8ByteSize : Int) > limits.maxSize then
    .error (.tooLarge text.utf8ByteSize limits.maxSize)
  else
    match Markup.read? text with
    | none => .error (.notWellFormed "syntax error")
    | some root => if root.tag = "xml" then .ok (some root) else .error (.wrongRoot root.tag)

end Block
end ScreenForge
