/-
# Every defect is reported and leaves a placeholder

What is wrong with a block or a handler is told by a `Defect`.  It is reported under a code of its
kind, and in its place stands `error("…")` with a reason, a comment, or the name of a member as it
was given.

Two blocks are not survived: a sum or a product of a negative number of operands, and a method call
with an argument slot whose number is beyond reading (`Block.fault?`).
-/
import ScreenForge.Proofs.Scope.Variable

namespace ScreenForge

open List
open Code (exprOf fieldOr firstGiven stmtOf)
open Journal (Entry notes settle stops)
open Kotlin (Env Scope Target exprText stmtLines)
open Text (Shows Within)

/-! ### Defects -/

/-- What can be wrong with a declaration or a block. -/
inductive Defect where
  /-- A value slot of an owner holds nothing. -/
  | gap (slot owner : String)
  /-- A block of a type holds a number that cannot be read. -/
  | number (entered type : String)
  /-- A block of a type has an operator that nobody knows. -/
  | operator (what type op : String)
  /-- The layout lacks a component. -/
  | component (name : String)
  /-- The layout lacks a component whose property is set. -/
  | assignedComponent (name property : String)
  /-- A property of a component has no accessor. -/
  | accessor (ref : Layout.Ref) (property : String)
  /-- A method of a component has no mapping. -/
  | method (ref : Layout.Ref) (called : String)
  /-- A variable stands for nothing. -/
  | variable (name : String)
  /-- A variable that is set stands for nothing. -/
  | assignedVariable (name : String)
  /-- A procedure is not declared. -/
  | procedure (name : String)
  /-- A value is of a type outside the vocabulary. -/
  | unsupportedValue (type : String)
  /-- An action is of a type outside the vocabulary. -/
  | unsupportedAction (type : String) (fields : List (String × String))
  /-- A statement stands in place of a value. -/
  | misplaced (type : String)
  /-- The layout lacks the component of a handler. -/
  | handler (name happened : String)
  /-- A handler is for an event that its component does not have. -/
  | event (type name happened : String)

namespace Defect

/-- What is reported of a defect. -/
def report : Defect → Diagnostic
  | .gap slot owner => .error .missingValue s!"Empty value slot {slot} in {owner}" (some owner)
  | .number entered type =>
    .warning .missingValue s!"Invalid number literal '{entered}'" (some type)
  | .component name | .assignedComponent name _ | .handler name _ =>
    .error .unresolvedReference s!"Unresolved component reference '{name}'" (some name)
  | .accessor ref property =>
    .warning .unmappedMember
      s!"No Kotlin accessor for {ref.type}.{property}; using '{Kotlin.accessor ref property}'"
      (some (ref.name ++ "." ++ property))
  | .method ref called =>
    .warning .unmappedMember
      s!"No Kotlin mapping for method {ref.type}.{called}; using '{Kotlin.methodName ref called}'"
      (some (ref.name ++ "." ++ called))
  | .variable name | .assignedVariable name =>
    .error .unresolvedReference s!"Unresolved variable reference '{name}'" (some name)
  | .procedure name =>
    .error .unresolvedReference s!"Unresolved procedure reference '{name}'" (some name)
  | .operator _ type _ | .unsupportedValue type | .unsupportedAction type _ =>
    .warning .opaqueBlock s!"Unsupported block type '{type}'; replaced by a placeholder" (some type)
  | .misplaced type =>
    .error .opaqueBlock s!"Statement block {type} used as a value" (some type)
  | .event type name happened =>
    .warning .unsupportedEvent s!"No listener mapping for {type}.{happened}"
      (some (name ++ "." ++ happened))

/-- What stands in the source for a defect. -/
def placeholder : Defect → String
  | .gap slot _ => Kotlin.errorCall ("missing value: " ++ slot)
  | .number _ _ => Kotlin.errorCall "invalid number"
  | .operator what _ op => Kotlin.errorCall ("unsupported " ++ what ++ ": " ++ op)
  | .component name => Kotlin.unresolvedCall "component" name
  | .assignedComponent name property =>
    "// unresolved component: " ++ name ++ "." ++ property ++ " = "
  | .accessor ref property => "." ++ Kotlin.accessor ref property
  | .method ref called => "." ++ Kotlin.methodName ref called ++ "("
  | .variable name => Kotlin.unresolvedCall "variable" name
  | .assignedVariable name => "// unresolved variable '" ++ name ++ "' = "
  | .procedure name => Kotlin.unresolvedCall "procedure" name
  | .unsupportedValue type =>
    "error(" ++ Kotlin.stringLiteral ("unsupported block: " ++ type) ++ ")"
  | .unsupportedAction type fields =>
    "// unsupported block: " ++ Kotlin.unsupportedLabel type fields
  | .misplaced type => Kotlin.errorCall ("statement used as value: " ++ type)
  | .handler name happened =>
    "// " ++ ("unresolved component '" ++ name ++ "': " ++ (name ++ "." ++ happened) ++ " not bound")
  | .event _ name happened => "// " ++ ("unsupported event " ++ (name ++ "." ++ happened))

end Defect

namespace Block

/-- The component that a block is about. -/
def componentName (b : Block) : String := componentOf b.mutation b.fields

/-- The property that a block is about. -/
def propertyName (b : Block) : String :=
  firstGiven (b.mutation.lookup "property_name") (fieldOr b.fields "PROP" "")

/-- The method that a block calls. -/
def methodName (b : Block) : String := (b.mutation.lookup "method_name").getD ""

/-- The procedure that a block calls. -/
def procedureName (b : Block) : String :=
  firstGiven (b.fields.lookup "PROCNAME") ((b.mutation.lookup "name").getD "")

/-- **What is not survived**: a sum or a product of a negative number of operands, and a call with
an argument slot whose number is beyond reading. -/
def fault? (b : Block) : Option Fault :=
  match b.kind with
  | .arithmetic =>
    if (b.type = "math_add" ∨ b.type = "math_multiply") ∧ Code.itemCount b.mutation < 0
    then some .missingOperands else none
  | .methodCall =>
    if ∃ slot ∈ b.values, Code.argSlot? slot.1 = some .long then some .longSlotNumber else none
  | _ => none

end Block

namespace Site

variable {t : Target} {name : String} {p : Block.Program} {s : Site} {d : Defect} {scope : Scope}
  {b : Block}

/-- What is wrong with a member of a component, or with the component. -/
def memberDefect? (t : Target) (name : String) (absent : Defect)
    (member : Layout.Ref → Option Defect) : Option Defect :=
  match t.components.lookup name with
  | none => some absent
  | some ref => member ref

/-- A property without an accessor. -/
def accessorDefect? (property : String) (ref : Layout.Ref) : Option Defect :=
  if (ref.rule.accessors.lookup property).isSome then none else some (.accessor ref property)

/-- A method without a mapping. -/
def methodDefect? (called : String) (ref : Layout.Ref) : Option Defect :=
  if (ref.rule.methods.lookup called).isSome then none else some (.method ref called)

/-- What is wrong with a block that is asked for a value, its slots apart. -/
def valueDefect? (t : Target) (p : Block.Program) (s : Site) : Option Defect :=
  match s.block.kind with
  | .number =>
    if (Kotlin.numberLiteral? (fieldOr s.block.fields "NUM" "")).isSome then none
    else some (.number (fieldOr s.block.fields "NUM" "") s.block.type)
  | .compare =>
    if (Code.comparison? (fieldOr s.block.fields "OP" "EQ")).isSome then none
    else some (.operator "comparison" s.block.type (fieldOr s.block.fields "OP" "EQ"))
  | .logic =>
    if (Code.connective? (fieldOr s.block.fields "OP" "AND")).isSome then none
    else some (.operator "logic operator" s.block.type (fieldOr s.block.fields "OP" "AND"))
  | .propertyGet =>
    memberDefect? t s.block.componentName (.component s.block.componentName)
      (accessorDefect? s.block.propertyName)
  | .methodCall =>
    memberDefect? t s.block.componentName (.component s.block.componentName)
      (methodDefect? s.block.methodName)
  | .componentRef =>
    memberDefect? t s.block.componentName (.component s.block.componentName) fun _ => none
  | .variableGet =>
    if s.Bound t p (variableName s.block) then none else some (.variable (variableName s.block))
  | .procedureCall =>
    if ∃ q ∈ p.procedures, q.name = s.block.procedureName then none
    else some (.procedure s.block.procedureName)
  | .unknown => some (.unsupportedValue s.block.type)
  | .branch | .loop | .forRange | .forEach | .leave | .propertySet | .variableSet
  | .localDeclaration => some (.misplaced s.block.type)
  | .text | .boolean | .arithmetic | .negate | .not | .choose | .textJoin | .listCreate => none

/-- What is wrong with a block in its role, its slots apart. -/
def defect? (t : Target) (p : Block.Program) (s : Site) : Option Defect :=
  match s.role with
  | .value => s.valueDefect? t p
  | .act =>
    match s.block.kind with
    | .branch | .loop | .forRange | .forEach | .leave | .localDeclaration => none
    | .propertySet =>
      memberDefect? t s.block.componentName
        (.assignedComponent s.block.componentName s.block.propertyName)
        (accessorDefect? s.block.propertyName)
    | .variableSet =>
      if s.Bound t p (variableName s.block) then none
      else some (.assignedVariable (variableName s.block))
    | .unknown => some (.unsupportedAction s.block.type s.block.fields)
    | _ => s.valueDefect? t p

/-- What is wrong with a part of a block: a value slot may hold nothing. -/
def gapsIn (b : Block) : Block.Part → List Defect
  | .slot name => if (b.value? name).isNone then [.gap name b.type] else []
  | .body _ => []

/-- The value slots of a site's block that hold nothing. -/
def gaps (s : Site) : List Defect := (s.block.partsIn s.role).flatMap (gapsIn s.block)

/-- **The defects of a site.** -/
def defects (t : Target) (p : Block.Program) (s : Site) : List Defect :=
  s.gaps ++ (s.defect? t p).toList

/-- **The defects of a declaration**: a handler that cannot be bound, and a procedure without the
value that it should return. -/
def Root.defects (t : Target) : Root → List Defect
  | .initial _ => []
  | .handler h =>
    match t.components.lookup h.component with
    | none => [.handler h.component h.event]
    | some ref =>
      if (t.eventOf (.ofBlock h)).isSome then [] else [.event ref.type h.component h.event]
  | .procedure q => if q.returnsValue && q.result.isNone then [.gap "RETURN" q.name] else []

/-- **The defects of a program.** -/
def programDefects (t : Target) (p : Block.Program) : List Defect :=
  ((roots p).flatMap (Root.defects t)) ++ p.sites.flatMap fun s => s.defects t p

/-! ### What stops -/

theorem argSlots?_eq_none_iff {names : List String} :
    Code.argSlots? names = none ↔ ∃ name ∈ names, Code.argSlot? name = some .long := by
  rw [Code.argSlots?, Option.map_eq_none_iff]
  induction names with
  | nil => simp
  | cons name rest ih =>
    cases h : Code.argSlot? name with
    | none => simp [h, ih]
    | some slot =>
      cases slot with
      | long => simp [h]
      | numbered n => simpa [h, ← ih] using Option.eq_none_iff_forall_ne_some.symm

theorem fault?_methodCall (hkind : b.kind = .methodCall) :
    b.fault? = if Code.argSlots? (b.values.map Prod.fst) = none then some .longSlotNumber
      else none := by
  have hlong : (∃ slot ∈ b.values, Code.argSlot? slot.1 = some .long)
      ↔ Code.argSlots? (b.values.map Prod.fst) = none := by
    rw [argSlots?_eq_none_iff]
    simp
  simp only [Block.fault?, hkind, hlong]

/-- A method call without a fault is one. -/
theorem exprOf_methodCall (hkind : b.kind = .methodCall) (h : b.fault? = none) :
    ∃ given, exprOf b = .method b.componentName b.methodName given := by
  rw [fault?_methodCall hkind] at h
  cases hslots : Code.argSlots? (b.values.map Prod.fst) with
  | none =>
    rw [if_pos hslots] at h
    cases h
  | some slots =>
    obtain ⟨kind⟩ := b
    obtain rfl : kind = .methodCall := hkind
    simp only at hslots
    simp only [exprOf, hslots]
    exact ⟨_, rfl⟩

/-! ### What is reported -/

/-- The entries of a block: that it stops at a fault, or else what is wrong with it. -/
def entriesOf (fault : Option Fault) (defect : Option Defect) : List Entry :=
  match fault with
  | some cause => [.stop cause]
  | none => defect.toList.map fun d => .note d.report

/-- A component notes that it is absent, or the defect of its member. -/
theorem componentNotes_eq {env : Env} (henv : env.components = t.components)
    {f : Layout.Ref → List Entry} {absent : Defect} {member : Layout.Ref → Option Defect}
    (habsent : absent.report
      = .error .unresolvedReference s!"Unresolved component reference '{name}'" (some name))
    (h : ∀ ref, f ref = entriesOf none (member ref)) :
    Code.componentNotes env name f = entriesOf none (memberDefect? t name absent member) := by
  rw [Code.componentNotes, memberDefect?, henv]
  cases t.components.lookup name with
  | some ref => exact h ref
  | none => exact congrArg (fun d => [Entry.note d]) habsent.symm

theorem accessorNotes_eq (property : String) (ref : Layout.Ref) :
    Code.accessorNotes ref property = entriesOf none (accessorDefect? property ref) := by
  unfold Code.accessorNotes accessorDefect?
  split <;> rfl

theorem methodNotes_eq (called : String) (ref : Layout.Ref) :
    Code.methodNotes ref called = entriesOf none (methodDefect? called ref) := by
  unfold Code.methodNotes methodDefect?
  split <;> rfl

theorem variableNotes_eq (hd : d.report
      = .error .unresolvedReference s!"Unresolved variable reference '{name}'" (some name)) :
    Code.variableNotes (t.naming (.ofBlocks p)) (s.scope t) name
      = entriesOf none (if s.Bound t p name then none else some d) := by
  rw [Code.variableNotes, binding?_eq]
  by_cases h : s.Bound t p name
  · rw [if_pos h, if_pos h]
    rfl
  · rw [if_neg h, if_neg h]
    exact congrArg (fun d => [Entry.note d]) hd.symm

/-- A procedure can be called if it is declared. -/
theorem isSome_procedure?_iff :
    ((t.naming (.ofBlocks p)).procedure? scope name).isSome
      ↔ ∃ q ∈ p.procedures, q.name = name := by
  rw [Env.procedure?, Option.isSome_map, Kotlin.isSome_lookup_procedures]
  simp [Code.Program.ofBlocks, Code.Procedure.ofBlock]

theorem procedureNotes_eq :
    (if ((t.naming (.ofBlocks p)).procedure? scope name).isSome then []
        else [Code.unresolved "procedure" name])
      = entriesOf none (if ∃ q ∈ p.procedures, q.name = name then none
        else some (.procedure name)) := by
  by_cases h : ∃ q ∈ p.procedures, q.name = name
  · rw [if_pos (isSome_procedure?_iff.2 h), if_pos h]
    rfl
  · rw [if_neg (mt isSome_procedure?_iff.1 h), if_neg h]
    rfl

/-- **A value says its fault, or else what is wrong with its block.** -/
theorem own_exprOf (t : Target) (p : Block.Program) (s : Site) :
    (exprOf s.block).own (t.naming (.ofBlocks p)) (s.scope t)
      = entriesOf s.block.fault? (s.valueDefect? t p) := by
  obtain ⟨root, levels, role, ⟨kind, type, id, fields, mutation, args, values⟩⟩ := s
  cases kind with
  | number =>
    simp only [exprOf, Code.Expr.own, valueDefect?]
    split <;> rfl
  | arithmetic =>
    simp only [exprOf, Block.fault?, Bool.or_eq_true, decide_eq_true_eq]
    by_cases htype : type = "math_add" ∨ type = "math_multiply"
    · by_cases hcount : Code.itemCount mutation < 0 <;> simp only [htype, hcount] <;> rfl
    · simp only [htype]
      rfl
  | compare =>
    simp only [exprOf, valueDefect?]
    cases Code.comparison? (fieldOr fields "OP" "EQ") <;> rfl
  | logic =>
    simp only [exprOf, valueDefect?]
    cases Code.connective? (fieldOr fields "OP" "AND") <;> rfl
  | propertyGet =>
    simp only [exprOf, Code.Expr.own, valueDefect?]
    exact componentNotes_eq rfl rfl (accessorNotes_eq _)
  | methodCall =>
    rw [fault?_methodCall rfl]
    simp only [exprOf]
    cases Code.argSlots? (values.map Prod.fst) with
    | none => rfl
    | some slots => exact componentNotes_eq rfl rfl (methodNotes_eq _)
  | componentRef =>
    simp only [exprOf, Code.Expr.own, valueDefect?]
    exact componentNotes_eq rfl rfl fun _ => rfl
  | variableGet =>
    simp only [exprOf, Code.Expr.own, valueDefect?]
    exact variableNotes_eq rfl
  | procedureCall =>
    simp only [exprOf, Code.Expr.own, valueDefect?]
    exact procedureNotes_eq
  | _ =>
    simp only [exprOf, Code.Expr.own, valueDefect?]
    rfl

/-- **A block says its fault, or else what is wrong with it in its role.** -/
theorem own_eq (t : Target) (p : Block.Program) (s : Site) :
    own (t.naming (.ofBlocks p)) (s.scope t) s.role s.block
      = entriesOf s.block.fault? (s.defect? t p) := by
  have hvalue := own_exprOf t p s
  obtain ⟨root, levels, role, ⟨kind⟩⟩ := s
  cases role with
  | value => exact hvalue
  | act =>
    rw [own]
    cases kind with
    | branch | loop | forRange | forEach | leave | localDeclaration | unknown =>
      simp only [stmtOf, Code.Stmt.own]
      rfl
    | propertySet =>
      simp only [stmtOf, Code.Stmt.own]
      exact componentNotes_eq rfl rfl (accessorNotes_eq _)
    | variableSet =>
      simp only [stmtOf, Code.Stmt.own]
      exact variableNotes_eq rfl
    | _ =>
      simp only [stmtOf, Code.Stmt.own]
      exact hvalue

/-- **A program stops at the faults of its blocks, in the order of the walk.** -/
theorem stops_program_eq (t : Target) (p : Block.Program) :
    stops (t.review (.ofBlocks p)) = p.sites.filterMap fun s => s.block.fault? := by
  rw [filterMap_eq_flatMap_toList]
  refine (filterMap_sites (fun _ => rfl) Code.aside_fault? t p).trans ?_
  refine flatMap_congr fun s _ => ?_
  rw [own_eq]
  cases s.block.fault? with
  | some cause => rfl
  | none => cases s.defect? t p <;> rfl

theorem notes_entriesOf (defect : Option Defect) :
    notes (entriesOf none defect) = defect.toList.map Defect.report := by
  cases defect <;> rfl

/-- **A site remarks its defects.** -/
theorem notes_remarks (h : s.block.fault? = none) :
    notes (s.remarks t p) = (s.defects t p).map Defect.report := by
  rw [remarks, Journal.notes_append, own_eq, h, notes_entriesOf, defects, map_append,
    Journal.notes_flatMap, gaps, map_flatMap]
  refine congrArg (· ++ _) (flatMap_congr fun part _ => ?_)
  cases part with
  | slot name =>
    rw [gap, gapsIn]
    split <;> rfl
  | body name => rfl

/-- A root notes its own defects. -/
theorem Root.notes_own (t : Target) (root : Root) :
    notes (root.own t) = (root.defects t).map Defect.report := by
  cases root with
  | initial g => rfl
  | handler h =>
    have hcomponent : (Code.Handler.ofBlock h).component = h.component := rfl
    rw [own, Target.bindingNotes, defects, hcomponent]
    cases t.components.lookup h.component with
    | none => rfl
    | some ref =>
      dsimp only
      split <;> rfl
  | procedure q =>
    rw [own, defects]
    split <;> rfl

/-- What is reported of duplicates. -/
def duplicateReports (p : Block.Program) : List Diagnostic := notes (duplicateNotes p)

/-- **The report of a program without faults is that of its duplicates and defects.** -/
theorem notes_review (h : ∀ s ∈ p.sites, s.block.fault? = none) :
    (notes (t.review (.ofBlocks p))).Perm
      (duplicateReports p ++ (programDefects t p).map Defect.report) := by
  refine (notes_program t p).trans (List.Perm.of_eq (congrArg (_ ++ ·) ?_))
  rw [programDefects, map_append, map_flatMap, map_flatMap]
  refine congrArg₂ (· ++ ·) (flatMap_congr fun root _ => Root.notes_own t root) ?_
  exact flatMap_congr fun s hs => notes_remarks (h s hs)

/-! ### What is written -/

theorem component?_naming (t : Target) (p : Code.Program) (scope : Scope) (name : String) :
    (t.naming p).component? scope name = (t.components.lookup name).map fun ref =>
      ((t.naming p).member scope (((t.naming p).fields.lookup name).getD ""), ref) := rfl

theorem eq_of_ite_none {P : Prop} [Decidable P] {a : Defect}
    (h : (if P then none else some a) = some d) : ¬ P ∧ d = a := by
  split at h
  · cases h
  · next hP => exact ⟨hP, (Option.some.inj h).symm⟩

theorem within_member (target member : String) : Within ("." ++ member) (target ++ "." ++ member) :=
  ⟨target, "", by simp [String.append_assoc]⟩

theorem within_called (target member given : String) :
    Within ("." ++ member ++ "(") (target ++ "." ++ member ++ "(" ++ given ++ ")") :=
  ⟨target, given ++ ")", by simp [String.append_assoc]⟩

/-- What is wrong with a component or its member stands in what is written of them. -/
theorem within_memberDefect {absent : Defect} {member : Layout.Ref → Option Defect}
    {bare : String} {text : String → Layout.Ref → String}
    (h : memberDefect? t name absent member = some d) (habsent : Within absent.placeholder bare)
    (hmember : ∀ target ref, member ref = some d → Within d.placeholder (text target ref)) :
    Within d.placeholder (match (t.naming (.ofBlocks p)).component? scope name with
      | some (target, ref) => text target ref
      | none => bare) := by
  rw [component?_naming]
  unfold memberDefect? at h
  cases hl : t.components.lookup name with
  | none =>
    rw [hl] at h
    obtain rfl := Option.some.inj h
    exact habsent
  | some ref =>
    rw [hl] at h
    exact hmember _ ref h

theorem within_procedure (given : List Code.Expr) (h : ¬ ∃ q ∈ p.procedures, q.name = name) :
    Within (Defect.procedure name).placeholder
      (exprText (t.naming (.ofBlocks p)) scope (.procedure name given)) := by
  have hnone : (t.naming (.ofBlocks p)).procedure? scope name = none :=
    Option.not_isSome_iff_eq_none.1 (mt isSome_procedure?_iff.1 h)
  rw [exprText, hnone]
  exact Within.refl _

/-- **What is wrong with a value stands in its text.** -/
theorem within_valueDefect (h : s.block.fault? = none) (hd : s.valueDefect? t p = some d) :
    Within d.placeholder
      (exprText (t.naming (.ofBlocks p)) (s.scope t) (exprOf s.block)) := by
  obtain ⟨root, levels, role, ⟨kind⟩⟩ := s
  cases kind with
  | number =>
    simp only [valueDefect?] at hd
    obtain ⟨hnone, rfl⟩ := eq_of_ite_none hd
    rw [Option.not_isSome_iff_eq_none] at hnone
    simp only [exprOf, exprText, hnone]
    exact Within.refl _
  | compare | logic =>
    obtain ⟨hnone, rfl⟩ := eq_of_ite_none hd
    rw [Option.not_isSome_iff_eq_none] at hnone
    simp only [exprOf, hnone, exprText]
    exact Within.refl _
  | propertyGet =>
    simp only [exprOf, exprText]
    refine within_memberDefect hd (Within.refl _) fun target ref hd => ?_
    rw [(eq_of_ite_none hd).2]
    exact within_member _ _
  | methodCall =>
    obtain ⟨given, hexpr⟩ := exprOf_methodCall rfl h
    rw [hexpr, exprText]
    refine within_memberDefect hd (Within.refl _) fun target ref hd => ?_
    rw [(eq_of_ite_none hd).2]
    exact within_called _ _ _
  | componentRef =>
    simp only [exprOf, exprText]
    exact within_memberDefect hd (Within.refl _) fun _ _ hd => (by cases hd)
  | variableGet =>
    obtain ⟨hbound, rfl⟩ := eq_of_ite_none hd
    rw [exprOf, exprText, binding?_eq, if_neg]
    · exact Within.refl _
    · exact hbound
  | procedureCall =>
    obtain ⟨hq, rfl⟩ := eq_of_ite_none hd
    simp only [exprOf]
    exact within_procedure _ hq
  | text | boolean | arithmetic | negate | not | choose | textJoin | listCreate => cases hd
  | _ =>
    obtain rfl := Option.some.inj hd
    simp only [exprOf, exprText]
    exact Within.refl _

/-- **What is wrong with a block stands in its lines.** -/
theorem shows_defect (h : s.block.fault? = none) (hd : s.defect? t p = some d) :
    Shows (s.lines t p) d.placeholder := by
  have hvalue := fun hd => within_valueDefect (t := t) (p := p) (s := s) (d := d) h hd
  unfold lines
  obtain ⟨root, levels, role, ⟨kind⟩⟩ := s
  cases role with
  | value => exact ⟨_, mem_singleton.2 rfl, hvalue hd⟩
  | act =>
    rw [linesIn]
    cases kind with
    | branch | loop | forRange | forEach | leave | localDeclaration => cases hd
    | propertySet =>
      simp only [stmtOf, stmtLines, Kotlin.setPropertyLine]
      refine ⟨_, mem_singleton.2 rfl, ?_⟩
      refine within_memberDefect hd ((Within.refl _).inLeft _) fun target ref hd => ?_
      rw [(eq_of_ite_none hd).2]
      exact ((within_member _ _).inLeft _).inLeft _
    | variableSet =>
      obtain ⟨hbound, rfl⟩ := eq_of_ite_none hd
      simp only [stmtOf, stmtLines]
      refine ⟨_, mem_singleton.2 rfl, ?_⟩
      rw [Kotlin.setVariableLine, binding?_eq, if_neg]
      · exact (Within.refl _).inLeft _
      · exact hbound
    | unknown =>
      obtain rfl := Option.some.inj hd
      simp only [stmtOf, stmtLines]
      exact ⟨_, mem_singleton.2 rfl, Within.refl _⟩
    | _ =>
      simp only [stmtOf, stmtLines]
      exact ⟨_, mem_singleton.2 rfl, hvalue hd⟩

/-- **A slot that holds nothing shows in the lines of its block**, unless the block is replaced. -/
theorem shows_gap (h : ¬ s.block.Replaced t p) (hd : d ∈ s.gaps) :
    Shows (s.lines t p) d.placeholder := by
  obtain ⟨part, hpart, hd⟩ := mem_flatMap.1 hd
  cases part with
  | body name => exact absurd hd not_mem_nil
  | slot name =>
    rw [gapsIn] at hd
    split at hd
    · next hnone =>
      obtain rfl := mem_singleton.1 hd
      have hvalue : (s.block.values.lookup name).join = none := Option.isNone_iff_eq_none.1 hnone
      have htext : exprText (t.naming (.ofBlocks p)) (s.scope t)
          (Code.slotExpr s.block.type name s.block.values)
            = Kotlin.errorCall ("missing value: " ++ name) := by
        rw [Code.slotExpr_eq, hvalue, Code.heldExpr, exprText]
      suffices hshow : Shows (s.lines t p) (exprText (t.naming (.ofBlocks p)) (s.scope t)
          (Code.slotExpr s.block.type name s.block.values)) by
        rw [htext] at hshow
        exact hshow
      unfold lines
      cases hrole : s.role with
      | value =>
        rw [hrole] at hpart
        obtain ⟨slot, hslot, he⟩ := mem_map.1 hpart
        obtain rfl := Block.Part.slot.inj he
        refine ⟨_, mem_singleton.2 rfl, ?_⟩
        refine Kotlin.within_operand _ (fun hr => h (Block.replaced_of_exprOf hr)) ?_
        rw [Code.operands_exprOf]
        exact mem_map_of_mem hslot
      | act =>
        rw [hrole] at hpart
        have hpiece : s.block.piece (.slot name) ∈ (stmtOf s.block).pieces := by
          rw [Code.pieces_stmtOf]
          exact mem_map_of_mem hpart
        exact Kotlin.shows_piece (fun hr => h (Block.replaced_of_stmtOf hr)) hpiece _
          (mem_singleton.2 rfl)
    · exact absurd hd not_mem_nil

/-- The defect of a handler stands in its lines. -/
theorem Root.mem_handlerLines {env : Env} {h : Block.Handler}
    (hd : d ∈ (Root.handler h).defects t) :
    d.placeholder ∈ (t.handlerLines env (.ofBlock h)).2 := by
  have hcomponent : (Code.Handler.ofBlock h).component = h.component := rfl
  rw [defects] at hd
  rw [Target.handlerLines, hcomponent]
  cases hl : t.components.lookup h.component with
  | none =>
    rw [hl] at hd
    rw [mem_singleton.1 hd]
    exact mem_cons_self
  | some ref =>
    simp only [hl] at hd
    split at hd
    · exact absurd hd not_mem_nil
    · next hevent =>
      rw [Option.not_isSome_iff_eq_none.1 hevent, mem_singleton.1 hd]
      exact mem_cons_self

/-- **What is wrong with a declaration stands in the source.** -/
theorem Root.within_source {root : Root} (hroot : root ∈ roots p) (hd : d ∈ root.defects t) :
    Within d.placeholder (t.source (.ofBlocks p)) := by
  refine Kotlin.within_source ?_
  rcases mem_append.1 hroot with hroot | hroot
  rcases mem_append.1 hroot with hroot | hroot
  · obtain ⟨g, -, rfl⟩ := mem_map.1 hroot
    exact absurd hd not_mem_nil
  · obtain ⟨h, hh, rfl⟩ := mem_map.1 hroot
    exact Kotlin.shows_handler (mem_map_of_mem hh) (Root.mem_handlerLines hd)
  · obtain ⟨q, hq, rfl⟩ := mem_map.1 hroot
    rw [defects] at hd
    split at hd
    · next hempty =>
      obtain ⟨hreturns, hnone⟩ := Bool.and_eq_true_iff.1 hempty
      obtain rfl := mem_singleton.1 hd
      have hresult : (Code.Procedure.ofBlock q).result = some (.missing "RETURN" q.name) := by
        simp [Code.Procedure.ofBlock, hreturns, Option.isNone_iff_eq_none.1 hnone, Code.heldExpr]
      have hfirst : Code.Procedure.ofBlock q
          ∈ Code.firsts Code.Procedure.name (Code.Program.ofBlocks p).procedures := by
        rw [firsts_procedures]
        exact mem_map_of_mem hq
      have hshow := (Kotlin.shows_procedureLines_result (t.naming (.ofBlocks p)) hresult).trans
        fun l hl => Kotlin.shows_procedure (t := t) hfirst hl
      rw [exprText] at hshow
      exact hshow
    · exact absurd hd not_mem_nil

/-! ### Blocks around a block -/

/-- Whether a site is another one, or stands around it. -/
def Around (outer inner : Site) : Prop :=
  outer.root = inner.root ∧ (outer = inner ∨
    ∃ part, (⟨outer.block, part⟩ :: outer.levels) <:+ inner.levels)

/-- **Each level around a site is the level of a site on the walk.** -/
theorem exists_site_of_level {root : Root} {levels : List Level} {role : Role}
    (h : s ∈ sitesIn root levels role b) {l : Level} {outer : List Level}
    (hl : (l :: outer) <:+ s.levels) (houter : levels <:+ outer) :
    ∃ o ∈ sitesIn root levels role b,
      o.block = l.owner ∧ o.levels = outer ∧ l.part ∈ l.owner.partsIn o.role := by
  induction b using Block.inductParts generalizing levels role with
  | h b ih =>
    obtain rfl | ⟨part, hpart, c, hc, h⟩ := mem_sitesIn.1 h
    · have hle := hl.length_le
      have hle' := houter.length_le
      simp only [length_cons] at hle
      omega
    · have hsuffix := levels_suffix h
      rcases Nat.lt_or_ge levels.length outer.length with hlt | hge
      · -- the level is further in than this block
        have hinner : (⟨b, part⟩ :: levels) <:+ outer :=
          suffix_of_suffix_length_le hsuffix ((suffix_cons l outer).trans hl) hlt
        obtain ⟨o, ho, hblock⟩ := ih part c hc h hinner
        exact ⟨o, mem_sitesIn.2 (.inr ⟨part, hpart, c, hc, ho⟩), hblock⟩
      · -- the level is that of this block
        have heq : outer = levels := (houter.eq_of_length_le hge).symm
        have hlevel : l :: outer = ⟨b, part⟩ :: levels :=
          (suffix_of_suffix_length_le hl hsuffix (by simp [heq])).eq_of_length (by simp [heq])
        obtain ⟨rfl, rfl⟩ := List.cons.inj hlevel
        exact ⟨_, mem_sitesIn.2 (.inl rfl), rfl, rfl, hpart⟩

/-- **Each level around a site of a program is the level of a site around it.** -/
theorem exists_site_around (hs : s ∈ p.sites) {l : Level} {outer : List Level}
    (hl : (l :: outer) <:+ s.levels) :
    ∃ o ∈ p.sites, o.Around s ∧ o.block = l.owner ∧ o.levels = outer ∧
      l.part ∈ l.owner.partsIn o.role := by
  obtain ⟨root, hroot, b, hb, hs⟩ := mem_sites.1 hs
  obtain ⟨o, ho, hblock, hlevels, hpart⟩ := exists_site_of_level hs hl nil_suffix
  refine ⟨o, mem_sites.2 ⟨root, hroot, b, hb, ho⟩, ⟨?_, .inr ⟨l.part, ?_⟩⟩, hblock, hlevels, hpart⟩
  · rw [root_of_mem_sitesIn ho, root_of_mem_sitesIn hs]
  · rw [hblock, hlevels]
    exact hl

theorem exists_last {α : Type} {P : α → Prop} {items : List α} (h : ∃ a ∈ items, P a) :
    ∃ a rest, (a :: rest) <:+ items ∧ P a ∧ ∀ b ∈ rest, ¬ P b := by
  induction items with
  | nil =>
    obtain ⟨a, ha, -⟩ := h
    exact absurd ha not_mem_nil
  | cons first others ih =>
    by_cases hothers : ∃ a ∈ others, P a
    · obtain ⟨a, rest, hsuffix, ha, hrest⟩ := ih hothers
      exact ⟨a, rest, hsuffix.trans (suffix_cons first others), ha, hrest⟩
    · obtain ⟨a, ha, hP⟩ := h
      rcases mem_cons.1 ha with rfl | ha
      · exact ⟨a, others, suffix_rfl, hP, fun b hb hPb => hothers ⟨b, hb, hPb⟩⟩
      · exact absurd ⟨a, ha, hP⟩ hothers

/-- **A site is kept, or the outermost replaced block around it is.** -/
theorem kept_or_replaced (hs : s ∈ p.sites) :
    s.Kept t p ∨ ∃ o ∈ p.sites, o.Around s ∧ o.Kept t p ∧ o.block.Replaced t p := by
  by_cases hkept : s.Kept t p
  · exact Or.inl hkept
  · right
    have hexists : ∃ l ∈ s.levels, l.owner.Replaced t p := by
      simpa [Kept] using hkept
    obtain ⟨l, outer, hsuffix, hreplaced, houter⟩ := exists_last hexists
    obtain ⟨o, ho, haround, hblock, hlevels, -⟩ := exists_site_around hs hsuffix
    refine ⟨o, ho, haround, ?_, hblock ▸ hreplaced⟩
    rw [Kept, hlevels]
    exact houter

/-- A block that is replaced has a defect. -/
theorem exists_defect_of_replaced (h : s.block.Replaced t p) : ∃ d, s.defect? t p = some d := by
  suffices hvalue : ∃ d, s.valueDefect? t p = some d by
    obtain ⟨root, levels, role, ⟨kind⟩⟩ := s
    cases role with
    | value => exact hvalue
    | act =>
      cases kind with
      | compare | logic | methodCall | procedureCall => exact hvalue
      | _ => exact h.elim
  obtain ⟨root, levels, role, ⟨kind, type, id, fields, mutation⟩⟩ := s
  cases kind with
  | compare => exact ⟨_, if_neg (by rw [show Code.comparison? _ = none from h]; decide)⟩
  | logic => exact ⟨_, if_neg (by rw [show Code.connective? _ = none from h]; decide)⟩
  | methodCall =>
    have hl : t.components.lookup (Block.componentOf mutation fields) = none := h
    refine ⟨.component (Block.componentOf mutation fields), ?_⟩
    simp only [valueDefect?, memberDefect?, Block.componentName, hl]
  | procedureCall =>
    refine ⟨_, if_neg ?_⟩
    rintro ⟨q, hq, hname⟩
    exact h q hq hname
  | _ => exact h.elim

/-- **Every defect of a site stands in the source as its placeholder**, or a block around it is
replaced by one that does. -/
theorem within_source_of_defect (h : ∀ s ∈ p.sites, s.block.fault? = none) (hs : s ∈ p.sites)
    (hd : d ∈ s.defects t p) :
    Within d.placeholder (t.source (.ofBlocks p)) ∨
      ∃ o ∈ p.sites, o.Around s ∧ o.block.Replaced t p ∧
        ∃ e, o.defect? t p = some e ∧ Within e.placeholder (t.source (.ofBlocks p)) := by
  have hsource : ∀ o ∈ p.sites, o.Kept t p → ∀ text, Shows (o.lines t p) text →
      Within text (t.source (.ofBlocks p)) := by
    rintro o ho hkept text ⟨line, hline, hwithin⟩
    exact hwithin.trans (within_source ho hkept line hline)
  have hreplaced : ∀ o ∈ p.sites, o.Kept t p → o.block.Replaced t p →
      ∃ e, o.defect? t p = some e ∧ Within e.placeholder (t.source (.ofBlocks p)) := by
    intro o ho hkept hr
    obtain ⟨e, he⟩ := exists_defect_of_replaced hr
    exact ⟨e, he, hsource o ho hkept _ (shows_defect (h o ho) he)⟩
  rcases kept_or_replaced (t := t) hs with hkept | ⟨o, ho, haround, hkept, hr⟩
  · rcases mem_append.1 hd with hd | hd
    · by_cases hr : s.block.Replaced t p
      · exact Or.inr ⟨s, hs, ⟨rfl, Or.inl rfl⟩, hr, hreplaced s hs hkept hr⟩
      · exact Or.inl (hsource s hs hkept _ (shows_gap hr hd))
    · exact Or.inl (hsource s hs hkept _ (shows_defect (h s hs) (Option.mem_toList.1 hd)))
  · exact Or.inr ⟨o, ho, haround, hr, hreplaced o ho hkept hr⟩

/-- **A program is written exactly if none of its blocks has a fault**, and otherwise the first
fault on the walk is the one it stops with.  The report of a program that is written is that of its
duplicates and defects, in some order.  Each defect has its placeholder in the source, unless a
block around it is replaced, whose placeholder is then there. -/
theorem program_written_iff_no_fault (t : Target) (p : Block.Program) :
    (∀ fault, settle .unlimited (t.review (.ofBlocks p)) = .error fault ↔
      (p.sites.filterMap fun s => s.block.fault?).head? = some fault) ∧
    ((∃ report, settle .unlimited (t.review (.ofBlocks p)) = .ok report) ↔
      ∀ s ∈ p.sites, s.block.fault? = none) ∧
    ∀ report, settle .unlimited (t.review (.ofBlocks p)) = .ok report →
      report.Perm (duplicateReports p ++ (programDefects t p).map Defect.report) ∧
      (∀ root ∈ roots p, ∀ d ∈ root.defects t, Within d.placeholder (t.source (.ofBlocks p))) ∧
      ∀ s ∈ p.sites, ∀ d ∈ s.defects t p,
        Within d.placeholder (t.source (.ofBlocks p)) ∨
          ∃ o ∈ p.sites, o.Around s ∧ o.block.Replaced t p ∧
            ∃ e, o.defect? t p = some e ∧ Within e.placeholder (t.source (.ofBlocks p)) := by
  have hnil : stops (t.review (.ofBlocks p)) = [] ↔ ∀ s ∈ p.sites, s.block.fault? = none := by
    rw [stops_program_eq, filterMap_eq_nil_iff]
  refine ⟨fun fault => ?_, ⟨?_, ?_⟩, ?_⟩
  · rw [Journal.settle_unlimited_eq_error_iff, stops_program_eq]
  · rintro ⟨report, h⟩
    exact hnil.1 (Journal.settle_unlimited_eq_ok_iff.1 h).1
  · intro h
    exact ⟨_, Journal.settle_unlimited_eq_ok_iff.2 ⟨hnil.2 h, rfl⟩⟩
  · intro report h
    obtain ⟨hstops, rfl⟩ := Journal.settle_unlimited_eq_ok_iff.1 h
    have hfaults := hnil.1 hstops
    exact ⟨notes_review hfaults, fun root hroot d hd => Root.within_source hroot hd,
      fun s hs d hd => within_source_of_defect hfaults hs hd⟩

/-- A global variable whose first value is a sum of a negative number of operands. -/
def negativeSum : String :=
  "<xml><block type=\"global_declaration\"><field name=\"NAME\">x</field><value name=\"VALUE\">"
    ++ "<block type=\"math_add\"><mutation items=\"-1\"></mutation></block></value></block></xml>"

/-- One sum stops the whole program. -/
theorem program_stops_at_negative_sum : ∃ root, Block.rootOf negativeSum {} = .ok (some root) ∧
    settle .unlimited (Target.review { package := "app" } (.ofBlocks (Block.programOf root)))
      = .error .missingOperands := by
  have h : ((Block.rootOf negativeSum {}).toOption.bind id).bind (fun root =>
      (stops (Target.review { package := "app" } (.ofBlocks (Block.programOf root)))).head?)
      = some .missingOperands := by decide +kernel
  obtain ⟨root, hroot, h⟩ := Option.bind_eq_some_iff.1 h
  refine ⟨root, ?_, Journal.settle_unlimited_eq_error_iff.2 h⟩
  cases hread : Block.rootOf negativeSum {} with
  | error e =>
    rw [hread] at hroot
    cases hroot
  | ok found =>
    rw [hread] at hroot
    exact congrArg Except.ok hroot

end Site
end ScreenForge
