/-
# Component fields are named once

The code asks for the field of a component wherever it refers to one: a handler for that of its
listener, and on the walk each block that reads or sets a property, calls a method or names the
component (`Site.component?`).  The desk that gives out fields on demand may stand for `naming`:
whenever a component is asked for, the answer is the one field that it has at the end.
-/
import ScreenForge.Proofs.Kotlin.Mention
import ScreenForge.Proofs.Scope.Defect

namespace ScreenForge

open List

namespace Code

/-- The component that an expression refers to itself. -/
def Expr.component? : Expr → Option String
  | .property name _ => some name
  | .method name _ _ => some name
  | .component name => some name
  | _ => none

/-- The component that a statement refers to itself. -/
def Stmt.component? : Stmt → Option String
  | .setProperty name _ _ => some name
  | .call e => e.component?
  | .value e => e.component?
  | _ => none

theorem Expr.mention?_eq_field_iff {e : Expr} {name : String} :
    e.mention? = some (.field name) ↔ e.component? = some name := by
  cases e <;> simp [Expr.mention?, Expr.component?]

theorem Stmt.mention?_eq_field_iff {s : Stmt} {name : String} :
    s.mention? = some (.field name) ↔ s.component? = some name := by
  cases s with
  | call e | value e => exact Expr.mention?_eq_field_iff
  | _ => simp [Stmt.mention?, Stmt.component?]

theorem usesAll_eq_flatMap (es : List Expr) : Expr.usesAll es = es.flatMap Expr.uses := by
  induction es with
  | nil => simp [Expr.usesAll]
  | cons e es ih => simp [Expr.usesAll, ih]

/-- **An expression uses what its operands use, and then what it refers to itself.** -/
theorem uses_eq (e : Expr) : e.uses = e.operands.flatMap Expr.uses ++ e.component?.toList := by
  cases e <;> simp [Expr.uses, Expr.operands, Expr.component?, usesAll_eq_flatMap]

/-- What a piece of a statement uses. -/
def Piece.uses : Piece → List String
  | .value e => e.uses
  | .body _ ss => Stmt.usesAll ss

theorem usesArms_eq_flatMap (arms : List (Expr × List Stmt)) :
    Stmt.usesArms arms = arms.flatMap fun arm => arm.1.uses ++ Stmt.usesAll arm.2 := by
  induction arms with
  | nil => simp [Stmt.usesArms]
  | cons arm arms ih => simp [Stmt.usesArms, ih]

theorem stmtUsesAll_eq_flatMap (ss : List Stmt) : Stmt.usesAll ss = ss.flatMap Stmt.uses := by
  induction ss with
  | nil => simp [Stmt.usesAll]
  | cons s ss ih => simp [Stmt.usesAll, ih]

/-- **A statement uses what its pieces use, and then what it refers to itself.** -/
theorem stmt_uses_eq (s : Stmt) : s.uses = s.pieces.flatMap Piece.uses ++ s.component?.toList := by
  cases s with
  | branch arms otherwise =>
    rw [Stmt.uses, usesArms_eq_flatMap]
    cases otherwise <;>
      simp [Stmt.usesOtherwise, Stmt.pieces, Stmt.component?, flatMap_assoc, Piece.uses]
  | call e | value e =>
    rw [Stmt.uses, uses_eq, Stmt.pieces, flatMap_map]
    rfl
  | _ => simp [Stmt.uses, Stmt.pieces, Stmt.component?, Piece.uses, flatMap_map]

end Code

namespace Site

open Block (Part)
open Code (Mention exprOf stmtOf)
open Kotlin (Desk Opens Target isName opens_exprText opens_stmtLines)

variable {t : Target} {p : Block.Program} {name : String} {ref : Layout.Ref} {s : Site} (b : Block)

/-- The component that a block in a role refers to itself. -/
def componentIn? (role : Role) (b : Block) : Option String :=
  match b.kind with
  | .propertyGet | .componentRef => some b.componentName
  | .methodCall => if b.fault? = none then some b.componentName else none
  | .propertySet => if role = .act then some b.componentName else none
  | _ => none

/-- **The component that a site refers to.** -/
def component? (s : Site) : Option String := componentIn? s.role s.block

theorem component?_exprOf : (exprOf b).component? = componentIn? .value b := by
  have hcall := fun hkind h => exprOf_methodCall (b := b) hkind h
  have hfault := fun hkind => fault?_methodCall (b := b) hkind
  obtain ⟨kind, type, id, fields, mutation, args, values⟩ := b
  cases kind with
  | arithmetic =>
    simp only [exprOf]
    split
    · split <;> rfl
    · rfl
  | compare | logic =>
    simp only [exprOf]
    split <;> rfl
  | methodCall =>
    simp only [componentIn?]
    split
    · next h =>
      obtain ⟨given, hexpr⟩ := hcall rfl h
      rw [hexpr]
      rfl
    · next h =>
      rw [hfault rfl] at h
      cases hslots : Code.argSlots? (values.map Prod.fst) with
      | none =>
        simp only [exprOf, hslots]
        rfl
      | some slots => simp [hslots] at h
  | _ =>
    simp only [exprOf]
    rfl

theorem component?_stmtOf : (stmtOf b).component? = componentIn? .act b := by
  have hvalue := component?_exprOf b
  obtain ⟨kind⟩ := b
  cases kind with
  | branch | loop | forRange | forEach | leave | propertySet | variableSet | localDeclaration
  | unknown =>
    simp only [stmtOf]
    rfl
  | _ =>
    simp only [stmtOf]
    exact hvalue

/-- The components that a block in a role uses, in order. -/
def usesIn : Role → Block → List String
  | .value, b => (exprOf b).uses
  | .act, b => (stmtOf b).uses

/-- The uses of a part are those of the blocks in it. -/
theorem uses_piece (part : Part) :
    (b.piece part).uses = (b.inPart part).flatMap (usesIn part.role) := by
  cases part with
  | slot name =>
    have hvalue : b.value? name = (b.values.lookup name).join := rfl
    rw [Block.piece, Code.Piece.uses, Code.slotExpr_eq, ← hvalue, Block.inPart]
    cases b.value? name with
    | none => simp [Code.heldExpr, Code.Expr.uses]
    | some c => simp [Code.heldExpr, usesIn, Part.role]
  | body name =>
    rw [Block.piece, Code.Piece.uses, Code.stmtUsesAll_eq_flatMap, Code.bodyIn_eq, flatMap_map]
    rfl

/-- **A block uses what its parts use, and then what it refers to itself.** -/
theorem usesIn_eq (role : Role) (b : Block) :
    usesIn role b = ((b.partsIn role).flatMap fun part =>
      (b.inPart part).flatMap (usesIn part.role)) ++ (componentIn? role b).toList := by
  simp only [← uses_piece]
  cases role with
  | value =>
    rw [usesIn, Code.uses_eq, Code.operands_exprOf, component?_exprOf, Block.partsIn,
      flatMap_map, flatMap_map]
    rfl
  | act =>
    rw [usesIn, Code.stmt_uses_eq, Code.pieces_stmtOf, component?_stmtOf, Block.partsIn,
      flatMap_map]

/-- The uses of a block are those of its sites. -/
theorem usesIn_eq_sites (t : Target) (root : Root) (role : Role) (b : Block) :
    usesIn role b = (sitesIn root [] role b).flatMap fun s => s.component?.toList :=
  gather_eq_sites (fun role _ b => usesIn role b) (fun role _ b => (componentIn? role b).toList)
    (fun role _ b => usesIn_eq role b) t root [] role b

/-- The component that a handler listens to. -/
def Root.listener (t : Target) : Root → List String
  | .handler h => if t.isListener (.ofBlock h) then [h.component] else []
  | _ => []

/-- The components that the walk over a program refers to, in order. -/
def walkUses (t : Target) (p : Block.Program) : List String :=
  (roots p).flatMap fun root =>
    root.listener t ++ root.sites.flatMap fun s => s.component?.toList

theorem Root.uses_eq (t : Target) (root : Root) :
    (root.blocks.flatMap fun b => usesIn b.1 b.2)
      = root.sites.flatMap fun s => s.component?.toList := by
  rw [Root.sites_eq, flatMap_assoc]
  exact flatMap_congr fun b _ => usesIn_eq_sites t root b.1 b.2

/-- **The uses of a program are those of the walk.** -/
theorem uses_ofBlocks (t : Target) (p : Block.Program) : t.uses (.ofBlocks p) = walkUses t p := by
  have hacts : ∀ blocks : List Block, Code.Stmt.usesAll (Code.stmtsOf blocks)
      = (blocks.map fun b => (Role.act, b)).flatMap fun b => usesIn b.1 b.2 := by
    intro blocks
    rw [Code.stmtUsesAll_eq_flatMap, Code.stmtsOf_eq_map, flatMap_map, flatMap_map]
    rfl
  have hinitial : ∀ g : Block.Global, ((Code.Global.ofBlock g).value.map Code.Expr.uses).getD []
      = (Root.initial g).sites.flatMap fun s => s.component?.toList := by
    intro g
    rw [← Root.uses_eq t, Root.blocks]
    cases hvalue : g.value <;> simp [Code.Global.ofBlock, hvalue, usesIn]
  have hhandler : ∀ h : Block.Handler, t.usesOf (.ofBlock h) = (Root.handler h).listener t
      ++ (Root.handler h).sites.flatMap fun s => s.component?.toList := by
    intro h
    rw [← Root.uses_eq t, Root.blocks, ← hacts]
    rfl
  have hprocedure : ∀ q : Block.Procedure, Kotlin.procedureUses (.ofBlock q)
      = (Root.procedure q).sites.flatMap fun s => s.component?.toList := by
    intro q
    rw [← Root.uses_eq t, Root.blocks, flatMap_append, ← hacts]
    refine congrArg (_ ++ ·) ?_
    cases hreturns : q.returnsValue with
    | false => simp [Code.Procedure.ofBlock, hreturns]
    | true =>
      cases hresult : q.result <;>
        simp [Code.Procedure.ofBlock, hreturns, hresult, Code.heldExpr, Code.Expr.uses, usesIn]
  have hhandlers : (Code.Program.ofBlocks p).handlers = p.handlers.map Code.Handler.ofBlock := rfl
  rw [Target.uses, firsts_globals, firsts_procedures, hhandlers, walkUses, roots,
    flatMap_append, flatMap_append]
  simp only [flatMap_map, hinitial, hhandler, hprocedure, Root.listener, nil_append]

/-! ### What uses are written as -/

/-- **A component that is used has a field.** -/
theorem exists_field (huse : name ∈ walkUses t p) (href : t.components.lookup name = some ref) :
    ∃ field, (t.naming (.ofBlocks p)).fields.lookup name = some field := by
  refine Option.isSome_iff_exists.1 (Assoc.isSome_lookup.2 ?_)
  rw [Kotlin.keys_fields, Target.usedComponents, mem_eraseDups, mem_filter, uses_ofBlocks]
  exact ⟨huse, by rw [← Assoc.isSome_lookup_eq_has, href]; rfl⟩

theorem mem_walkUses_of_site (hs : s ∈ p.sites) (h : s.component? = some name) :
    name ∈ walkUses t p := by
  obtain ⟨root, hroot, hs⟩ := mem_flatMap.1 hs
  refine mem_flatMap.2 ⟨root, hroot, mem_append_right _ ?_⟩
  exact mem_flatMap.2 ⟨s, hs, by rw [h]; exact mem_singleton.2 rfl⟩

theorem mem_walkUses_of_listener {h : Block.Handler} (hh : h ∈ p.handlers)
    (hl : t.isListener (.ofBlock h)) : h.component ∈ walkUses t p := by
  have hroot : Root.handler h ∈ roots p :=
    mem_append_left _ (mem_append_right _ (mem_map_of_mem hh))
  refine mem_flatMap.2 ⟨_, hroot, mem_append_left _ ?_⟩
  rw [Root.listener, if_pos hl]
  exact mem_singleton.2 rfl

/-- The member that a block in a role refers to itself. -/
def mentionIn? : Role → Block → Option Mention
  | .value, b => (exprOf b).mention?
  | .act, b => (stmtOf b).mention?

/-- **The member that a site refers to.** -/
def mention? (s : Site) : Option Mention := mentionIn? s.role s.block

theorem mention?_eq_field_iff : s.mention? = some (.field name) ↔ s.component? = some name := by
  obtain ⟨root, levels, role, b⟩ := s
  cases role with
  | value =>
    rw [component?, ← component?_exprOf]
    exact Code.Expr.mention?_eq_field_iff
  | act =>
    rw [component?, ← component?_stmtOf]
    exact Code.Stmt.mention?_eq_field_iff

/-- **A site that refers to a member is one line, which opens with the member.** -/
theorem opens_lines {m : Mention} {word : String} (h : s.mention? = some m)
    (hw : (t.naming (.ofBlocks p)).word? m = some word) : ∃ line, s.lines t p = [line] ∧
      Opens ((t.naming (.ofBlocks p)).member (s.scope t) word) line := by
  obtain ⟨root, levels, role, b⟩ := s
  cases role with
  | value => exact ⟨_, rfl, opens_exprText h hw _⟩
  | act => exact opens_stmtLines h hw _

/-- **The line of a block about a component starts with the component's field.** -/
theorem lines_of_component {field : String} (h : s.component? = some name)
    (href : t.components.lookup name = some ref)
    (hfield : (t.naming (.ofBlocks p)).fields.lookup name = some field) :
    ∃ rest, s.lines t p = [(t.naming (.ofBlocks p)).member (s.scope t) field ++ rest] := by
  have hw : (t.naming (.ofBlocks p)).word? (.field name) = some field :=
    Option.bind_eq_some_iff.2 ⟨ref, href, hfield⟩
  obtain ⟨_, hlines, rest, rfl, -⟩ := opens_lines (mention?_eq_field_iff.2 h) hw
  exact ⟨rest, hlines⟩

/-- **The lines of a listener start with the component's field.** -/
theorem handlerLines_of_listener {h : Block.Handler} {field : String}
    (hl : t.isListener (.ofBlock h)) (href : t.components.lookup h.component = some ref)
    (hfield : (t.naming (.ofBlocks p)).fields.lookup h.component = some field) :
    ∃ rest, (t.handlerLines (t.naming (.ofBlocks p)) (.ofBlock h)).2.head?
      = some (field ++ rest) := by
  have hcomponent : (Code.Handler.ofBlock h).component = h.component := rfl
  obtain ⟨-, hevent⟩ := Bool.and_eq_true_iff.1 hl
  cases he : t.eventOf (.ofBlock h) with
  | none => simp [he] at hevent
  | some e =>
    have hinline : e.inline = false := by simpa [he] using hevent
    rw [Target.handlerLines, hcomponent, href, he, hfield]
    simp only [hinline, Bool.false_eq_true, if_false, List.head?_cons, Kotlin.listenerLine,
      Option.getD_some, String.append_assoc]
    exact ⟨_, rfl⟩

/-- **Members have different names, and a component keeps its field.**  The names of global
variables, procedures and component fields differ from one another and from that of the activity,
and all are names of the language.  Every declaration has one, and every component of the layout
that the walk refers to.  A desk that gives out fields on demand along the walk answers every
request with the field that the component has at the end, and that field stands at every use. -/
theorem member_names_distinct_and_kept (t : Target) (p : Block.Program) :
    (t.naming (.ofBlocks p)).members.Nodup ∧
    (∀ name ∈ (t.naming (.ofBlocks p)).members, name ≠ t.activity ∧ isName name = true) ∧
    (∀ name, ((t.naming (.ofBlocks p)).globals.lookup name).isSome = true ↔
      ∃ g ∈ p.globals, g.name = name) ∧
    (∀ name, ((t.naming (.ofBlocks p)).procedures.lookup name).isSome = true ↔
      ∃ q ∈ p.procedures, q.name = name) ∧
    ((t.desk (.ofBlocks p)).askAll t.components (walkUses t p)).1
      = (walkUses t p).map (fun name => (t.naming (.ofBlocks p)).fields.lookup name) ∧
    ((t.desk (.ofBlocks p)).askAll t.components (walkUses t p)).2.fields
      = (t.naming (.ofBlocks p)).fields ∧
    (∀ s ∈ p.sites, ∀ name ref, s.component? = some name → t.components.lookup name = some ref →
      ∃ field rest, (t.naming (.ofBlocks p)).fields.lookup name = some field ∧
        s.lines t p = [(t.naming (.ofBlocks p)).member (s.scope t) field ++ rest]) ∧
    ∀ h ∈ p.handlers, t.isListener (.ofBlock h) = true →
      ∃ field rest, (t.naming (.ofBlocks p)).fields.lookup h.component = some field ∧
        (t.handlerLines (t.naming (.ofBlocks p)) (.ofBlock h)).2.head? = some (field ++ rest) := by
  obtain ⟨hanswers, hfields⟩ :=
    Desk.askAll_eq t.components (t.desk (.ofBlocks p)) (t.uses (.ofBlocks p))
  rw [Kotlin.served_desk, uses_ofBlocks] at hanswers hfields
  refine ⟨Kotlin.nodup_members t _, fun name hname =>
    ⟨Kotlin.ne_activity_of_mem_members hname, Kotlin.isName_of_mem_members hname⟩,
    fun name => ?_, fun name => ?_, hanswers, hfields, ?_, ?_⟩
  · rw [Kotlin.isSome_lookup_globals]
    simp [Code.Program.ofBlocks, Code.Global.ofBlock]
  · rw [Kotlin.isSome_lookup_procedures]
    simp [Code.Program.ofBlocks, Code.Procedure.ofBlock]
  · intro s hs name ref hname href
    obtain ⟨field, hfield⟩ := exists_field (mem_walkUses_of_site hs hname) href
    obtain ⟨rest, hrest⟩ := lines_of_component hname href hfield
    exact ⟨field, rest, hfield, hrest⟩
  · intro h hh hl
    obtain ⟨hknown, -⟩ := Bool.and_eq_true_iff.1 hl
    rw [← Assoc.isSome_lookup_eq_has] at hknown
    obtain ⟨ref, href⟩ := Option.isSome_iff_exists.1 hknown
    obtain ⟨field, hfield⟩ := exists_field (mem_walkUses_of_listener hh hl) href
    obtain ⟨rest, hrest⟩ := handlerLines_of_listener hl href hfield
    exact ⟨field, rest, hfield, hrest⟩

end Site
end ScreenForge
