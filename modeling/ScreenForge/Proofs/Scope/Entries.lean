/-
# What each block adds to the journal

The journal of an expression or a statement is made of looks at the clock for itself, of what its
parts add and of what it adds itself (`Expr.own`, `Stmt.own`).  Whatever is picked out of a journal,
be it looks, faults or notes, is therefore picked out of these in order, with one more entry for
each value slot that holds nothing (`gap`).  On the walk over a program this gives an account by
sites.
-/
import Mathlib.Data.List.Perm.Basic
import ScreenForge.Proofs.Journal
import ScreenForge.Proofs.Scope.Site

namespace ScreenForge

open List
open Journal (Entry)
open Kotlin (Env Scope Target)

/-- The expression that a statement hands on as it is. -/
def Site.handedOn? : Code.Stmt → Option Code.Expr
  | .value e => some e
  | _ => none

namespace Code

variable (env : Env) (scope : Scope)

/-- What an expression adds to the journal itself. -/
def Expr.own (env : Env) (scope : Scope) : Expr → List Entry
  | .missing slot owner => [missingValue slot owner]
  | .number entered type =>
    if (Kotlin.numberLiteral? entered).isSome then []
    else [.note (.warning .missingValue s!"Invalid number literal '{entered}'" (some type))]
  | .emptyChain => [.stop .missingOperands]
  | .unknownOperator _ type _ _ _ => [unknownBlock type]
  | .property name prop => componentNotes env name fun ref => accessorNotes ref prop
  | .method name called _ => componentNotes env name fun ref => methodNotes ref called
  | .longSlots => [.stop .longSlotNumber]
  | .component name => componentNotes env name fun _ => []
  | .variable name => variableNotes env scope name
  | .procedure name _ =>
    if (env.procedure? scope name).isSome then [] else [unresolved "procedure" name]
  | .unsupported type => [unknownBlock type]
  | .misplaced type =>
    [.note (.error .opaqueBlock s!"Statement block {type} used as a value" (some type))]
  | _ => []

/-- What a statement adds to the journal itself. -/
def Stmt.own (env : Env) (scope : Scope) : Stmt → List Entry
  | .setProperty name prop _ => componentNotes env name fun ref => accessorNotes ref prop
  | .setVariable name _ => variableNotes env scope name
  | .call e => e.own env scope
  | .value e => e.own env scope
  | .unsupported type _ => [unknownBlock type]
  | _ => []

variable {α : Type} {pick : Entry → Option α}

theorem insideAll_eq (es : List Expr) :
    Expr.insideAll env scope es = es.flatMap (Expr.review env scope) := by
  induction es with
  | nil => simp [Expr.insideAll]
  | cons e es ih => simp [Expr.insideAll, ih, Expr.review]

/-- **An expression says what its operands say, and then what it says itself.** -/
theorem inside_eq (e : Expr) : e.inside env scope
      = e.operands.flatMap (Expr.review env scope) ++ e.own env scope := by
  cases e with
  | procedure name args | method name called args =>
    rw [Expr.inside, insideAll_eq]
    rfl
  | _ => simp [Expr.inside, Expr.review, insideAll_eq, Expr.operands, Expr.own]

theorem reviewArms_eq (arms : List (Expr × List Stmt)) : Stmt.reviewArms env scope arms
      = arms.flatMap fun arm => arm.1.review env scope ++ Stmt.reviewAll env scope arm.2 := by
  induction arms with
  | nil => simp [Stmt.reviewArms]
  | cons arm arms ih => simp [Stmt.reviewArms, ih]

theorem reviewAll_eq (ss : List Stmt) :
    Stmt.reviewAll env scope ss = ss.flatMap (Stmt.review env scope) := by
  induction ss with
  | nil => simp [Stmt.reviewAll]
  | cons s ss ih => simp [Stmt.reviewAll, ih]

/-- The journal of a piece of a statement. -/
def Piece.review (env : Env) (scope : Scope) : Piece → List Entry
  | .value e => e.review env scope
  | .body names ss => Stmt.reviewAll env (names ++ scope) ss

/-- `Timeless pick`: nothing is picked out of looks at the clock. -/
def Timeless (pick : Entry → Option α) : Prop := ∀ stage, pick (.look stage) = none

/-- `Noteless pick`: nothing is picked out of notes. -/
def Noteless (pick : Entry → Option α) : Prop := ∀ d, pick (.note d) = none

/-- `Aside pick`: nothing is picked out of notes, except those of variables that stand for
nothing. -/
def Aside (pick : Entry → Option α) : Prop :=
  ∀ d, (∀ name, Entry.note d ≠ unresolved "variable" name) → pick (.note d) = none

theorem aside_fault? : Aside Entry.fault? := fun _ _ => rfl

section Aside
variable (hpick : Aside pick)
include hpick

theorem filterMap_note {d : Diagnostic} (h : d.code ≠ .unresolvedReference) :
    [Entry.note d].filterMap pick = [] :=
  filterMap_cons_none (hpick d fun _ heq => h (congrArg Diagnostic.code (Entry.note.inj heq)))

theorem filterMap_reference {what : String} (h : what ≠ "variable") (name : String) :
    [unresolved what name].filterMap pick = [] := by
  refine filterMap_cons_none (hpick _ fun other heq => h ?_)
  simp only [unresolved, Diagnostic.error, Entry.note.injEq, Diagnostic.mk.injEq,
    Option.some.injEq] at heq
  obtain ⟨-, hmessage, rfl, -⟩ := heq
  have hsame : toString what = toString "variable" := by simpa using hmessage
  exact hsame

theorem filterMap_componentNotes {env : Env} {name : String} {f : Layout.Ref → List Entry}
    (h : ∀ ref, (f ref).filterMap pick = []) :
    (componentNotes env name f).filterMap pick = [] := by
  unfold componentNotes
  split
  · exact h _
  · exact filterMap_reference hpick (by decide) name

theorem filterMap_accessorNotes (property : String) (ref : Layout.Ref) :
    (accessorNotes ref property).filterMap pick = [] := by
  unfold accessorNotes
  split
  · rfl
  · exact filterMap_note hpick nofun

theorem filterMap_methodNotes (called : String) (ref : Layout.Ref) :
    (methodNotes ref called).filterMap pick = [] := by
  unfold methodNotes
  split
  · rfl
  · exact filterMap_note hpick nofun

/-- If nothing is picked out of faults either, then only variables count. -/
theorem filterMap_exprOwn (hstop : ∀ fault, pick (.stop fault) = none) (env : Env) (scope : Scope)
    (e : Expr) : (e.own env scope).filterMap pick
      = e.about?.toList.flatMap fun name => (variableNotes env scope name).filterMap pick := by
  cases e with
  | missing | unknownOperator | unsupported | misplaced => exact filterMap_note hpick nofun
  | number entered type =>
    rw [Expr.own]
    split
    · rfl
    · exact filterMap_note hpick nofun
  | emptyChain | longSlots => exact filterMap_cons_none (hstop _)
  | property name prop =>
    exact filterMap_componentNotes hpick (filterMap_accessorNotes hpick prop)
  | method name called args =>
    exact filterMap_componentNotes hpick (filterMap_methodNotes hpick called)
  | component name => exact filterMap_componentNotes hpick fun _ => rfl
  | «variable» name => exact (flatMap_singleton _ _).symm
  | procedure name args =>
    rw [Expr.own]
    split
    · rfl
    · exact filterMap_reference hpick (by decide) name
  | _ => rfl

theorem filterMap_stmtOwn (hstop : ∀ fault, pick (.stop fault) = none) (env : Env) (scope : Scope)
    (s : Stmt) : (s.own env scope).filterMap pick
      = s.about?.toList.flatMap fun name => (variableNotes env scope name).filterMap pick := by
  cases s with
  | setProperty name prop given =>
    exact filterMap_componentNotes hpick (filterMap_accessorNotes hpick prop)
  | setVariable name given => exact (flatMap_singleton _ _).symm
  | call e | value e => exact filterMap_exprOwn hpick hstop env scope e
  | unsupported => exact filterMap_note hpick nofun
  | _ => rfl

end Aside

theorem filterMap_variableNotes (hpick : Noteless pick) (env : Env) (scope : Scope)
    (name : String) : (variableNotes env scope name).filterMap pick = [] := by
  unfold variableNotes
  split
  · rfl
  · exact filterMap_cons_none (hpick _)

/-- The looks at the clock for a statement itself, and for an expression that it hands on. -/
def Stmt.looks (s : Stmt) : List Entry := tick :: (Site.handedOn? s).toList.flatMap Expr.look

/-- **A statement looks at the clock, says what its pieces say, and then what it says itself.** -/
theorem stmt_review_eq (s : Stmt) : s.review env scope
      = s.looks ++ (s.pieces.flatMap (Piece.review env scope) ++ s.own env scope) := by
  cases s with
  | branch arms otherwise =>
    rw [Stmt.review, reviewArms_eq]
    cases otherwise <;>
      simp [Stmt.reviewOtherwise, Stmt.looks, Site.handedOn?, Stmt.pieces, Stmt.own,
        flatMap_assoc, Piece.review]
  | call e =>
    rw [Stmt.review, inside_eq, Stmt.pieces, flatMap_map]
    rfl
  | value e =>
    rw [Stmt.review, Expr.review, inside_eq, Stmt.pieces, flatMap_map, Stmt.looks,
      Site.handedOn?, Option.toList_some, flatMap_singleton]
    rfl
  | _ =>
    rw [Stmt.review]
    simp [Stmt.looks, Site.handedOn?, Stmt.pieces, Stmt.own, Piece.review, flatMap_map,
      Kotlin.localScope]

end Code

namespace Site

open Block (Part)
open Code (Aside Timeless exprOf fieldOr stmtOf)

variable {α : Type} {pick : Entry → Option α} (t : Target) (env : Env) (scope : Scope)
  (p : Block.Program) (b : Block)

/-- The journal of a block in a role. -/
def review (env : Env) (scope : Scope) : Role → Block → List Entry
  | .value, b => (exprOf b).review env scope
  | .act, b => (stmtOf b).review env scope

/-- The variable that a block in a role is about. -/
def variableOf? (role : Role) (b : Block) : Option String :=
  if b.kind = .variableGet ∨ (role = .act ∧ b.kind = .variableSet) then
    some (fieldOr b.fields "VAR" "")
  else none

/-- What a block adds to the journal for a part of it: a value slot that holds nothing is noted. -/
def gap (b : Block) : Part → List Entry
  | .slot name => if (b.value? name).isNone then [Code.missingValue name b.type] else []
  | .body _ => []

/-- What a block in a role adds to the journal itself. -/
def own (env : Env) (scope : Scope) : Role → Block → List Entry
  | .value, b => (exprOf b).own env scope
  | .act, b => (stmtOf b).own env scope

/-- The journal of a part is its gap and the journals of the blocks in it. -/
theorem review_piece (part : Part) : (b.piece part).review env scope
      = gap b part ++ (b.inPart part).flatMap (review env (b.newNames part ++ scope) part.role) := by
  cases part with
  | slot name =>
    have hvalue : b.value? name = (b.values.lookup name).join := rfl
    rw [Block.piece, Code.Piece.review, Code.slotExpr_eq, ← hvalue, Block.inPart, gap]
    cases b.value? name with
    | none => simp [Code.heldExpr, Code.Expr.review, Code.Expr.look, Code.Expr.inside]
    | some c => simp [Code.heldExpr, review, Part.role, Block.newNames]
  | body name =>
    rw [Block.piece, Code.Piece.review, Code.reviewAll_eq, Code.bodyIn_eq, flatMap_map]
    rfl

theorem look_exprOf : (exprOf b).look = [Code.tick] := by
  obtain ⟨kind⟩ := b
  cases kind with
  | arithmetic =>
    simp only [exprOf]
    split
    · split <;> rfl
    · rfl
  | compare | logic | methodCall =>
    simp only [exprOf]
    split <;> rfl
  | _ => simp [exprOf, Code.Expr.look]

/-- A statement hands on nothing but the value of its block. -/
theorem eq_exprOf_of_handedOn? {b : Block} {e : Code.Expr}
    (h : handedOn? (stmtOf b) = some e) : e = exprOf b := by
  obtain ⟨kind⟩ := b
  cases kind <;> simp_all [stmtOf, handedOn?]

/-- Whether a block is a value where something is to be done, and so is handed on to be written as
an expression. -/
def isHandedOn (role : Role) (b : Block) : Bool :=
  role == .act && (handedOn? (stmtOf b)).isSome

/-- The looks at the clock for handing a block over. -/
def handovers (role : Role) (b : Block) : List Stage :=
  .blockCompilation :: if isHandedOn role b then [.blockCompilation] else []

theorem filterMap_looks (hpick : Timeless pick) (stages : List Stage) :
    (stages.map Entry.look).filterMap pick = [] := by
  rw [filterMap_map]
  exact filterMap_eq_nil_iff.2 fun stage _ => hpick stage

theorem looks_stmtOf : (stmtOf b).looks = (handovers .act b).map Entry.look := by
  rw [Code.Stmt.looks, handovers, isHandedOn]
  cases hon : handedOn? (stmtOf b) with
  | none => rfl
  | some e =>
    rw [eq_exprOf_of_handedOn? hon, Option.toList_some, flatMap_singleton, look_exprOf]
    rfl

/-- **A block is handed over, says what its parts say, and then what it says itself.** -/
theorem review_eq (role : Role) (b : Block) : review env scope role b
      = (handovers role b).map Entry.look ++ (((b.partsIn role).flatMap fun part => gap b part
        ++ (b.inPart part).flatMap (review env (b.newNames part ++ scope) part.role))
      ++ own env scope role b) := by
  simp only [← review_piece]
  cases role with
  | value =>
    rw [review, Code.Expr.review, look_exprOf, Code.inside_eq, Code.operands_exprOf,
      Block.partsIn, flatMap_map, flatMap_map]
    rfl
  | act =>
    rw [review, Code.stmt_review_eq, looks_stmtOf, Code.pieces_stmtOf, Block.partsIn, flatMap_map]
    rfl

/-- What is picked from a block's own entries is about its variable. -/
theorem filterMap_own (hpick : Aside pick) (hstop : ∀ fault, pick (.stop fault) = none)
    (env : Env) (scope : Scope) (role : Role) (b : Block) :
    (own env scope role b).filterMap pick = (variableOf? role b).toList.flatMap fun name =>
      (Code.variableNotes env scope name).filterMap pick := by
  cases role with
  | value =>
    rw [own, Code.filterMap_exprOwn hpick hstop, Code.about?_exprOf]
    simp [variableOf?]
  | act =>
    rw [own, Code.filterMap_stmtOwn hpick hstop, Code.about?_stmtOf]
    simp [variableOf?]

/-! ### The walk -/

/-- **What blocks gather in order is what the sites have of their own.** -/
theorem gather_eq_sites (gather mine : Role → Scope → Block → List α)
    (h : ∀ role scope b, gather role scope b = ((b.partsIn role).flatMap fun part =>
      (b.inPart part).flatMap (gather part.role (b.newNames part ++ scope))) ++ mine role scope b)
    (t : Target) (root : Root) (levels : List Level) (role : Role) (b : Block) :
    gather role (scopeIn t root levels) b
      = (sitesIn root levels role b).flatMap fun s => mine s.role (s.scope t) s.block := by
  induction b using Block.inductParts generalizing levels role with
  | h b ih =>
    rw [h, sitesIn_eq, flatMap_append, flatMap_assoc, flatMap_singleton]
    refine congrArg (· ++ _) (flatMap_congr fun part _ => ?_)
    rw [flatMap_assoc]
    refine flatMap_congr fun c hc => ?_
    rw [← scopeIn_cons, ih part c hc]

/-- **What blocks gather in some order is what the sites have of their own, in some order.** -/
theorem gather_perm_sites (gather mine : Role → Scope → Block → List α)
    (h : ∀ role scope b, (gather role scope b).Perm (((b.partsIn role).flatMap fun part =>
      (b.inPart part).flatMap (gather part.role (b.newNames part ++ scope))) ++ mine role scope b))
    (t : Target) (root : Root) (levels : List Level) (role : Role) (b : Block) :
    (gather role (scopeIn t root levels) b).Perm
      ((sitesIn root levels role b).flatMap fun s => mine s.role (s.scope t) s.block) := by
  induction b using Block.inductParts generalizing levels role with
  | h b ih =>
    refine (h role _ b).trans ?_
    rw [sitesIn_eq, flatMap_append, flatMap_assoc, flatMap_singleton]
    refine List.Perm.append_right _ (List.Perm.flatMap_left _ fun part _ => ?_)
    rw [flatMap_assoc]
    refine List.Perm.flatMap_left _ fun c hc => ?_
    rw [← scopeIn_cons]
    exact ih part c hc _ _

/-! ### Declarations -/

/-- The blocks that a declaration holds, with what is asked of them. -/
def Root.blocks : Root → List (Role × Block)
  | .initial g => g.value.toList.map fun b => (.value, b)
  | .handler h => h.body.map fun b => (.act, b)
  | .procedure q => (q.body.map fun b => (.act, b))
      ++ if q.returnsValue then q.result.toList.map fun b => (.value, b) else []

/-- The journal of a declaration. -/
def Root.review (t : Target) (env : Env) : Root → List Entry
  | .initial g => ((Code.Global.ofBlock g).value.map fun e => e.review env []).getD []
  | .handler h => t.reviewHandler env (.ofBlock h)
  | .procedure q => Kotlin.reviewProcedure env (.ofBlock q)

/-- What a declaration adds to the journal itself: a handler that cannot be bound, and a procedure
without the value that it should return. -/
def Root.own (t : Target) : Root → List Entry
  | .initial _ => []
  | .handler h => t.bindingNotes (.ofBlock h)
  | .procedure q =>
    if q.returnsValue && q.result.isNone then [Code.missingValue "RETURN" q.name] else []

theorem Root.sites_eq (root : Root) :
    root.sites = root.blocks.flatMap fun b => sitesIn root [] b.1 b.2 := by
  cases root with
  | initial g | handler h => rw [sites, blocks, flatMap_map]
  | procedure q =>
    rw [sites, blocks, flatMap_append, flatMap_map]
    split
    · rw [flatMap_map]
    · rfl

/-- The sites of a program are those of its roots. -/
theorem mem_sites {p : Block.Program} {s : Site} : s ∈ p.sites ↔
    ∃ root ∈ roots p, ∃ b ∈ root.blocks, s ∈ sitesIn root [] b.1 b.2 := by
  simp only [Block.Program.sites, Root.sites_eq, mem_flatMap]

theorem review_blocks (blocks : List Block) :
    Code.Stmt.reviewAll env scope (Code.stmtsOf blocks)
      = blocks.flatMap (Site.review env scope .act) := by
  rw [Code.reviewAll_eq, Code.stmtsOf_eq_map, flatMap_map]
  rfl

/-- The looks at the clock for a declaration itself: for a handler, and for a procedure. -/
def Root.handovers : Root → List Stage
  | .initial _ => []
  | .handler _ => [.blockCompilation]
  | .procedure _ => [.blockCompilation]

/-- **A declaration is looked at, says what its blocks say, and then what it says itself.** -/
theorem Root.review_eq (root : Root) : root.review t env = root.handovers.map Entry.look
      ++ ((root.blocks.flatMap fun b => Site.review env (root.names t) b.1 b.2) ++ root.own t) := by
  cases root with
  | initial g =>
    cases hvalue : g.value with
    | none => simp [review, blocks, own, handovers, Code.Global.ofBlock, hvalue]
    | some b =>
      simp [review, blocks, own, handovers, Code.Global.ofBlock, hvalue, Site.review, names]
  | handler h =>
    rw [review, Target.reviewHandler, blocks, flatMap_map]
    exact congrArg (_ :: · ++ _) (review_blocks env _ h.body)
  | procedure q =>
    rw [review, Kotlin.reviewProcedure, blocks, flatMap_append, flatMap_map,
      append_assoc, handovers, map_singleton, singleton_append]
    refine congrArg (_ :: ·) (congrArg₂ (· ++ ·) (review_blocks env _ q.body) ?_)
    cases hreturns : q.returnsValue with
    | false => simp [Code.Procedure.ofBlock, hreturns, own]
    | true =>
      cases hresult : q.result with
      | none =>
        simp [Code.Procedure.ofBlock, hreturns, hresult, own, Code.heldExpr, Code.Expr.review,
          Code.Expr.look, Code.Expr.inside]
      | some b =>
        simp [Code.Procedure.ofBlock, hreturns, hresult, own, Code.heldExpr, Site.review, names]

/-! ### Programs -/

/-- The notes of declarations whose names are taken. -/
def duplicateNotes (p : Block.Program) : List Entry :=
  (Code.repeats (p.globals.map Block.Global.name)).map (Kotlin.duplicateNote "Global variable")
    ++ (Code.repeats (p.procedures.map Block.Procedure.name)).map
      (Kotlin.duplicateNote "Procedure")

/-- **The journal of a program: its duplicates, and then its declarations.** -/
theorem review_ofBlocks : t.review (.ofBlocks p) = duplicateNotes p
      ++ (roots p).flatMap (Root.review t (t.naming (.ofBlocks p))) := by
  have hhandlers : (Code.Program.ofBlocks p).handlers = p.handlers.map Code.Handler.ofBlock := rfl
  have hglobals : (Code.Program.ofBlocks p).globals.map Code.Global.name
      = p.globals.map Block.Global.name := by
    simp [Code.Program.ofBlocks, Code.Global.ofBlock]
  have hprocedures : (Code.Program.ofBlocks p).procedures.map Code.Procedure.name
      = p.procedures.map Block.Procedure.name := by
    simp [Code.Program.ofBlocks, Code.Procedure.ofBlock]
  simp only [Target.review, hglobals, hprocedures, firsts_globals, firsts_procedures, hhandlers,
    flatMap_map, duplicateNotes, roots, flatMap_append, append_assoc]
  rfl

theorem filterMap_gap (hpick : Aside pick) (b : Block) (part : Part) :
    (gap b part).filterMap pick = [] := by
  cases part with
  | slot name =>
    rw [gap]
    split
    · exact Code.filterMap_note hpick nofun
    · rfl
  | body name => rfl

theorem Root.filterMap_own (hpick : Aside pick) (t : Target) (root : Root) :
    (root.own t).filterMap pick = [] := by
  cases root with
  | initial g => rfl
  | handler h =>
    rw [own]
    unfold Target.bindingNotes
    split
    · exact Code.filterMap_reference hpick (by decide) _
    · split
      · rfl
      · exact Code.filterMap_note hpick nofun
  | procedure q =>
    rw [own]
    split
    · exact Code.filterMap_note hpick nofun
    · rfl

theorem filterMap_duplicateNotes (hpick : Aside pick) (p : Block.Program) :
    (duplicateNotes p).filterMap pick = [] := by
  have hmap : ∀ (what : String) (names : List String),
      (names.map (Kotlin.duplicateNote what)).filterMap pick = [] := by
    intro what names
    induction names with
    | nil => rfl
    | cons name rest ih =>
      rw [map_cons, ← singleton_append, filterMap_append, ih, append_nil]
      exact Code.filterMap_note hpick nofun
  rw [duplicateNotes, filterMap_append, hmap, hmap, append_nil]

/-- **What is picked out of the journal of a program is picked at its sites**, if neither looks at
the clock nor notes count, apart from those of variables. -/
theorem filterMap_sites (htimeless : Timeless pick) (hpick : Aside pick) (t : Target)
    (p : Block.Program) : (t.review (.ofBlocks p)).filterMap pick = p.sites.flatMap fun s =>
      (own (t.naming (.ofBlocks p)) (s.scope t) s.role s.block).filterMap pick := by
  have hgather := fun root => gather_eq_sites
    (fun role scope b => (review (t.naming (.ofBlocks p)) scope role b).filterMap pick)
    (fun role scope b => (own (t.naming (.ofBlocks p)) scope role b).filterMap pick)
    (fun role scope b => by
      rw [review_eq, filterMap_append, filterMap_looks htimeless, nil_append,
        filterMap_append, filterMap_flatMap]
      simp only [filterMap_append, filterMap_gap hpick, nil_append, filterMap_flatMap]) t root []
  rw [review_ofBlocks, filterMap_append, filterMap_duplicateNotes hpick, nil_append,
    filterMap_flatMap, Block.Program.sites, flatMap_assoc]
  refine flatMap_congr fun root _ => ?_
  rw [Root.review_eq, filterMap_append, filterMap_looks htimeless, filterMap_append,
    Root.filterMap_own hpick, append_nil, filterMap_flatMap, Root.sites_eq,
    flatMap_assoc]
  exact flatMap_congr fun b _ => hgather root b.1 b.2

/-- What the block of a site adds to the journal, apart from its parts. -/
def remarks (t : Target) (p : Block.Program) (s : Site) : List Entry :=
  ((s.block.partsIn s.role).flatMap (gap s.block))
    ++ own (t.naming (.ofBlocks p)) (s.scope t) s.role s.block

/-- **The journal of a program, in some order**: its duplicates, the looks at its declarations and
what they say themselves, and the same of its sites. -/
theorem review_perm_sites : (t.review (.ofBlocks p)).Perm (duplicateNotes p
      ++ (((roots p).flatMap fun root => root.handovers.map Entry.look ++ root.own t)
      ++ p.sites.flatMap fun s =>
        (handovers s.role s.block).map Entry.look ++ s.remarks t p)) := by
  have hgather := fun root => gather_perm_sites
    (fun role scope b => review (t.naming (.ofBlocks p)) scope role b)
    (fun role scope b => (handovers role b).map Entry.look
      ++ ((b.partsIn role).flatMap (gap b) ++ own (t.naming (.ofBlocks p)) scope role b))
    (fun role scope b => by
      rw [review_eq, ← append_assoc, ← append_assoc, ← append_assoc]
      refine List.Perm.append_right _ ?_
      refine ((flatMap_append_perm _ _ _).symm.append_left _).trans ?_
      rw [← append_assoc, append_assoc _ _ (List.flatMap (gap b) _)]
      exact perm_append_comm) t root []
  rw [review_ofBlocks, Block.Program.sites, flatMap_assoc]
  refine List.Perm.append_left _ ?_
  refine List.Perm.trans ?_ (flatMap_append_perm _ _ _).symm
  refine List.Perm.flatMap_left _ fun root _ => ?_
  rw [Root.review_eq, append_assoc, Root.sites_eq, flatMap_assoc]
  refine List.Perm.append_left _ (perm_append_comm.trans (List.Perm.append_left _ ?_))
  exact List.Perm.flatMap_left _ fun b _ => hgather root b.1 b.2

/-- **A program notes its duplicates, what its declarations say themselves and what its sites
remark**, in some order. -/
theorem notes_program :
    (Journal.notes (t.review (.ofBlocks p))).Perm (Journal.notes (duplicateNotes p)
      ++ (((roots p).flatMap fun root => Journal.notes (root.own t))
      ++ p.sites.flatMap fun s => Journal.notes (s.remarks t p))) := by
  have hlooks : ∀ stages : List Stage, (stages.map Entry.look).filterMap Entry.noted? = [] :=
    filterMap_looks fun _ => rfl
  simpa only [Journal.notes_eq_filterMap, filterMap_append, filterMap_flatMap, hlooks,
    nil_append] using (review_perm_sites t p).filterMap Entry.noted?

end Site
end ScreenForge
