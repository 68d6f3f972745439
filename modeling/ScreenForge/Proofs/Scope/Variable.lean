/-
# Variables are resolved by the blocks around them

| variable | bound at a site if |
| --- | --- |
| `global x` | a global variable `x` is declared |
| any other | it is a parameter of the event or the procedure, or new in a body around the site |

Only blocks that are in their place count: a block that sets a variable where a value is asked for
is no assignment.
-/
import ScreenForge.Proofs.Scope.Report
import ScreenForge.Proofs.Scope.Written

namespace ScreenForge
namespace Site

open List
open Code (exprOf fieldOr)
open Kotlin (Scope Target globalName? identifier)
open Text (Within)

variable {t : Target} {s : Site} {p : Block.Program}

/-- **Whether a variable stands for something at a site.** -/
def Bound (t : Target) (p : Block.Program) (s : Site) (name : String) : Prop :=
  match globalName? name with
  | some x => ∃ g ∈ p.globals, g.name = x
  | none => name ∈ s.root.names t ∨ ∃ l ∈ s.levels, name ∈ l.owner.newNames l.part

theorem mem_scope_iff {name : String} :
    name ∈ s.scope t ↔ name ∈ s.root.names t ∨ ∃ l ∈ s.levels, name ∈ l.owner.newNames l.part := by
  rw [scope, scopeIn, mem_append, mem_flatMap, or_comm]

/-- What is bound at a site is bound in its scope. -/
theorem bound_iff {name : String} :
    s.Bound t p name ↔ Kotlin.Bound (.ofBlocks p) (s.scope t) name := by
  unfold Bound Kotlin.Bound
  cases globalName? name with
  | some x => simp [Code.Program.ofBlocks, Code.Global.ofBlock]
  | none => exact mem_scope_iff.symm

instance (t : Target) (p : Block.Program) (s : Site) (name : String) :
    Decidable (s.Bound t p name) :=
  decidable_of_iff _ bound_iff.symm

/-- A site reports its variable if that is not bound. -/
theorem ownReports_eq (t : Target) (p : Block.Program) (s : Site) :
    ownReports (t.naming (.ofBlocks p)) t s
      = (variableOf? s.role s.block).toList.filter fun name => ¬ s.Bound t p name := by
  refine filter_congr fun name _ => ?_
  rw [Bool.eq_iff_iff, decide_eq_true_iff, bound_iff, ← Kotlin.isSome_binding? (t := t),
    Option.isNone_iff_eq_none, Bool.not_eq_true, Option.isSome_eq_false_iff,
    Option.isNone_iff_eq_none]

/-- What a bound variable is written as: a local one as the identifier of its name, a global one as
its member. -/
def variableText (t : Target) (p : Block.Program) (scope : Scope) (name : String) : String :=
  match globalName? name with
  | some x => (t.naming (.ofBlocks p)).member scope
      (((t.naming (.ofBlocks p)).globals.lookup x).getD "")
  | none => identifier name

theorem binding?_eq (t : Target) (p : Block.Program) (s : Site) (name : String) :
    (t.naming (.ofBlocks p)).binding? (s.scope t) name
      = if s.Bound t p name then some (variableText t p (s.scope t) name) else none := by
  by_cases h : s.Bound t p name
  · rw [if_pos h]
    have hsome := (Kotlin.isSome_binding? (t := t)).2 (bound_iff.1 h)
    obtain ⟨text, htext⟩ := Option.isSome_iff_exists.1 hsome
    rw [htext]
    rcases Kotlin.binding?_eq_some_iff.1 htext with ⟨x, word, hg, hw, rfl⟩ | ⟨hg, -, rfl⟩
    · simp [variableText, hg, hw]
    · simp [variableText, hg]
  · rw [if_neg h]
    rw [bound_iff, ← Kotlin.isSome_binding? (t := t)] at h
    simpa using h

/-- The name of the variable that a block gets or sets. -/
def variableName (b : Block) : String := fieldOr b.fields "VAR" ""

/-- The text of the value that a block assigns. -/
def assignedText (t : Target) (p : Block.Program) (s : Site) : String :=
  Kotlin.exprText (t.naming (.ofBlocks p)) (s.scope t)
    (Code.slotExpr s.block.type "VALUE" s.block.values)

/-- A bound variable is written as what it stands for, any other as a placeholder. -/
theorem lines_of_variableGet (h : s.block.kind = .variableGet) :
    s.lines t p = [if s.Bound t p (variableName s.block)
      then variableText t p (s.scope t) (variableName s.block)
      else Kotlin.unresolvedCall "variable" (variableName s.block)] := by
  have htext : Kotlin.exprText (t.naming (.ofBlocks p)) (s.scope t) (exprOf s.block)
      = ((t.naming (.ofBlocks p)).binding? (s.scope t) (variableName s.block)).getD
        (Kotlin.unresolvedCall "variable" (variableName s.block)) := by
    generalize s.scope t = scope
    obtain ⟨root, levels, role, ⟨kind, type, id, fields, mutation, args, values, statements⟩⟩ := s
    obtain rfl : kind = .variableGet := h
    simp only [exprOf, Kotlin.exprText, variableName]
  have hlines : s.lines t p
      = [Kotlin.exprText (t.naming (.ofBlocks p)) (s.scope t) (exprOf s.block)] := by
    unfold lines
    generalize s.scope t = scope
    obtain ⟨root, levels, role, ⟨kind⟩⟩ := s
    obtain rfl : kind = .variableGet := h
    cases role with
    | value => rfl
    | act => simp only [linesIn, Code.stmtOf, Kotlin.stmtLines]
  rw [hlines, htext, binding?_eq]
  split <;> rfl

theorem lines_of_variableSet (h : s.block.kind = .variableSet) (hrole : s.role = .act) :
    s.lines t p = [if s.Bound t p (variableName s.block)
      then variableText t p (s.scope t) (variableName s.block) ++ " = " ++ s.assignedText t p
      else "// unresolved variable '" ++ variableName s.block ++ "' = " ++ s.assignedText t p] := by
  have hlines : s.lines t p = [Kotlin.setVariableLine (t.naming (.ofBlocks p)) (s.scope t)
      (variableName s.block) (Code.slotExpr s.block.type "VALUE" s.block.values)] := by
    unfold lines
    generalize s.scope t = scope
    obtain ⟨root, levels, role, ⟨kind⟩⟩ := s
    obtain rfl : kind = .variableSet := h
    obtain rfl : role = .act := hrole
    simp only [linesIn, Code.stmtOf, Kotlin.stmtLines, variableName]
  rw [hlines, Kotlin.setVariableLine, binding?_eq]
  by_cases hb : s.Bound t p (variableName s.block)
  · simp only [if_pos hb]
    rfl
  · simp only [if_neg hb]
    rfl

/-- An assignment in place of a value is written as a placeholder, whatever its variable. -/
theorem lines_of_misplaced (h : s.block.kind = .variableSet) (hrole : s.role = .value) :
    s.lines t p = [Kotlin.errorCall ("statement used as value: " ++ s.block.type)] := by
  unfold lines
  generalize s.scope t = scope
  obtain ⟨root, levels, role, ⟨kind⟩⟩ := s
  obtain rfl : kind = .variableSet := h
  obtain rfl : role = .value := hrole
  simp only [linesIn, exprOf, Kotlin.exprText]

/-- What is noted about a statement that stands in place of a value. -/
def misplacedReport (b : Block) : Diagnostic :=
  .error .opaqueBlock s!"Statement block {b.type} used as a value" (some b.type)

/-- It is noted as misplaced, and nothing else is. -/
theorem notes_own_of_misplaced (h : s.block.kind = .variableSet) (hrole : s.role = .value) :
    Journal.notes (own (t.naming (.ofBlocks p)) (s.scope t) s.role s.block)
      = [misplacedReport s.block] := by
  generalize s.scope t = scope
  obtain ⟨root, levels, role, ⟨kind⟩⟩ := s
  obtain rfl : kind = .variableSet := h
  obtain rfl : role = .value := hrole
  simp only [own, exprOf, Code.Expr.own]
  rfl

/-- Items that each have an image in what they give have their images in all that is given. -/
theorem map_filter_sublist_flatMap {α β : Type} {test : α → Bool} {image : α → β}
    {give : α → List β} {items : List α} (h : ∀ a, test a → image a ∈ give a) :
    ((items.filter test).map image).Sublist (items.flatMap give) := by
  induction items with
  | nil => exact .slnil
  | cons a rest ih =>
    rw [flatMap_cons]
    by_cases ha : test a
    · rw [filter_cons_of_pos ha, map_cons]
      exact (singleton_sublist.2 (h a ha)).append ih
    · rw [filter_cons_of_neg ha]
      exact ih.trans (sublist_append_right _ _)

/-- **Every assignment in place of a value is noted**, each by a note of its own. -/
theorem misplaced_subperm_notes (t : Target) (p : Block.Program) :
    ((p.sites.filter fun s => s.block.kind = .variableSet ∧ s.role = .value).map fun s =>
      misplacedReport s.block).Subperm (Journal.notes (t.review (.ofBlocks p))) := by
  have hsites : ((p.sites.filter fun s => s.block.kind = .variableSet ∧ s.role = .value).map
      fun s => misplacedReport s.block).Sublist
        (p.sites.flatMap fun s => Journal.notes (s.remarks t p)) := by
    refine map_filter_sublist_flatMap fun s hs => ?_
    obtain ⟨hkind, hrole⟩ := of_decide_eq_true hs
    rw [remarks, Journal.notes_append, notes_own_of_misplaced hkind hrole]
    exact mem_append_right _ (mem_singleton_self _)
  refine List.Subperm.trans (hsites.trans ?_).subperm (notes_program t p).symm.subperm
  exact (sublist_append_right _ _).trans (sublist_append_right _ _)

/-- **Variables are resolved by the blocks around them.**  On the walk over a program exactly the
blocks in their place whose variable is not bound are reported, in order.  A block that gets or sets
a variable is written with what the variable stands for, or as the placeholder or the comment that
it stands for nothing, and that stands in the source unless a block around it is replaced.  A block
that sets a variable in place of a value is replaced itself, and noted as misplaced. -/
theorem variables_resolved_by_levels (t : Target) (p : Block.Program) :
    reports (t.review (.ofBlocks p)) = (p.sites.flatMap fun s =>
      (variableOf? s.role s.block).toList.filter fun name => ¬ s.Bound t p name) ∧
    ((p.sites.filter fun s => s.block.kind = .variableSet ∧ s.role = .value).map fun s =>
      misplacedReport s.block).Subperm (Journal.notes (t.review (.ofBlocks p))) ∧
    ∀ s ∈ p.sites,
      (s.block.kind = .variableGet →
        s.lines t p = [if s.Bound t p (variableName s.block)
          then variableText t p (s.scope t) (variableName s.block)
          else Kotlin.unresolvedCall "variable" (variableName s.block)]) ∧
      (s.block.kind = .variableSet → s.role = .act →
        s.lines t p = [if s.Bound t p (variableName s.block)
          then variableText t p (s.scope t) (variableName s.block) ++ " = " ++ s.assignedText t p
          else "// unresolved variable '" ++ variableName s.block ++ "' = "
            ++ s.assignedText t p]) ∧
      (s.block.kind = .variableSet → s.role = .value →
        s.lines t p = [Kotlin.errorCall ("statement used as value: " ++ s.block.type)]) ∧
      (s.Kept t p → ∀ line ∈ s.lines t p, Within line (t.source (.ofBlocks p))) := by
  refine ⟨?_, misplaced_subperm_notes t p, fun s hs => ⟨lines_of_variableGet, lines_of_variableSet,
    lines_of_misplaced, within_source hs⟩⟩
  rw [reports_program]
  exact flatMap_congr fun s _ => ownReports_eq t p s

/-- An assignment to a variable. -/
def assignmentBlock (name : String) : Block :=
  { kind := .variableSet, type := "lexical_variable_set", fields := [("VAR", name)] }

/-- A procedure that returns an assignment. -/
def returningAssignment (name : String) : Block.Procedure :=
  { name := "f", returnsValue := true, result := some (assignmentBlock name) }

/-- The walk meets an assignment to a variable that nobody declares, and reports no variable. -/
theorem misplaced_assignment_not_reported :
    (∃ s ∈ Block.Program.sites ⟨[], [], [returningAssignment "x"]⟩, s.block.kind = .variableSet ∧
        ¬ s.Bound { package := "app" } ⟨[], [], [returningAssignment "x"]⟩
          (variableName s.block)) ∧
    reports (Target.review { package := "app" } (.ofBlocks ⟨[], [], [returningAssignment "x"]⟩))
      = [] := by
  have hsites : Block.Program.sites ⟨[], [], [returningAssignment "x"]⟩
      = [⟨.procedure (returningAssignment "x"), [], .value, assignmentBlock "x"⟩] := by
    have hroots : roots ⟨[], [], [returningAssignment "x"]⟩
        = [.procedure (returningAssignment "x")] := rfl
    rw [Block.Program.sites, hroots, flatMap_singleton]
    simp [Root.sites, returningAssignment, sitesIn_eq, Block.partsIn, Block.operandSlots,
      assignmentBlock]
  refine ⟨⟨_, hsites ▸ mem_singleton.2 rfl, rfl, by decide⟩, ?_⟩
  rw [reports_program, hsites]
  rfl

end Site
end ScreenForge
