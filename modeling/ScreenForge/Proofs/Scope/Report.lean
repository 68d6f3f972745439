/-
# Which variables are reported

Of the notes in a journal, those of variables that stand for nothing are picked out
(`variableReport?`), and a block leaves one for the variable that it is about.
-/
import ScreenForge.Proofs.Kotlin.Binding
import ScreenForge.Proofs.Scope.Entries

namespace ScreenForge
namespace Site

open Journal (Entry)
open Kotlin (Env Scope Target)

/-- The variable that an entry reports to stand for nothing. -/
def variableReport? : Entry → Option String
  | .note d => d.subject.filter fun name => Entry.note d = Code.unresolved "variable" name
  | _ => none

/-- The variables that a journal reports, in order. -/
def reports (journal : List Entry) : List String := journal.filterMap variableReport?

/-- **A reference that stands for nothing is a report of a variable exactly if it is one.** -/
theorem reports_unresolved (what name : String) :
    reports [Code.unresolved what name] = if what = "variable" then [name] else [] := by
  have hiff : Code.unresolved what name = Code.unresolved "variable" name ↔ what = "variable" := by
    simp [Code.unresolved, Diagnostic.error]
    exact Iff.rfl
  have hreport : variableReport? (Code.unresolved what name)
      = (some name).filter fun n => Code.unresolved what name = Code.unresolved "variable" n := rfl
  rw [reports, List.filterMap_cons, hreport]
  by_cases h : what = "variable"
  · simp [Option.filter, h]
  · simp [Option.filter, hiff, h]

theorem aside_variableReport? : Code.Aside variableReport? := by
  intro d h
  simp [variableReport?, h]

/-- A variable is reported if it stands for nothing. -/
theorem reports_variableNotes (env : Env) (scope : Scope) (name : String) :
    reports (Code.variableNotes env scope name)
      = [name].filter fun name => (env.binding? scope name).isNone := by
  unfold Code.variableNotes
  cases h : env.binding? scope name with
  | none => simp [h, reports_unresolved]
  | some text => simp [h, reports]

/-- What is reported among variables: those that stand for nothing. -/
def unbound (env : Env) (scope : Scope) (names : List String) : List String :=
  names.filter fun name => (env.binding? scope name).isNone

/-- What a site reports: its variable, if that stands for nothing in what the site sees. -/
def ownReports (env : Env) (t : Target) (s : Site) : List String :=
  unbound env (s.scope t) (variableOf? s.role s.block).toList

/-- **The journal of a program reports what its sites report, in the order of the walk.** -/
theorem reports_program (t : Target) (p : Block.Program) :
    reports (t.review (.ofBlocks p))
      = p.sites.flatMap (ownReports (t.naming (.ofBlocks p)) t) := by
  rw [reports, filterMap_sites (fun _ => rfl) aside_variableReport?]
  refine List.flatMap_congr fun s _ => ?_
  rw [filterMap_own aside_variableReport? (fun _ => rfl), ownReports]
  cases variableOf? s.role s.block with
  | none => rfl
  | some name =>
    rw [Option.toList_some, List.flatMap_singleton]
    exact reports_variableNotes _ _ name

end Site
end ScreenForge
