/-
# The stages of a conversion

A layout descriptor gives components, these a view, a block descriptor blocks, and these with the
index of the view the text of an activity.  A stage that runs by itself looks at no deadline
(`alone`).  A conversion keeps one journal for all four.
-/
import ScreenForge.Proofs.Conversion.Agreement
import ScreenForge.Proofs.Journal

namespace ScreenForge
namespace Conversion

open Component (Table)
open Journal (Entry stops)
open Layout (View)

/-! ### A stage by itself -/

/-- What a stage gives by itself: its result and what it noted, or its first fault. -/
def alone {α : Type} (journal : List Entry) (result : α) : Except Fault (α × List Diagnostic) :=
  (Journal.settle .unlimited journal).map fun notes => (result, notes)

theorem alone_of_stops_eq_nil {α : Type} {journal : List Entry} (h : stops journal = [])
    (result : α) : alone journal result = .ok (result, Journal.notes journal) := by
  rw [alone, Journal.settle_unlimited_eq_ok_iff.2 ⟨h, rfl⟩]
  rfl

/-- The components of a layout descriptor. -/
def parsedLayout (settings : Settings) (source : ScreenSource) :
    Except Fault (Component.Node × List Diagnostic) :=
  match Layout.form source.layout settings.limits settings.repairDescriptors with
  | .error e => .error (.malformedLayout e)
  | .ok form => alone (Layout.journalOf (some source.name) form) (Layout.screenOf form)

/-- The view of components. -/
def placedLayout (table : Table) (screen : Component.Node) :
    Except Fault (View × List Diagnostic) :=
  alone (Layout.placingScreen table screen) (Layout.ofScreen table .empty screen)

/-- The blocks of a block descriptor. -/
def parsedBlocks (settings : Settings) (source : ScreenSource) :
    Except Fault (Block.Program × List Diagnostic) :=
  match Block.rootOf source.blocks settings.limits with
  | .error e => .error (.malformedBlocks e)
  | .ok root => alone (visitingOf settings.limits.maxDepth root) (programOf root)

/-- The activity of blocks, for a view. -/
def compiledBlocks (table : Table) (package : String) (view : View) (blocks : Block.Program) :
    Except Fault (String × List Diagnostic) :=
  let target : Kotlin.Target :=
    { package, activity := activityName, layoutName, components := view.index, table }
  alone (target.review (.ofBlocks blocks)) (target.source (.ofBlocks blocks))

/-- The four stages of a conversion, each run by itself on what the ones before it gave, and what
each of them noted. -/
structure Stages (table : Table) (settings : Settings) (source : ScreenSource)
    (package : String) where
  components : Component.Node
  view : View
  blocks : Block.Program
  text : String
  parserNotes : List Diagnostic
  generatorNotes : List Diagnostic
  readerNotes : List Diagnostic
  compilerNotes : List Diagnostic
  parsed : parsedLayout settings source = .ok (components, parserNotes)
  placed : placedLayout table components = .ok (view, generatorNotes)
  read : parsedBlocks settings source = .ok (blocks, readerNotes)
  compiled : compiledBlocks table package view blocks = .ok (text, compilerNotes)

/-- All that the stages noted, in order. -/
def Stages.notes {table : Table} {settings : Settings} {source : ScreenSource} {package : String}
    (stages : Stages table settings source package) : List Diagnostic :=
  stages.parserNotes ++ stages.generatorNotes ++ stages.readerNotes ++ stages.compilerNotes

/-! ### The stages of a conversion -/

section
variable {table : Table} {settings : Settings} {timer : Timer} {source : ScreenSource}
  {package : String} {screen : Screen}

variable (h : convertScreen table settings timer source package = .ok (.converted screen))
include h

/-- A converted screen goes by the name of its source and has the notes of its journal. -/
theorem noted_of_converted : screen.name = source.name ∧ screen.diagnostics = Journal.notes
      (draft table settings.limits settings.repairDescriptors source package).journal := by
  have hresult := result_of_converted h
  unfold draft at hresult ⊢
  split at hresult
  · cases hresult
  · dsimp only at hresult ⊢
    split at hresult
    · cases hresult
    · next hroot =>
      injection hresult with hresult
      rw [← hresult]
      exact ⟨rfl, rfl⟩

theorem stopped?_of_converted : Journal.stopped? timer 0
      (draft table settings.limits settings.repairDescriptors source package).journal = none := by
  unfold convertScreen Draft.settle at h
  split at h
  · exact absurd h (endOf_ne_converted _ _ _)
  · assumption

/-- **A conversion notes what its stages note**: if it comes to its end then so does each stage by
itself, and the notes are theirs, one after the other. -/
theorem exists_stages_of_converted :
    ∃ stages : Stages table settings source package, screen.diagnostics = stages.notes := by
  obtain ⟨form, root, hform, hroot, -⟩ := artifacts_of_converted h
  obtain ⟨-, hnotes⟩ := noted_of_converted h
  have hstops := Journal.stops_eq_nil_of_stopped? (stopped?_of_converted h)
  unfold draft at hnotes hstops
  simp only [hform, hroot, Journal.stops_append, List.append_eq_nil_iff] at hnotes hstops
  obtain ⟨⟨⟨hparsed, hplaced⟩, hread⟩, hcompiled⟩ := hstops
  have hlayout : parsedLayout settings source
      = .ok (Layout.screenOf form, Journal.notes (Layout.journalOf (some source.name) form)) := by
    rw [parsedLayout, hform]
    exact alone_of_stops_eq_nil hparsed _
  have hblocks : parsedBlocks settings source
      = .ok (programOf root, Journal.notes (visitingOf settings.limits.maxDepth root)) := by
    rw [parsedBlocks, hroot]
    exact alone_of_stops_eq_nil hread _
  refine ⟨⟨_, _, _, _, _, _, _, _, hlayout, alone_of_stops_eq_nil hplaced _, hblocks,
    alone_of_stops_eq_nil hcompiled _⟩, ?_⟩
  rw [hnotes]
  simp only [Journal.notes_append]
  rfl

end

end Conversion
end ScreenForge
