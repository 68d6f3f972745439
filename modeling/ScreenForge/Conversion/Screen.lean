/-
# Converting a screen

A screen has a layout descriptor and a block descriptor.  The layout gives a tree of components and
from it a layout file; the blocks give a program and from it an activity that refers to the layout.

`draft` does all of it and keeps one journal; `convertScreen` settles the journal under a timer.
A descriptor that is refused as a whole makes the screen fail; a deadline that passes, and what no
descriptor should hold, ends the run.
-/
import ScreenForge.Kotlin.Activity
import ScreenForge.Layout.Reading
import ScreenForge.Settings.Basic

namespace ScreenForge
namespace Conversion

open Journal (Entry)

/-- The two descriptors of a screen. -/
structure ScreenSource where
  name : String
  layout : String
  blocks : String := ""

/-- A converted screen: files by path, and what was noted. -/
structure Screen where
  name : String
  artifacts : List (String × String)
  /-- The name that the app goes by, if the screen gives one. -/
  appName : Option String := none
  diagnostics : List Diagnostic := []

/-- A screen that could not be converted. -/
structure ScreenFailure where
  screen : String
  /-- A refused descriptor. -/
  cause : Fault

/-- The reason of a failure in words. -/
def ScreenFailure.reason (f : ScreenFailure) : String := f.cause.message

/-- How the conversion of a screen ends. -/
inductive Outcome (α : Type) where
  | converted (result : α)
  | failed (failure : ScreenFailure)

/-- The name of the layout file. -/
def layoutName : String := "activity_main"

/-- The name of the activity. -/
def activityName : String := "MainActivity"

/-- The name that a screen gives the app: its own property, or else its title. -/
def appNameOf (screen : Component.Node) : Option String :=
  let given := (screen.properties.lookup "AppName").filter Component.Scalar.isGiven
  match given <|> screen.properties.lookup "Title" with
  | none => none
  | some v => if v = .text "" then none else some v.display

/-- The directory of a package. -/
def packagePath (package : String) : String :=
  String.ofList (package.toList.map fun c => if c = '.' then '/' else c)

/-- The path of the layout file. -/
def layoutPath : String := "app/src/main/res/layout/" ++ layoutName ++ ".xml"

/-- The path of the activity. -/
def activityPath (package : String) : String :=
  "app/src/main/java/" ++ packagePath package ++ "/" ++ activityName ++ ".kt"

/-- A conversion as far as it goes: the journal, and the screen or what refuses it. -/
structure Draft where
  journal : List Entry
  result : Except Fault Screen

/-- The program of a block descriptor's root, empty without one. -/
def programOf (root : Option Markup.Element) : Block.Program :=
  (root.map Block.programOf).getD {}

/-- The journal of reading a block descriptor's root. -/
def visitingOf (limit : Int) (root : Option Markup.Element) : List Entry :=
  (root.map (Block.visitingRoot limit)).getD []

/-- The conversion of a screen without regard to time. -/
def draft (table : Component.Table) (limits : Limits) (repair : Bool) (source : ScreenSource)
    (package : String) : Draft :=
  match Layout.form source.layout limits repair with
  | .error e => ⟨[], .error (.malformedLayout e)⟩
  | .ok form =>
    let screen := Layout.screenOf form
    let view := Layout.ofScreen table .empty screen
    let layoutJournal :=
      Layout.journalOf (some source.name) form ++ Layout.placingScreen table screen
    match Block.rootOf source.blocks limits with
    | .error e => ⟨layoutJournal, .error (.malformedBlocks e)⟩
    | .ok root =>
      let program := Code.Program.ofBlocks (programOf root)
      let target : Kotlin.Target :=
        { package, activity := activityName, layoutName, components := view.index, table }
      let journal := layoutJournal ++ visitingOf limits.maxDepth root ++ target.review program
      ⟨journal, .ok
        { name := source.name
          artifacts := [(layoutPath, view.render activityName),
            (activityPath package, target.source program)]
          appName := appNameOf screen
          diagnostics := Journal.notes journal }⟩

/-- Whether a fault is a refused descriptor. -/
def isRefusal : Fault → Bool
  | .malformedLayout _ => true
  | .malformedBlocks _ => true
  | _ => false

/-- A fault as an end of the conversion of a screen: a refusal makes the screen fail. -/
def endOf (screen : String) (fault : Fault) : Except Fault (Outcome Screen) :=
  if isRefusal fault then .ok (.failed ⟨screen, fault⟩) else .error fault

/-- What a draft comes to under a timer. -/
def Draft.settle (timer : Timer) (screen : String) (d : Draft) : Except Fault (Outcome Screen) :=
  match Journal.stopped? timer 0 d.journal with
  | some fault => endOf screen fault
  | none =>
    match d.result with
    | .error fault => endOf screen fault
    | .ok s => .ok (.converted s)

/-- The conversion of a screen under a timer. -/
def convertScreen (table : Component.Table) (settings : Settings) (timer : Timer)
    (source : ScreenSource) (package : String) : Except Fault (Outcome Screen) :=
  (draft table settings.limits settings.repairDescriptors source package).settle timer source.name

end Conversion
end ScreenForge
