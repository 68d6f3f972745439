/-
# Converting a project

A project is converted by converting its screen and assembling the files around it.  How that ends
is recorded in the metrics: as a success with its diagnostics, as a failure of the screen, or as a
timeout.  Any other end leaves no record.
-/
import ScreenForge.Metrics
import ScreenForge.Project.Archive
import ScreenForge.Project.Assembly

namespace ScreenForge
namespace Conversion

/-- The package of a project: its name in small letters below a stem, if there is one. -/
def packageName (stem name : String) : String :=
  let segment := Text.lower (Kotlin.identifier name .lower)
  if stem = "" then segment else stem ++ "." ++ segment

/-- A converted project. -/
structure Converted where
  name : String
  files : Project.Files
  diagnostics : List Diagnostic

/-- The name that a project goes by. -/
def projectNameOf (settings : Settings) (given : Option String) : String :=
  match given with
  | none => settings.defaultProjectName
  | some name => if name = "" then settings.defaultProjectName else name

/-- The screen of a project. -/
def screenSource (source : Project.Source) : ScreenSource :=
  ⟨source.screenName, source.layout, source.blocks⟩

/-- The files of a project around a converted screen. -/
def assembled (name package : String) (assets : List Project.Asset) (screen : Screen) : Converted :=
  ⟨name, Project.assemble name package (.ofScreen screen) assets, screen.diagnostics⟩

/-- The conversion of a project. -/
def convertProject (table : Component.Table) (settings : Settings) (clock : Clock)
    (source : Project.Source) (given : Option String) : Except Fault (Outcome Converted) :=
  let name := projectNameOf settings given
  let package := packageName settings.packagePrefix name
  match convertScreen table settings (settings.timer clock) (screenSource source) package with
  | .error fault => .error fault
  | .ok (.failed failure) => .ok (.failed failure)
  | .ok (.converted screen) => .ok (.converted (assembled name package source.assets screen))

/-- How an end of a conversion is counted. -/
def statusOf {α : Type} : Except Fault (Outcome α) → Option String
  | .ok (.converted _) => some "success"
  | .ok (.failed _) => some "failed"
  | .error (.timeout _ _) => some "timeout"
  | .error _ => none

/-- The diagnostics that an end of a conversion brings. -/
def diagnosticsOf : Except Fault (Outcome Converted) → List Diagnostic
  | .ok (.converted project) => project.diagnostics
  | _ => []

/-- Records how a conversion ended and the nanoseconds it took. -/
def record (result : Except Fault (Outcome Converted)) (elapsed : Nat) (m : Metrics) : Metrics :=
  match statusOf result with
  | none => m
  | some status =>
    let counted :=
      (m.addConversion status (.ofRatio false elapsed 1000000000)).addScreen status
    (diagnosticsOf result).foldl (fun m d => m.addDiagnostic d.code.name) counted

/-- Why a project archive gives no answer about its screen. -/
inductive Stop where
  /-- The archive cannot be read. -/
  | archive (cause : Project.ArchiveError)
  /-- The conversion was stopped. -/
  | conversion (cause : Fault)

/-- The bounds on the sizes of entries under settings. -/
def archiveLimits (settings : Settings) : Project.ArchiveLimits :=
  ⟨settings.maxDescriptorSize, settings.maxUploadBytes⟩

/-- The conversion of a project archive. -/
def convertArchive (u : Project.Unpacker) (table : Component.Table) (settings : Settings)
    (clock : Clock) (data : ByteArray) (name : String) : Except Stop (Outcome Converted) :=
  match Project.read data settings.screenName (archiveLimits settings) u with
  | .error e => .error (.archive e)
  | .ok source =>
    match convertProject table settings clock source (some name) with
    | .error fault => .error (.conversion fault)
    | .ok outcome => .ok outcome

/-- Records the conversion of a project archive; one that cannot be read leaves no record. -/
def recordArchive (result : Except Stop (Outcome Converted)) (elapsed : Nat) (m : Metrics) :
    Metrics :=
  match result with
  | .ok outcome => record (.ok outcome) elapsed m
  | .error (.conversion fault) => record (.error fault) elapsed m
  | .error (.archive _) => m

end Conversion
end ScreenForge
