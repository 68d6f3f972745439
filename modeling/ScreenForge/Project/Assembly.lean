/-
# Assembling a project

A project is a set of files: what the screen was converted into, the files around it, a report of
what was noted, and the assets.  Paths are distinct; a path that is written again keeps its place,
and an asset whose path is taken is left out.
-/
import ScreenForge.Archive.Writer
import ScreenForge.Conversion.Screen
import ScreenForge.Json.Writer
import ScreenForge.Project.Asset
import ScreenForge.Project.Template

namespace ScreenForge
namespace Project

/-- What a file holds. -/
inductive Content where
  | text (s : String)
  | data (bytes : ByteArray)

/-- The octets of a file. -/
def Content.bytes : Content → ByteArray
  | .text s => s.toUTF8
  | .data b => b

/-- Files by path, in order. -/
abbrev Files := List (String × Content)

/-- The archive of files, in order; `none` if a path is too long for it. -/
def bundle? (files : Files) : Option ByteArray :=
  Archive.write? (files.map fun f => (f.1, f.2.bytes))

/-- A diagnostic in the report. -/
def diagnosticJson (d : Diagnostic) : Json :=
  .obj [("code", .str d.code.name), ("message", .str d.message),
    ("subject", (d.subject.map Json.str).getD .null), ("severity", .str d.severity.name)]

/-- The report of a conversion. -/
def report (name package screen : String) (diagnostics : List Diagnostic) : Json :=
  .obj [("project", .str name), ("package", .str package), ("screen", .str screen),
    ("diagnostics", .arr (diagnostics.map diagnosticJson))]

/-- The path of the report. -/
def reportPath : String := "conversion-report.json"

/-- A screen as it goes into a project. -/
structure Parts where
  screen : String
  artifacts : Files
  appName : Option String
  diagnostics : List Diagnostic

/-- The parts of a converted screen. -/
def Parts.ofScreen (s : Conversion.Screen) : Parts :=
  ⟨s.name, s.artifacts.map fun a => (a.1, .text a.2), s.appName, s.diagnostics⟩

/-- The name of the app: the screen's, or else the project's. -/
def appName (name : String) (parts : Parts) : String :=
  match parts.appName with
  | some s => if s = "" then name else s
  | none => name

/-- The files around a screen, in order. -/
def frameFiles (name package : String) (parts : Parts) : Files := [
  ("app/src/main/AndroidManifest.xml", .text (fill [("package", package)] manifest)),
  ("app/src/main/res/values/strings.xml",
    .text (fill [("app_name", appName name parts)] strings)),
  ("build.gradle", .text (fill [] rootBuild)),
  ("settings.gradle", .text (fill [("project_name", name)] buildSettings)),
  ("app/build.gradle", .text (fill [("package", package)] appBuild)),
  (reportPath,
    .text (Json.render Json.indented (report name package parts.screen parts.diagnostics)))
]

/-- Adds an asset unless its path is taken. -/
def addAsset (files : Files) (asset : Asset) : Files :=
  let path := assetPath asset.name
  if Assoc.has path files then files else files ++ [(path, .data asset.data)]

/-- The files of a project without assets, by path inside it. -/
def generatedFiles (name package : String) (parts : Parts) : Files :=
  Assoc.ofList (parts.artifacts ++ frameFiles name package parts)

/-- The files of a project, all below a directory of its name. -/
def assemble (name package : String) (parts : Parts) (assets : List Asset) : Files :=
  (assets.foldl addAsset (generatedFiles name package parts)).map fun f => (name ++ "/" ++ f.1, f.2)

end Project
end ScreenForge
