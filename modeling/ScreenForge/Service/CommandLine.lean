/-
# The command line

`convert` reads an archive, converts it and writes the project as an archive of files; `serve` runs
the service.  A run sees the files of its directory and the environment, and ends with an exit code,
what it says, and the files it writes.
-/
import ScreenForge.Component.Packaged
import ScreenForge.Conversion.Project
import ScreenForge.Request
import ScreenForge.Service.Arguments
import ScreenForge.Settings.Reading

namespace ScreenForge
namespace Service

/-- What a run finds: files by path, variables, and a way to unpack archives. -/
structure World where
  files : List (String × ByteArray) := []
  environment : List (String × String) := []
  unpacker : Project.Unpacker := .standard

/-- What a run leaves behind. -/
structure Report where
  exit : Nat
  out : String := ""
  err : String := ""
  written : List (String × ByteArray) := []

/-- How a run ends. -/
inductive Ending where
  /-- It was used wrongly, for a reason perhaps. -/
  | usage (message : Option String)
  | help
  | badSettings (refusal : Refusal)
  | badTable (cause : Component.Table.Error)
  /-- A file that settings name does not exist. -/
  | noSuchFile
  /-- The output is a directory. -/
  | isDirectory
  | stopped (cause : Conversion.Stop)
  /-- A path of the project is too long for an archive. -/
  | overlongPath
  /-- The service listens at a host and a port. -/
  | served (host : String) (port : Int)
  | done (report : Report)

/-- The parts of a path between slashes, without empty ones and single dots. -/
def pathParts (path : List Char) : List (List Char) :=
  (path.splitOn '/').filter fun p => p ≠ [] && p ≠ ['.']

/-- What stands before the parts of a path: nothing, a slash, or two of them. -/
def pathRoot (path : List Char) : List Char :=
  let n := (path.takeWhile (· == '/')).length
  if n = 2 then ['/', '/'] else if n = 0 then [] else ['/']

/-- A path as it is shown. -/
def shownPath (path : String) : String :=
  let s := pathRoot path.toList ++ ['/'].intercalate (pathParts path.toList)
  if s = [] then "." else String.ofList s

/-- The last part of a path. -/
def fileName (path : String) : List Char := ((pathParts path.toList).getLast?).getD []

/-- The last part of a path without its extension. -/
def fileStem (path : String) : String :=
  let name := fileName path
  let stem := Text.beforeLast '.' name
  let hasExtension := name.contains '.' && stem ≠ [] && (Text.afterLast '.' name) ≠ []
  String.ofList (if hasExtension then stem else name)

/-- The content of a file. -/
def World.file? (w : World) (path : String) : Option ByteArray :=
  let p := shownPath path
  (w.files.find? fun f => shownPath f.1 == p).map Prod.snd

/-- Whether a path is a directory that holds files. -/
def World.isDirectory (w : World) (path : String) : Bool :=
  let p := shownPath path
  p == "." || w.files.any fun f => Text.startsWith (shownPath f.1).toList (p.toList ++ ['/'])

/-- The directory of a path. -/
def parentOf (path : String) : String :=
  let parts := (pathParts path.toList).dropLast
  shownPath (String.ofList (pathRoot path.toList ++ ['/'].intercalate parts))

/-- The file of settings. -/
def settingsFile : String := ".env"

/-- The settings of a run. -/
def settingsOf (w : World) : Except Refusal Settings :=
  let text := ((w.file? settingsFile).bind String.fromUTF8?).getD ""
  Settings.read [] w.environment text

/-- The name of the project: given, or else that of the file if it can be one. -/
def nameOf? (settings : Settings) (input : String) (given : Option String) : Option String :=
  match given.filter (· ≠ "") with
  | some name => (Request.projectNameOf name).toOption
  | none =>
    match Request.projectNameOf (fileStem input) with
    | .ok name => some name
    | .error _ => some settings.defaultProjectName

/-- The mapping table of a run. -/
def tableOf (w : World) (settings : Settings) : Except Ending Component.Table :=
  match settings.mappingPath.filter (· ≠ "") with
  | none => .ok Component.Table.packaged
  | some path =>
    match w.file? path with
    | none => .error .noSuchFile
    | some data =>
      match Component.Table.ofOctets (shownPath path) data.toList with
      | .ok table => .ok table
      | .error e => .error (.badTable e)

/-- A report of an error. -/
def failed (exit : Nat) (message : String) : Ending :=
  .done { exit, err := "error: " ++ message ++ "\n" }

/-- What is said about a diagnostic. -/
def warningLine (d : Diagnostic) : String := s!"warning: [{d.code.name}] {d.message}\n"

/-- Writes a converted project. -/
def writeProject (w : World) (output : Option String) (project : Conversion.Converted) : Ending :=
  let path := shownPath (output.getD (project.name ++ ".zip"))
  match Project.bundle? project.files with
  | none => .overlongPath
  | some archive =>
    if w.isDirectory path then .isDirectory
    else if !w.isDirectory (parentOf path) then .noSuchFile
    else .done
      { exit := 0
        out := s!"Wrote {path} ({project.files.length} files, {project.diagnostics.length} "
          ++ "diagnostics)\n"
        err := String.join (project.diagnostics.map warningLine)
        written := [(path, archive)] }

/-- How a run ends after a conversion. -/
def endingOf (w : World) (output : Option String) :
    Except Conversion.Stop (Conversion.Outcome Conversion.Converted) → Ending
  | .error (.archive (.unexpected cause)) => .stopped (.archive (.unexpected cause))
  | .error (.archive e) => failed 2 e.message
  | .error (.conversion (.timeout stage seconds)) => failed 2 (Fault.timeout stage seconds).message
  | .error stop => .stopped stop
  | .ok (.failed f) => failed 1 s!"screen {f.screen} could not be converted: {f.reason}"
  | .ok (.converted project) => writeProject w output project

/-- Converts an archive. -/
def convertFile (w : World) (clock : Clock) (settings : Settings) (table : Component.Table)
    (data : ByteArray) (output : Option String) (name : String) : Ending :=
  endingOf w output (Conversion.convertArchive w.unpacker table settings clock data name)

/-- Converts the archive of a path. -/
def runConvert (w : World) (clock : Clock) (settings : Settings) (input : String)
    (output name : Option String) : Ending :=
  match w.file? input with
  | none => .usage (some s!"input file not found: '{shownPath input}'")
  | some data =>
    match nameOf? settings input name with
    | none => .usage none
    | some project =>
      match tableOf w settings with
      | .error e => e
      | .ok table => convertFile w clock settings table data output project

/-- Where the service listens. -/
def runServe (settings : Settings) (host : Option String) (port : Option Int) : Ending :=
  .served ((host.filter (· ≠ "")).getD settings.httpHost)
    ((port.filter (· ≠ 0)).getD settings.httpPort)

/-- Runs a command line. -/
def run (w : World) (clock : Clock) (args : List String) : Ending :=
  match Command.ofArguments? args with
  | none => .usage none
  | some .help => .help
  | some command =>
    match settingsOf w with
    | .error r => .badSettings r
    | .ok settings =>
      match command with
      | .convert input output name => runConvert w clock settings input output name
      | .serve host port => runServe settings host port
      | .help => .help

end Service
end ScreenForge
