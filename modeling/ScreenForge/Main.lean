/-
# The program

Reads the arguments, the environment and the files that a run needs, and carries out what the run
comes to. The run itself is a pure function of these, so its clock stands still and no deadline of
more than zero seconds passes; `serve` answers with the address that it would listen on.
-/
import ScreenForge.Service.CommandLine

open ScreenForge

/-- The names of the settings in the environment. -/
def settingNames : List String := [
  "AIA_HTTP_HOST", "AIA_HTTP_PORT", "AIA_MAX_UPLOAD_BYTES", "AIA_MAPPING_PATH", "AIA_SCREEN_NAME",
  "AIA_PACKAGE_PREFIX", "AIA_DEFAULT_PROJECT_NAME", "AIA_CONVERSION_TIMEOUT",
  "AIA_MAX_DESCRIPTOR_SIZE", "AIA_MAX_NESTING_DEPTH", "AIA_REPAIR_DESCRIPTORS", "AIA_LOG_LEVEL",
  "AIA_JSON_LOGS"]

/-- The settings in the environment. -/
def readEnvironment : IO (List (String × String)) :=
  settingNames.filterMapM fun name => do return (← IO.getEnv name).map fun v => (name, v)

/-- A file with its content, if it can be read. -/
def readFile? (path : String) : IO (Option (String × ByteArray)) :=
  try return some (path, ← IO.FS.readBinFile path) catch _ => return none

/-- The files that a run may look at. -/
def neededFiles (environment : List (String × String)) (args : List String) :
    IO (List (String × ByteArray)) := do
  let dotenv ← readFile? Service.settingsFile
  let first : Service.World := { files := dotenv.toList, environment }
  let mapping := match Service.settingsOf first with
    | .ok s => s.mappingPath.toList
    | .error _ => []
  let input := match Service.Command.ofArguments? args with
    | some (.convert input _ _) => [input]
    | _ => []
  return dotenv.toList ++ (← (mapping ++ input).filterMapM readFile?)

/-- Carries out a report. -/
def carryOut (r : Service.Report) : IO UInt32 := do
  for (path, data) in r.written do IO.FS.writeBinFile path data
  IO.eprint r.err
  IO.print r.out
  return r.exit.toUInt32

/-- A message and an exit code. -/
def refuse (message : String) : IO UInt32 := do
  IO.eprintln message
  return 2

/-- Runs the program. -/
def main (args : List String) : IO UInt32 := do
  let environment ← readEnvironment
  let world : Service.World := { files := ← neededFiles environment args, environment }
  match Service.run world (fun _ => 0) args with
  | .done r => carryOut r
  | .usage message => refuse (message.getD "usage: convert input [-o output] [-n name] | serve")
  | .help => IO.println "usage: convert input [-o output] [-n name] | serve"; return 0
  | .badSettings r => refuse r.message
  | .badTable e => refuse e.message
  | .noSuchFile => refuse "no such file"
  | .isDirectory => refuse "the output is a directory"
  | .overlongPath => refuse "a path of the project is too long for an archive"
  | .stopped (.archive e) => refuse e.message
  | .stopped (.conversion f) => refuse f.message
  | .served host port =>
    IO.println s!"{host}:{port}"
    return 0
