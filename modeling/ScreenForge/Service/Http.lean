/-
# The conversion service

The service answers requests one after the other.  It tells its health, shows its metrics and
converts an archive that is sent to it.  Every end of a conversion has an answer of its own.  Two
things have none and crash the handler: a request body with broken text in it, and a project with a
path that is too long for an archive.
-/
import ScreenForge.Component.Packaged
import ScreenForge.Conversion.Project
import ScreenForge.Request

namespace ScreenForge
namespace Service

/-- The version of the service. -/
def version : String := "0.1.0"

/-- A request. -/
structure HttpRequest where
  method : String
  path : String
  body : ByteArray := .empty

/-- What an answer holds. -/
inductive Body where
  | json (value : Json)
  /-- The lines of the metrics. -/
  | report (metrics : Metrics)
  /-- A project of a name, the number of its diagnostics, and the archive of its files. -/
  | project (name : String) (diagnostics : Nat) (archive : ByteArray)
  /-- The handler crashed. -/
  | crash

/-- An answer. -/
structure HttpResponse where
  status : Nat
  body : Body

/-- The service between requests. -/
structure App where
  settings : Settings := {}
  table : Component.Table := Component.Table.packaged
  metrics : Metrics := {}
  unpacker : Project.Unpacker := .standard

/-- An answer with an error text. -/
def failure (status : Nat) (message : String) : HttpResponse :=
  ⟨status, .json (.obj [("error", .str message)])⟩

/-- An answer about the path or the method. -/
def refusal (status : Nat) (detail : String) : HttpResponse :=
  ⟨status, .json (.obj [("detail", .str detail)])⟩

/-- The type under which an unexpected fault of a conversion is counted. -/
def faultType : Fault → String
  | .timeout _ _ => "ConversionTimeout"
  | .malformedLayout _ => "MalformedLayoutDescriptor"
  | .malformedBlocks _ => "MalformedBlockDescriptor"
  | .unboundedNumber => "OverflowError"
  | .missingOperands => "IndexError"
  | .longSlotNumber => "ValueError"

/-- The type under which an unexpected fault of an archive is counted. -/
def archiveFaultType : Archive.Fault → String
  | .notArchive _ => "archive_error"
  | .damaged _ => "archive_error"
  | .unsupported _ => "NotImplementedError"
  | .encrypted => "RuntimeError"
  | .badCompression => "error"
  | .cutOff => "EOFError"
  | .undecodableName => "UnicodeDecodeError"
  | .negativeOffset => "ValueError"
  | .other type _ => type

/-- The error that is counted for a conversion that was stopped. -/
def errorType : Conversion.Stop → String
  | .archive (.unexpected cause) => archiveFaultType cause
  | .archive _ => "archive_error"
  | .conversion (.timeout _ _) => "timeout"
  | .conversion fault => faultType fault

/-- The answer to a conversion that was stopped. -/
def stopResponse : Conversion.Stop → HttpResponse
  | .archive (.unexpected cause) => failure 500 ("Internal server error: " ++ cause.message)
  | .archive e => failure 400 e.message
  | .conversion (.timeout stage seconds) =>
    failure 504 ("Conversion timed out: " ++ (Fault.timeout stage seconds).message)
  | .conversion fault => failure 500 ("Internal server error: " ++ fault.message)

/-- The answer to a conversion that came to its end. -/
def outcomeResponse : Conversion.Outcome Conversion.Converted → HttpResponse
  | .failed f => failure 422 s!"Screen {f.screen} could not be converted: {f.reason}"
  | .converted project =>
    match Project.bundle? project.files with
    | some archive => ⟨200, .project project.name project.diagnostics.length archive⟩
    | none => ⟨500, .crash⟩

/-- The answer to a refused request. -/
def refusedResponse (r : Refusal) : HttpResponse :=
  failure 400 (if r.any fun c => c.1 == "file" then "Missing .aia file."
    else "Invalid request: " ++ r.message)

/-- The request in a body and the octets of its archive, or an answer that refuses it. -/
def readConvert (settings : Settings) (body : ByteArray) :
    Except HttpResponse (Request × ByteArray) :=
  if body.isEmpty then .error (failure 405 "Method not allowed or missing request body.")
  else match Json.ofOctets body.toList with
    | .error (.unexpected _) => .error (failure 400 "Request body is not valid JSON.")
    | .error .undecodable => .error ⟨500, .crash⟩
    | .ok v =>
      match Request.ofJson v with
      | .error r => .error (refusedResponse r)
      | .ok request =>
        match request.archiveBytes? with
        | none => .error (failure 400 Request.badArchive)
        | some octets =>
          if (octets.length : Int) > settings.maxUploadBytes then
            .error (failure 400
              s!"Archive exceeds maximum size of {settings.maxUploadBytes} bytes.")
          else .ok (request, ByteArray.mk octets.toArray)

/-- Answers a request for a conversion that takes some nanoseconds. -/
def convert (clock : Clock) (elapsed : Nat) (app : App) (body : ByteArray) : HttpResponse × App :=
  match readConvert app.settings body with
  | .error answer => (answer, app)
  | .ok (request, data) =>
    let result := Conversion.convertArchive app.unpacker app.table app.settings clock data
      request.projectName
    let metrics := Conversion.recordArchive result elapsed app.metrics
    match result with
    | .error stop =>
      (stopResponse stop, { app with metrics := metrics.addError (errorType stop) "convert" })
    | .ok outcome => (outcomeResponse outcome, { app with metrics })

/-- What the service can be asked for. -/
inductive Route where
  | health
  | metrics
  | convert
  deriving DecidableEq, Repr

/-- The path of a request without a query and without a slash at its end. -/
def routePath (path : String) : List Char :=
  let p := path.toList.takeWhile (· != '?')
  if p.length > 1 && p.getLast? = some '/' then p.dropLast else p

/-- The route of a path. -/
def route? (path : String) : Option Route :=
  let p := String.ofList (routePath path)
  if p = "/health" then some .health
  else if p = "/metrics" then some .metrics
  else if p = "/convert" then some .convert
  else none

/-- The method of a route. -/
def Route.method : Route → String
  | .health => "GET"
  | .metrics => "GET"
  | .convert => "POST"

/-- The answer about the health. -/
def healthResponse : HttpResponse :=
  ⟨200, .json (.obj [("status", .str "healthy"), ("version", .str version)])⟩

/-- Answers a request. -/
def handle (clock : Clock) (elapsed : Nat) (app : App) (request : HttpRequest) :
    HttpResponse × App :=
  match route? request.path with
  | none => (refusal 404 "Not Found", app)
  | some route =>
    if request.method ≠ route.method then (refusal 405 "Method Not Allowed", app)
    else match route with
      | .health => (healthResponse, app)
      | .metrics => (⟨200, .report app.metrics⟩, app)
      | .convert => convert clock elapsed app request.body

/-- Answers requests in order. -/
def handleAll (clock : Clock) (elapsed : Nat) : App → List HttpRequest → List HttpResponse
  | _, [] => []
  | app, r :: rest =>
    let (answer, next) := handle clock elapsed app r
    answer :: handleAll clock elapsed next rest

end Service
end ScreenForge
