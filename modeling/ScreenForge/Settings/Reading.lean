/-
# Reading settings

Settings come from four places: given directly, from the environment, from a file, and defaults, in
this order of precedence.  In the environment and in the file a setting goes by its name behind
`AIA_`, in any letter case, and its value is text.  Each value is read as what its field holds, so
that a number may be given as text.
-/
import ScreenForge.Complaint
import ScreenForge.Component.Table
import ScreenForge.Settings.Basic
import ScreenForge.Settings.EnvFile

namespace ScreenForge
namespace Settings

/-- A text without the blanks around a number. -/
def trimmed (s : String) : List Char :=
  Text.dropEndWhile Numeral.isPadding (s.toList.dropWhile Numeral.isPadding)

/-- Whether two underscores stand side by side. -/
def hasDoubleUnderscore (s : List Char) : Bool := (Text.indexOf? ['_', '_'] s).isSome

/-- A text without underscores that stand inside it one at a time. -/
def withoutUnderscores? (s : List Char) : Option (List Char) :=
  if s.head? = some '_' || s.getLast? = some '_' || !s.contains '_' || hasDoubleUnderscore s then
    none
  else some (s.filter (· != '_'))

/-- A text before a point that only zeros follow. -/
def withoutZeros (s : List Char) : List Char :=
  match s.dropWhile (· != '.') with
  | _ :: zeros => if zeros.all (· == '0') then s.takeWhile (· != '.') else s
  | [] => s

/-- A sign and ASCII digits. -/
def signedDigits? (s : List Char) : Option Int :=
  let (negative, body) := Numeral.takeSign s
  if body.isEmpty || !body.all Numeral.isDigit then none
  else
    let n : Int := Numeral.digitsValue body
    some (if negative then -n else n)

/-- The whole number of a text. -/
def integerOfText (s : String) : Except Complaint Int :=
  let body := trimmed s
  if body.length > Numeral.maxDigits then .error .longIntegerText
  else
    let plain := withoutZeros body
    match signedDigits? plain <|> ((withoutUnderscores? plain).bind signedDigits?) with
    | some n => .ok n
    | none => .error .badIntegerText

/-- The whole number of a value. -/
def readInteger : Json → Except Complaint Int
  | .bool b => .ok (if b then 1 else 0)
  | .int n => .ok n
  | .float x =>
    match x.isInteger, x.truncate? with
    | true, some n => .ok n
    | false, some _ => .error .fraction
    | _, none => .error .notFinite
  | .str s => integerOfText s
  | _ => .error .noInteger

/-- A sign and an ASCII number, or a word for what is not finite. -/
def signedFloat? (s : List Char) : Option Binary64 :=
  let (negative, body) := Numeral.takeSign s
  let word := String.ofList (body.map Char.toLower)
  if word = "inf" || word = "infinity" then some (.infinite negative)
  else if word = "nan" then some .nan
  else Numeral.unsigned? negative body

/-- The floating point number of a text. -/
def floatOfText (s : String) : Except Complaint Binary64 :=
  let body := trimmed s
  match signedFloat? body <|> ((withoutUnderscores? body).bind signedFloat?) with
  | some x => .ok x
  | none => .error .badFloatText

/-- The floating point number of a value. -/
def readFloat : Json → Except Complaint Binary64
  | .bool b => .ok (Binary64.ofRatio false (if b then 1 else 0) 1)
  | .int n => (Binary64.ofInt? n).elim (.error .noFloat) .ok
  | .float x => .ok x
  | .str s => floatOfText s
  | _ => .error .noFloat

/-- The switch of a value. -/
def readSwitch (v : Json) : Except Complaint Bool :=
  match Component.switch? v, v with
  | some b, _ => .ok b
  | none, .str _ => .error .badSwitch
  | none, .int _ => .error .badSwitch
  | none, .float x => .error (if x.isInteger then .badSwitch else .noSwitch)
  | none, _ => .error .noSwitch

/-- The text of a value. -/
def readText : Json → Except Complaint String
  | .str s => .ok s
  | _ => .error .notText

/-- The text of a value, or its absence. -/
def readOptionalText : Json → Except Complaint (Option String)
  | .null => .ok none
  | .str s => .ok (some s)
  | _ => .error .notText

/-- A positive whole number. -/
def readPositive (v : Json) : Except Complaint Int := do
  let n ← readInteger v
  if n ≤ 0 then throw .notGreater
  return n

/-- The number of a port. -/
def readPort (v : Json) : Except Complaint Int := do
  let n ← readInteger v
  if n > 65535 then throw .notAtMost
  if n ≤ 0 then throw .notGreater
  return n

/-- A number of seconds that is not zero or less. -/
def readSeconds (v : Json) : Except Complaint Binary64 := do
  let x ← readFloat v
  if x.le (Binary64.zero false) then throw .notGreater
  return x

/-- Values by field name; the first one of a name counts. -/
abbrev Given := List (String × Json)

/-- A field's value, read, or its default. -/
def fieldOr {α : Type} (given : Given) (name : String) (default : α)
    (read : Json → Except Complaint α) : Except Complaint α :=
  match given.lookup name with
  | some v => read v
  | none => .ok default

/-- Settings from values by field name. -/
def ofGiven (given : Given) : Except Refusal Settings :=
  let d : Settings := {}
  let host := fieldOr given "http_host" d.httpHost readText
  let port := fieldOr given "http_port" d.httpPort readPort
  let upload := fieldOr given "max_upload_bytes" d.maxUploadBytes readPositive
  let mapping := fieldOr given "mapping_path" d.mappingPath readOptionalText
  let screen := fieldOr given "screen_name" d.screenName readText
  let package := fieldOr given "package_prefix" d.packagePrefix readText
  let project := fieldOr given "default_project_name" d.defaultProjectName readText
  let timeout := fieldOr given "conversion_timeout" d.conversionTimeout readSeconds
  let size := fieldOr given "max_descriptor_size" d.maxDescriptorSize readPositive
  let depth := fieldOr given "max_nesting_depth" d.maxNestingDepth readPositive
  let repair := fieldOr given "repair_descriptors" d.repairDescriptors readSwitch
  let level := fieldOr given "log_level" d.logLevel readText
  let logs := fieldOr given "json_logs" d.jsonLogs readSwitch
  match host, port, upload, mapping, screen, package, project, timeout, size, depth, repair, level,
    logs with
  | .ok a, .ok b, .ok c, .ok d, .ok e, .ok f, .ok g, .ok h, .ok i, .ok j, .ok k, .ok l, .ok m =>
    .ok ⟨a, b, c, d, e, f, g, h, i, j, k, l, m⟩
  | _, _, _, _, _, _, _, _, _, _, _, _, _ =>
    .error (complaintOf "http_host" host ++ complaintOf "http_port" port
      ++ complaintOf "max_upload_bytes" upload ++ complaintOf "mapping_path" mapping
      ++ complaintOf "screen_name" screen ++ complaintOf "package_prefix" package
      ++ complaintOf "default_project_name" project ++ complaintOf "conversion_timeout" timeout
      ++ complaintOf "max_descriptor_size" size ++ complaintOf "max_nesting_depth" depth
      ++ complaintOf "repair_descriptors" repair ++ complaintOf "log_level" level
      ++ complaintOf "json_logs" logs)

/-- What stands before the name of a setting in the environment. -/
def environmentMark : List Char := "aia_".toList

/-- Settings among variables: the last of a name counts, and one without a value does not. -/
def fromVariables (given : List (String × Option String)) : Given :=
  let byName := Assoc.ofList (given.map fun v => (Text.lower v.1, v.2))
  byName.filterMap fun (name, v) =>
    if Text.startsWith name.toList environmentMark then
      v.map fun s => (String.ofList (name.toList.drop environmentMark.length), .str s)
    else none

/-- Settings from all places. -/
def read (given : Given) (env : List (String × String)) (file : String) :
    Except Refusal Settings :=
  ofGiven (given ++ fromVariables (env.map fun e => (e.1, some e.2))
    ++ fromVariables (EnvFile.read env file))

end Settings
end ScreenForge
