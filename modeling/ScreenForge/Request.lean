/-
# Conversion requests

A request carries an archive as base64 text, perhaps behind the head of a data address and with
blanks in it, and the name of the project, which becomes a directory and a package and so has to be
a plain word.
-/
import ScreenForge.Complaint
import ScreenForge.Json.Basic
import ScreenForge.Text.Base64
import ScreenForge.Text.Blank
import ScreenForge.Text.Split

namespace ScreenForge

/-- A request for a conversion. -/
structure Request where
  file : String
  projectName : String := "ConvertedApp"
  deriving DecidableEq, Repr

namespace Request

/-- The longest project name, before blanks at its ends are dropped. -/
def maxNameLength : Nat := 64

/-- The longest archive text. -/
def maxFileLength : Nat := 75497472

/-- Whether a text is a project name: a letter, then letters, digits and underscores. -/
def isProjectName (s : List Char) : Bool :=
  match s with
  | [] => false
  | c :: rest => c.isAlpha && rest.all fun d => d.isAlphanum || d == '_'

/-- The project name of a text. -/
def projectNameOf (s : String) : Except Complaint String :=
  if s.length > maxNameLength then .error .tooLong
  else
    let name := Text.stripChars s.toList
    if isProjectName name then .ok (String.ofList name) else .error .unsuitable

/-- The project name of a value. -/
def readName : Json → Except Complaint String
  | .str s => projectNameOf s
  | _ => .error .notText

/-- The archive text of a value. -/
def readFile : Option Json → Except Complaint String
  | none => .error .missing
  | some (.str s) =>
    if s = "" then .error .tooShort
    else if s.length > maxFileLength then .error .tooLong
    else .ok s
  | some _ => .error .notText

/-- The name under which a request gives the project name; the first of two takes precedence. -/
def nameKey (members : List (String × Json)) : String :=
  if Assoc.has "projectName" members || !Assoc.has "project_name" members then "projectName"
  else "project_name"

/-- A request from a value. -/
def ofJson : Json → Except Refusal Request
  | .obj members =>
    let key := nameKey members
    let file := readFile (members.lookup "file")
    let name := match members.lookup key with
      | some v => readName v
      | none => .ok "ConvertedApp"
    match file, name with
    | .ok f, .ok n => .ok ⟨f, n⟩
    | f, n => .error (complaintOf "file" f ++ complaintOf key n)
  | _ => .error [("", .notObject)]

/-- The base64 text of a request: behind the head of a data address, without blanks. -/
def payload (r : Request) : List Char :=
  let s := r.file.toList
  Text.squeeze (if Text.startsWith s "data:".toList && s.contains ',' then
    (s.dropWhile (· != ',')).drop 1 else s)

/-- The octets of the archive. -/
def archiveBytes? (r : Request) : Option (List UInt8) := Text.Base64.decode? r.payload

/-- What is said of a request whose archive is no base64. -/
def badArchive : String := "file is not valid base64: invalid data"

end Request
end ScreenForge
