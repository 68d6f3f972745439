/-
# Descriptors

A screen is described by texts of bounded size.  A layout descriptor is a JSON object, bare or
inside a frame

    #|
    $JSON
    {...}
    |#

`boundaries?` finds the object in such a text, `extract` reads it, and `checkSize` and `checkDepth`
hold a text and a value to their limits.
-/
import ScreenForge.Json.Lenient
import ScreenForge.Text.Split

namespace ScreenForge
namespace Descriptor

/-- Why a descriptor is refused. -/
inductive Error where
  /-- The text has more octets than allowed. -/
  | tooLarge (name : String) (size limit : Int)
  /-- The value nests deeper than allowed. -/
  | tooDeep (depth limit : Int)
  /-- There is no object in the text. -/
  | noObject
  /-- What looks like an object is none. -/
  | invalidJson (detail : String)
  /-- The value is of another kind. -/
  | notObject (kind : String)
  deriving DecidableEq, Repr

/-- The cause in words. -/
def Error.message : Error → String
  | .tooLarge name size limit => s!"{name} size {size} bytes exceeds maximum {limit} bytes"
  | .tooDeep depth limit => s!"nesting depth {depth} exceeds maximum {limit}"
  | .noObject => "No JSON object found in descriptor"
  | .invalidJson detail => "Invalid JSON: " ++ detail
  | .notObject kind => "Expected object, got " ++ kind

/-- Opens a frame. -/
def frameOpen : List Char := ['#', '|']

/-- Closes a frame. -/
def frameClose : List Char := ['|', '#']

/-- Stands in a frame before the object. -/
def marker : List Char := ['$', 'J', 'S', 'O', 'N']

/-- A text without its frame; `none` if a frame is not closed. -/
def unframe? (text : List Char) : Option (List Char) :=
  if Text.startsWith text frameOpen then
    match Text.lastIndexOf? frameClose text with
    | none => none
    | some close =>
      let inner := Text.stripChars ((text.take close).drop frameOpen.length)
      some (if Text.startsWith inner marker then Text.stripChars (inner.drop marker.length)
        else inner)
  else some text

/-- A text without its frame, and where the object in it starts and ends. -/
def boundaries? (text : List Char) : Option (List Char × Nat × Nat) :=
  match unframe? text with
  | none => none
  | some inner =>
    match Text.indexOf? ['{'] inner, Text.lastIndexOf? ['}'] inner with
    | some first, some last => if last < first then none else some (inner, first, last + 1)
    | _, _ => none

/-- The part of a descriptor that should be an object. -/
def objectText? (text : String) : Option (List Char) :=
  (boundaries? (Text.stripChars text.toList)).map fun (inner, first, last) =>
    (inner.take last).drop first

/-- What was read from a descriptor. -/
structure Extract where
  members : List (String × Json)
  /-- The fault of the text, if a repaired copy was read instead. -/
  repaired : Option String := none

/-- The members of an object, or the complaint that a value is none. -/
def membersOf (fault : Option String) : Json → Except Error Extract
  | .obj members => .ok ⟨members, fault⟩
  | v => .error (.notObject v.kindName)

/-- Reads the object of a descriptor; a damaged one is repaired on demand. -/
def extract (text : String) (repair : Bool := false) : Except Error Extract :=
  match objectText? text with
  | none => .error .noObject
  | some body =>
    match Json.readWith Json.strict (body.map some) with
    | .ok v => membersOf none v
    | .error e =>
      let detail := e.message body.length
      if repair then membersOf (some detail) (Json.repair body) else .error (.invalidJson detail)

/-- Holds a text to a number of octets. -/
def checkSize (text : String) (limit : Int) (name : String := "descriptor") : Except Error Unit :=
  if (text.utf8ByteSize : Int) > limit then .error (.tooLarge name text.utf8ByteSize limit)
  else .ok ()

/-- Holds a value, met at a depth, to a depth. -/
def checkDepth (value : Json) (limit : Int) (depth : Int := 0) : Except Error Unit :=
  match value.tooDeep? limit depth with
  | some d => .error (.tooDeep d limit)
  | none => .ok ()

end Descriptor
end ScreenForge
