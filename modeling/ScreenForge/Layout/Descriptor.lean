/-
# Layout descriptors

The layout descriptor of a screen is a JSON object whose member `Properties` describes the screen
itself, which is a component and so has a type.  `form` reads it under the limits of a run.
-/
import ScreenForge.Descriptor

namespace ScreenForge

/-- Limits on descriptors: octets of the text, and levels of components or blocks. -/
structure Limits where
  maxSize : Int := 4194304
  maxDepth : Int := 64
  deriving DecidableEq, Repr

namespace Layout

/-- Why a layout descriptor is refused as a whole. -/
inductive Error where
  | descriptor (cause : Descriptor.Error)
  /-- There is no description of the screen. -/
  | noForm
  /-- The screen has no type. -/
  | noType
  deriving DecidableEq, Repr

/-- The cause in words. -/
def Error.message : Error → String
  | .descriptor cause => cause.message
  | .noForm => "Layout descriptor has no 'Properties' object"
  | .noType => "Root component has no $Type"

/-- The type that an entry gives: a text that is not empty. -/
def typeOf? (members : List (String × Json)) : Option String :=
  match members.lookup "$Type" with
  | some (.str s) => if s = "" then none else some s
  | _ => none

/-- The name that an entry gives, if it is a text. -/
def givenName? (members : List (String × Json)) : Option String :=
  match members.lookup "$Name" with
  | some (.str s) => some s
  | _ => none

/-- The name of a component, empty if it has none. -/
def nameOf (members : List (String × Json)) : String := (givenName? members).getD ""

/-- The depth of a JSON value that holds so many levels of components: each level is an object
inside a list. -/
def jsonDepth (maxDepth : Int) : Int := maxDepth * 2 + 4

/-- The description of a screen. -/
structure Form where
  members : List (String × Json)
  /-- The fault of the text, if a repaired copy was read instead. -/
  repaired : Option String

/-- Reads a layout descriptor down to the description of the screen. -/
def form (text : String) (limits : Limits) (repair : Bool) : Except Error Form :=
  match Descriptor.checkSize text limits.maxSize "layout descriptor" with
  | .error e => .error (.descriptor e)
  | .ok () =>
    match Descriptor.extract text repair with
    | .error e => .error (.descriptor e)
    | .ok document =>
      match Descriptor.checkDepth (.obj document.members) (jsonDepth limits.maxDepth) with
      | .error e => .error (.descriptor e)
      | .ok () =>
        match document.members.lookup "Properties" with
        | some (.obj members) =>
          match typeOf? members with
          | some _ => .ok ⟨members, document.repaired⟩
          | none => .error .noType
        | _ => .error .noForm

end Layout
end ScreenForge
