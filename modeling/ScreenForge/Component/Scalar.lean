/-
# Property values

A property of a component is a text, a whole number, a floating point number or a truth value.
`text` is how formats read it, where a number without a fraction is written without a point;
`display` is how it is shown as it stands.
-/
import ScreenForge.Json.Basic
import ScreenForge.Number.Style

namespace ScreenForge
namespace Component

/-- A value of a property. -/
inductive Scalar where
  | text (value : String)
  | whole (value : Int)
  | real (value : Binary64)
  | truth (value : Bool)
  deriving DecidableEq, Repr

namespace Scalar

/-- The scalar that a JSON value is; containers and `null` are none. -/
def ofJson? : Json → Option Scalar
  | .str s => some (.text s)
  | .int n => some (.whole n)
  | .float x => some (.real x)
  | .bool b => some (.truth b)
  | _ => none

/-- The JSON value of a scalar. -/
def toJson : Scalar → Json
  | .text s => .str s
  | .whole n => .int n
  | .real x => .float x
  | .truth b => .bool b

theorem ofJson?_toJson (v : Scalar) : ofJson? v.toJson = some v := by cases v <;> rfl

/-- The value as it stands. -/
def display : Scalar → String
  | .text s => s
  | .whole n => toString n
  | .real x => FloatStyle.plain.render x
  | .truth true => "True"
  | .truth false => "False"

/-- The value as formats read it. -/
def asText : Scalar → String
  | .real x =>
    match x.isInteger, x.truncate? with
    | true, some n => toString n
    | _, _ => FloatStyle.plain.render x
  | v => v.display

/-- Whether a value counts as given: not empty, zero or false. -/
def isGiven : Scalar → Bool
  | .text s => s != ""
  | .whole n => n != 0
  | .real x => !x.isZero
  | .truth b => b

end Scalar
end Component
end ScreenForge
