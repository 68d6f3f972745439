/-
# JSON values

Objects keep their members in order with distinct names; whole numbers of any size and floating
point numbers are different values.

`height` is the longest chain of containers below a value, and `tooDeep?` walks a value with a
limit on its depth and returns the depth at which the walk first goes beyond it.
-/
import ScreenForge.Assoc
import ScreenForge.Number.Binary64

namespace ScreenForge

/-- A JSON value. -/
inductive Json where
  | null
  | bool (value : Bool)
  | int (value : Int)
  | float (value : Binary64)
  | str (value : String)
  | arr (items : List Json)
  | obj (members : List (String × Json))
  deriving Repr

namespace Json

/-- The value of a member of an object. -/
def get? (name : String) : Json → Option Json
  | .obj members => members.lookup name
  | _ => none

/-- The text of a string value. -/
def str? : Json → Option String
  | .str s => some s
  | _ => none

mutual

/-- The number of items that the longest way from a value to a leaf below it passes. -/
def height : Json → Nat
  | .arr items => heightItems items
  | .obj members => heightMembers members
  | _ => 0

/-- `height` over the items of a list: one more than the highest, zero without any. -/
def heightItems : List Json → Nat
  | [] => 0
  | v :: rest => max (height v + 1) (heightItems rest)

/-- `height` over the members of an object. -/
def heightMembers : List (String × Json) → Nat
  | [] => 0
  | (_, v) :: rest => max (height v + 1) (heightMembers rest)

end

mutual

/-- The depth at which a value, met at a depth, goes beyond a limit. -/
def tooDeep? (limit depth : Int) : Json → Option Int
  | .arr items => if depth > limit then some depth else tooDeepItems? limit (depth + 1) items
  | .obj members => if depth > limit then some depth else tooDeepMembers? limit (depth + 1) members
  | _ => if depth > limit then some depth else none

/-- `tooDeep?` over the items of a list, in order. -/
def tooDeepItems? (limit depth : Int) : List Json → Option Int
  | [] => none
  | v :: rest =>
    match tooDeep? limit depth v with
    | some d => some d
    | none => tooDeepItems? limit depth rest

/-- `tooDeep?` over the members of an object, in order. -/
def tooDeepMembers? (limit depth : Int) : List (String × Json) → Option Int
  | [] => none
  | (_, v) :: rest =>
    match tooDeep? limit depth v with
    | some d => some d
    | none => tooDeepMembers? limit depth rest

end

/-- The word for the kind of a value in messages. -/
def kindName : Json → String
  | .null => "NoneType"
  | .bool _ => "bool"
  | .int _ => "int"
  | .float _ => "float"
  | .str _ => "str"
  | .arr _ => "list"
  | .obj _ => "dict"

end Json
end ScreenForge
