/-
# Elements

Markup is a tree of elements.  An element has a name, attributes in order with distinct names, the
text before the first element inside it, and those elements.  A name in a namespace is written
`{uri}name`; `localName` is what stands behind the namespace.
-/
import ScreenForge.Text.Split

namespace ScreenForge
namespace Markup

/-- An element and those inside it. -/
structure Element where
  name : String
  attributes : List (String × String) := []
  text : String := ""
  children : List Element := []

namespace Element

mutual

/-- Whether two elements are equal. -/
def decEq : (e d : Element) → Decidable (e = d)
  | ⟨name, attributes, text, children⟩, ⟨name', attributes', text', children'⟩ =>
    match decEqAll children children' with
    | .isTrue h =>
      decidable_of_iff (name = name' ∧ attributes = attributes' ∧ text = text') (by simp [h])
    | .isFalse h => .isFalse fun heq => h (Element.mk.inj heq).2.2.2

/-- `decEq` for lists of elements. -/
def decEqAll : (es ds : List Element) → Decidable (es = ds)
  | [], [] => .isTrue rfl
  | [], _ :: _ => .isFalse nofun
  | _ :: _, [] => .isFalse nofun
  | e :: es, d :: ds =>
    match decEq e d, decEqAll es ds with
    | .isTrue h, .isTrue hs => .isTrue (by rw [h, hs])
    | .isFalse h, _ => .isFalse fun heq => h (List.cons.inj heq).1
    | _, .isFalse h => .isFalse fun heq => h (List.cons.inj heq).2

end

instance : DecidableEq Element := decEq

end Element

/-- A name without its namespace. -/
def localName (name : String) : String := String.ofList (Text.afterLast '}' name.toList)

namespace Element

/-- The local name of an element. -/
def tag (e : Element) : String := localName e.name

/-- The value of an attribute. -/
def get? (e : Element) (name : String) : Option String := e.attributes.lookup name

/-- The value of an attribute, empty if it is not there. -/
def get (e : Element) (name : String) : String := (e.get? name).getD ""

end Element
end Markup
end ScreenForge
