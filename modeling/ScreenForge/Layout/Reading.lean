/-
# Component trees from layout descriptors

An entry of a layout descriptor is a component if it is an object with a type.  Its scalar members
are properties, except those that describe the tree (`$…` and `Uuid`), and its member `$Components`
lists the entries inside it.  `nodeOf?` reads an entry, and `readingOf` is the journal of doing so:
entries that are no components are skipped and noted, and so are missing names, properties that are
no scalars, and children that are no list.
-/
import ScreenForge.Component.Tree
import ScreenForge.Journal

namespace ScreenForge
namespace Layout

open Component (Node Scalar)
open Journal (Entry)

/-- Whether a member describes the tree and is no property. -/
def isStructural (key : String) : Bool := key.toList.head? == some '$' || key == "Uuid"

/-- The member that lists the entries inside an entry. -/
def childrenKey : String := "$Components"

/-- The properties of an entry. -/
def propertiesOf (members : List (String × Json)) : List (String × Scalar) :=
  members.filterMap fun m =>
    if isStructural m.1 then none else (Scalar.ofJson? m.2).map fun v => (m.1, v)

/-- The members of an entry that should be properties and are no scalars. -/
def invalidProperties (members : List (String × Json)) : List String :=
  members.filterMap fun m =>
    if isStructural m.1 || (Scalar.ofJson? m.2).isSome then none else some m.1

mutual

/-- The component of an entry. -/
def nodeOf? : Json → Option Node
  | .obj members =>
    (typeOf? members).map fun type =>
      ⟨type, nameOf members, propertiesOf members, childrenIn members⟩
  | _ => none

/-- The components that the members of an entry list. -/
def childrenIn : List (String × Json) → List Node
  | [] => []
  | (key, v) :: rest => if key = childrenKey then childrenOf v else childrenIn rest

/-- The components of a list of entries; anything else holds none. -/
def childrenOf : Json → List Node
  | .arr items => nodesOf items
  | _ => []

/-- The components among entries, in order. -/
def nodesOf : List Json → List Node
  | [] => []
  | v :: rest => (nodeOf? v).toList ++ nodesOf rest

end

/-- A defect of a component. -/
def malformed (message : String) (subject : Option String) : Entry :=
  .note (.warning .malformedComponent message subject)

/-- What a component goes by in reports: its name, or its type. -/
def label (type name : String) : String := if name = "" then type else name

/-- The defects of a component itself. -/
def ownDefects (type : String) (members : List (String × Json)) : List Entry :=
  let name := nameOf members
  (if name = "" then
    [malformed (type ++ " component has no $Name; blocks cannot refer to it") (some type)]
  else [])
  ++ match invalidProperties members with
    | [] => []
    | names => [.note (.warning .invalidProperty
        ("Dropped non-scalar properties " ++ Text.join ", " names) (some (label type name)))]

mutual

/-- The journal of reading an entry that is an object. -/
def readingOf : Json → List Entry
  | .obj members =>
    .look .layoutParsing
      :: match typeOf? members with
        | none => [malformed "Component without $Type skipped" (givenName? members)]
        | some type =>
          ownDefects type members ++ readingIn (label type (nameOf members)) members
  | _ => []

/-- The journal of reading what the members of an entry list. -/
def readingIn (owner : String) : List (String × Json) → List Entry
  | [] => []
  | (key, v) :: rest =>
    if key = childrenKey then readingInside owner v else readingIn owner rest

/-- The journal of reading the entries inside an owner. -/
def readingInside (owner : String) : Json → List Entry
  | .arr items => readingAll owner items
  | .null => []
  | _ => [malformed "$Components is not a list; children dropped" (some owner)]

/-- The journal of reading entries in order. -/
def readingAll (owner : String) : List Json → List Entry
  | [] => []
  | .obj members :: rest => readingOf (.obj members) ++ readingAll owner rest
  | v :: rest =>
    malformed s!"Child entry of type {v.kindName} skipped" (some owner) :: readingAll owner rest

end

/-- The screen of a form. -/
def screenOf (form : Form) : Node :=
  (nodeOf? (.obj form.members)).getD ⟨"", nameOf form.members, [], []⟩

/-- The journal of reading a form; a repaired text is noted first. -/
def journalOf (screen : Option String) (form : Form) : List Entry :=
  (match form.repaired with
    | none => []
    | some detail => [.note (.warning .repairedDescriptor
        s!"Layout descriptor is not valid JSON ({detail}); parsed a repaired copy" screen)])
  ++ readingOf (.obj form.members)

end Layout
end ScreenForge
