/-
# Reading mapping tables

A table is a JSON object that gives each component type a rule.  A rule is an object with known
members only; the element and the attributes may go by either of two names.  Each member is read
on its own, so that a refused rule names all the members at fault (`RuleFault`), and the first rule
at fault refuses the table.
-/
import ScreenForge.Component.Rule
import ScreenForge.Json.Reader

namespace ScreenForge
namespace Component

/-- Whether a text is a stem of view ids: a letter, then letters, digits and underscores. -/
def isIdStem (s : String) : Bool :=
  match s.toList with
  | [] => false
  | c :: rest => c.isAlpha && rest.all fun d => d.isAlphanum || d == '_'

/-- Words that switch something on. -/
def onWords : List String := ["1", "on", "t", "true", "y", "yes"]

/-- Words that switch something off. -/
def offWords : List String := ["0", "off", "f", "false", "n", "no"]

/-- The switch that a word stands for, in any letter case. -/
def switchOfWord? (s : String) : Option Bool :=
  let word := String.ofList (s.toList.map Char.toLower)
  if onWords.contains word then some true
  else if offWords.contains word then some false
  else none

/-- The switch that a value stands for: a truth value, zero or one, or a word. -/
def switch? : Json → Option Bool
  | .bool b => some b
  | .int 0 => some false
  | .int 1 => some true
  | .int _ => none
  | .float x =>
    match x.isInteger, x.truncate? with
    | true, some 0 => some false
    | true, some 1 => some true
    | _, _ => none
  | .str s => switchOfWord? s
  | _ => none

/-- A text or its absence. -/
def optionalText? : Json → Option (Option String)
  | .null => some none
  | .str s => some (some s)
  | _ => none

/-- A list of texts. -/
def texts? : Json → Option (List String)
  | .arr items => items.mapM Json.str?
  | _ => none

/-- An object whose members are all read by one reader. -/
def mapping? {α : Type} (read : Json → Option α) : Json → Option (List (String × α))
  | .obj members => members.mapM fun m => (read m.2).map fun v => (m.1, v)
  | _ => none

/-- The member of an object, read, or a default in its absence; `none` if it cannot be read. -/
def memberOr {α : Type} (members : List (String × Json)) (name : String) (default : α)
    (read : Json → Option α) : Option α :=
  match members.lookup name with
  | some v => read v
  | none => some default

/-- An event from its object; members it does not know are ignored. -/
def event? : Json → Option Event
  | .obj members => do
    let listener ← memberOr members "listener" none optionalText?
    let inline ← memberOr members "inline" false switch?
    let lambdaArgs ← memberOr members "lambda_args" [] texts?
    let params ← memberOr members "params" [] texts?
    let result ← memberOr members "result" none optionalText?
    return ⟨listener, inline, lambdaArgs, params, result⟩
  | _ => none

/-- A member of a rule: the names it may go by, the first one taking precedence. -/
structure Field where
  names : List String

namespace Field

def tag : Field := ⟨["xml_tag", "target_tag"]⟩
def idStem : Field := ⟨["id_prefix"]⟩
def defaults : Field := ⟨["default_properties"]⟩
def attributes : Field := ⟨["property_map", "property_to_attribute"]⟩
def formats : Field := ⟨["value_formats"]⟩
def viewClass : Field := ⟨["view_class"]⟩
def accessors : Field := ⟨["accessors"]⟩
def methods : Field := ⟨["methods"]⟩
def events : Field := ⟨["events"]⟩

/-- All members that a rule may have. -/
def all : List Field :=
  [tag, idStem, defaults, attributes, formats, viewClass, accessors, methods, events]

/-- The name that a member goes by in an object: the first of its names there. -/
def used? (field : Field) (members : List (String × Json)) : Option String :=
  field.names.find? fun n => Assoc.has n members

/-- A member read, or the name under which it is at fault.  Without a default it is required. -/
def read {α : Type} (field : Field) (members : List (String × Json)) (default : Option α)
    (reader : Json → Option α) : Except String α :=
  match field.used? members with
  | none => default.elim (.error (field.names.headD "")) .ok
  | some name =>
    match members.lookup name >>= reader with
    | some v => .ok v
    | none => .error name

end Field

/-- Names at fault of a rule that was refused, sorted; the empty name for a rule that is none. -/
abbrev RuleFault := List String

/-- The fault of a member, if it is at fault. -/
def faultOf {α : Type} : Except String α → List String
  | .error name => [name]
  | .ok _ => []

/-- Names of an object that no member of a rule goes by. -/
def extraNames (members : List (String × Json)) : List String :=
  (Assoc.keys members).filter fun n =>
    !(Field.all.any fun f => f.used? members == some n)

/-- A nonempty text. -/
def nonemptyText? : Json → Option String
  | .str s => if s = "" then none else some s
  | _ => none

/-- A stem of view ids. -/
def idStem? : Json → Option String
  | .str s => if isIdStem s then some s else none
  | _ => none

/-- A format by name. -/
def format? : Json → Option Format
  | .str s => Format.ofName? s
  | _ => none

/-- A rule from its object, or all its faults. -/
def Rule.ofJson : Json → Except RuleFault Rule
  | .obj members =>
    let tag := Field.tag.read members none nonemptyText?
    let stem := Field.idStem.read members none idStem?
    let defaults := Field.defaults.read members (some []) (mapping? Scalar.ofJson?)
    let attributes := Field.attributes.read members (some []) (mapping? Json.str?)
    let formats := Field.formats.read members (some []) (mapping? format?)
    let viewClass := Field.viewClass.read members (some none) optionalText?
    let accessors := Field.accessors.read members (some []) (mapping? Json.str?)
    let methods := Field.methods.read members (some []) (mapping? Json.str?)
    let events := Field.events.read members (some []) (mapping? event?)
    match extraNames members, tag, stem, defaults, attributes, formats, viewClass, accessors,
      methods, events with
    | [], .ok t, .ok s, .ok d, .ok a, .ok f, .ok v, .ok acc, .ok m, .ok e =>
      .ok ⟨t, s, d, a, f, v, acc, m, e⟩
    | extra, _, _, _, _, _, _, _, _, _ =>
      .error (Text.sorted (extra ++ faultOf tag ++ faultOf stem ++ faultOf defaults
        ++ faultOf attributes ++ faultOf formats ++ faultOf viewClass ++ faultOf accessors
        ++ faultOf methods ++ faultOf events))
  | _ => .error [""]

namespace Table

/-- Why a table is refused. -/
inductive Error where
  /-- The file is no JSON. -/
  | invalidJson (source detail : String)
  /-- The file holds another value than an object. -/
  | notObject (source : String)
  /-- The first rule at fault. -/
  | invalidRule (type : String) (fault : RuleFault)
  /-- A string of the file is not UTF-8. -/
  | undecodable
  deriving DecidableEq, Repr

/-- The cause in words. -/
def Error.message : Error → String
  | .invalidJson source detail => s!"Mapping table {source} is not valid JSON: {detail}"
  | .notObject source => s!"Mapping table {source} must be a JSON object"
  | .invalidRule type fault =>
    s!"Invalid component mapping table: {type}: " ++ Text.join ", " fault
  | .undecodable => "a string is not valid UTF-8"

/-- Rules in order, up to the first one at fault. -/
def ofMembers : List (String × Json) → Except Error Table
  | [] => .ok []
  | (type, v) :: rest =>
    match Rule.ofJson v with
    | .error fault => .error (.invalidRule type fault)
    | .ok rule =>
      match ofMembers rest with
      | .error e => .error e
      | .ok table => .ok ((type, rule) :: table)

/-- A table from the octets of a file. -/
def ofOctets (source : String) (octets : List UInt8) : Except Error Table :=
  match Json.ofOctets octets with
  | .error .undecodable => .error .undecodable
  | .error e => .error (.invalidJson source (e.message octets.length))
  | .ok (.obj members) => ofMembers members
  | .ok _ => .error (.notObject source)

/-- The component types of a table, in order. -/
def types (table : Table) : List String := Assoc.keys table

/-- **A table has exactly the types of its file, in order.** -/
theorem types_ofMembers {members : List (String × Json)} {table : Table}
    (h : ofMembers members = .ok table) : types table = Assoc.keys members := by
  induction members generalizing table with
  | nil => cases h; rfl
  | cons m rest ih =>
    obtain ⟨type, v⟩ := m
    simp only [ofMembers] at h
    split at h
    · cases h
    · split at h
      · cases h
      · next t ht =>
        cases h
        exact congrArg (type :: ·) (ih ht)

end Table
end Component
end ScreenForge
