/-
# Reading markup

A document is a declaration, comments and instructions, perhaps a document type, and one root
element.  `read?` scans it into tokens, replaces references and builds the tree, resolving the
namespaces of names on the way: `{uri}name` for a name in one.

A document is refused as a whole if any rule is broken, whatever the rule.
-/
import ScreenForge.Markup.Basic
import ScreenForge.Markup.Doctype

namespace ScreenForge
namespace Markup

/-- A part of the declaration of a document: a name and a value. -/
def pseudoAttribute? (name : String) (s : List Char) : Option (List Char × List Char) :=
  needSpace? s >>= fun r => need? name.toList r >>= fun r => need? ['='] (skipSpace r) >>= fun r =>
    quoted? (skipSpace r) >>= fun (value, left) =>
      if value.all fun c => c.isAlphanum || c == '.' || c == '_' || c == '-' then
        some (value, left)
      else none

/-- The end of the declaration of a document. -/
def xmlDeclarationEnd? (s : List Char) : Option (List Char) := need? ['?', '>'] (skipSpace s)

/-- The declaration of a document behind its keyword: whether it stands alone, and what follows. -/
def xmlDeclaration? (s : List Char) : Option (Bool × List Char) :=
  pseudoAttribute? "version" s >>= fun (_, r) =>
    let encoded := (pseudoAttribute? "encoding" r).filter fun (value, _) =>
      value.head?.any Char.isAlpha
    let r := (encoded.map Prod.snd).getD r
    match pseudoAttribute? "standalone" r with
    | some (value, r) =>
      if value = "yes".toList then (xmlDeclarationEnd? r).map (true, ·)
      else if value = "no".toList then (xmlDeclarationEnd? r).map (false, ·)
      else none
    | none => (xmlDeclarationEnd? r).map (false, ·)

/-- What stands before the root element, and the text from there on. -/
def prolog? : Nat → Option Doctype → Bool → List Char → Option (Doctype × List Char)
  | 0, _, _, _ => none
  | fuel + 1, type, standalone, s =>
    match skipSpace s with
    | '<' :: '!' :: '-' :: '-' :: r => comment? r >>= prolog? fuel type standalone
    | '<' :: '?' :: r => instruction? r >>= prolog? fuel type standalone
    | '<' :: '!' :: r =>
      match type, need? "DOCTYPE".toList r with
      | none, some r =>
        doctype? standalone r >>= fun (d, r) => prolog? fuel (some d) standalone r
      | _, _ => none
    | r => some (type.getD {}, r)

/-- The namespace of names that start with `xml`. -/
def xmlNamespace : String := "http://www.w3.org/XML/1998/namespace"

/-- The namespace of namespace declarations. -/
def xmlnsNamespace : String := "http://www.w3.org/2000/xmlns/"

/-- Namespaces in scope by their shorthand, nearest first; the empty shorthand is the default. -/
abbrev Scope := List (String × String)

/-- The two parts of a qualified name; the first is empty without a colon. -/
def splitName (name : String) : String × String :=
  match name.toList.span (· != ':') with
  | (first, ':' :: rest) => (String.ofList first, String.ofList rest)
  | _ => ("", name)

/-- The namespace declared by an attribute: its shorthand. -/
def declared? (name : String) : Option String :=
  if name = "xmlns" then some ""
  else match splitName name with
    | ("xmlns", shorthand) => some shorthand
    | _ => none

/-- Whether a shorthand may be given a namespace. -/
def mayDeclare (shorthand uri : String) : Bool :=
  shorthand != "xmlns" && !uri.toList.contains '}' && (shorthand == "xml") == (uri == xmlNamespace)
    && uri != xmlnsNamespace && (uri != "" || shorthand == "")

/-- A name in its namespace. -/
def inNamespace (uri name : String) : String :=
  if uri = "" then name else "\x7b" ++ uri ++ "\x7d" ++ name

/-- An attribute's name in scope: without shorthand it is in no namespace. -/
def attributeName? (scope : Scope) (name : String) : Option String :=
  match splitName name with
  | ("", n) => some n
  | (shorthand, n) => (scope.lookup shorthand).map fun uri => inNamespace uri n

/-- An element's name in scope. -/
def elementName? (scope : Scope) (name : String) : Option String :=
  match splitName name with
  | ("", n) => some (inNamespace ((scope.lookup "").getD "") n)
  | (shorthand, n) => (scope.lookup shorthand).map fun uri => inNamespace uri n

/-- The attributes of a start tag with their values, those left out at the end. -/
def attributeValues? (d : Doctype) (element : String) (given : List (String × List Char)) :
    Option (List (String × String)) :=
  let rules := d.attributes.filter fun a => a.element == element
  let omitted := rules.filterMap fun a =>
    if Assoc.has a.name given then none else a.default.map fun v => (a.name, String.ofList v)
  let isPlainName := fun name => (rules.find? fun a => a.name == name).all AttributeRule.plain
  let read : Option (List (String × String)) := given.mapM fun g =>
    (valueOf? d.entities (isPlainName g.1) g.2).map fun v => (g.1, String.ofList v)
  read.map (· ++ omitted)

/-- Whether names are distinct. -/
def distinct : List String → Bool
  | [] => true
  | n :: rest => !rest.contains n && distinct rest

/-- The scope inside an element that declares namespaces. -/
def scopeIn? (scope : Scope) (attributes : List (String × String)) : Option Scope :=
  attributes.foldlM (fun scope a =>
    match declared? a.1 with
    | none => some scope
    | some shorthand =>
      if mayDeclare shorthand a.2 then some ((shorthand, a.2) :: scope) else none) scope

/-- An element that is being read. -/
structure Frame where
  /-- The name in its tag, which the end tag repeats. -/
  tag : String
  name : String
  attributes : List (String × String)
  scope : Scope
  /-- The text before the first element inside, last character first. -/
  text : List Char := []
  /-- The elements inside, last first. -/
  children : List Element := []

namespace Frame

/-- The element of a start tag. -/
def ofTag? (d : Doctype) (scope : Scope) (tag : String) (given : List (String × List Char)) :
    Option Frame := do
  guard (distinct (Assoc.keys given))
  let values ← attributeValues? d tag given
  let scope ← scopeIn? scope values
  let name ← elementName? scope tag
  let attributes ← (values.filter fun a => (declared? a.1).isNone).mapM fun a =>
    (attributeName? scope a.1).map fun n => (n, a.2)
  guard (distinct (Assoc.keys attributes))
  return { tag, name, attributes, scope }

/-- The element of a frame that is complete. -/
def element (f : Frame) : Element :=
  ⟨f.name, f.attributes, String.ofList f.text.reverse, f.children.reverse⟩

/-- Adds text; behind an element inside it does not count. -/
def addText (f : Frame) (s : List Char) : Frame :=
  if f.children.isEmpty then { f with text := s.reverse ++ f.text } else f

/-- Adds an element. -/
def addChild (f : Frame) (e : Element) : Frame := { f with children := e :: f.children }

end Frame

/-- Whether tokens behind the root element are blank. -/
def isTrailing : Token → Bool
  | .text s => s.all isSpace
  | _ => false

/-- The root element from the tokens inside the innermost frame, with the frames around it. -/
def build? (d : Doctype) : Frame → List Frame → List Token → Option Element
  | _, _, [] => none
  | f, outer, .text s :: rest => build? d (f.addText s) outer rest
  | f, outer, .verbatim s :: rest => build? d (f.addText s) outer rest
  | _, _, .reference _ :: _ => none
  | f, outer, .opening tag given empty :: rest =>
    match Frame.ofTag? d f.scope tag given with
    | none => none
    | some inner =>
      if empty then build? d (f.addChild inner.element) outer rest
      else build? d inner (f :: outer) rest
  | f, outer, .closing tag :: rest =>
    if tag != f.tag then none
    else match outer with
      | g :: outer => build? d (g.addChild f.element) outer rest
      | [] => if rest.all isTrailing then some f.element else none

/-- The namespaces in scope of a document. -/
def documentScope : Scope := [("xml", xmlNamespace)]

/-- The root element of tokens. -/
def root? (d : Doctype) : List Token → Option Element
  | .opening tag given empty :: rest =>
    match Frame.ofTag? d documentScope tag given with
    | none => none
    | some f =>
      if empty then if rest.all isTrailing then some f.element else none
      else build? d f [] rest
  | _ => none

/-- A text without a byte order mark. -/
def dropMark : List Char → List Char
  | c :: rest => if c.toNat = 0xFEFF then rest else c :: rest
  | [] => []

/-- The declaration of a document, if it starts with one. -/
def start? (s : List Char) : Option (Bool × List Char) :=
  match need? "<?xml".toList s with
  | some (c :: r) => if isSpace c then xmlDeclaration? (c :: r) else some (false, s)
  | _ => some (false, s)

/-- The root element of a document. -/
def read? (text : String) : Option Element := do
  let (standalone, body) ← start? (dropMark (Text.normalizeLines text.toList))
  let (d, content) ← prolog? (body.length + 1) none standalone body
  let tokens ← scan? content
  let resolved ← resolve? d.entities tokens
  root? d resolved

end Markup
end ScreenForge
