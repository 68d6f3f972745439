/-
# Document types

Before its root element a document may declare a type.  Of the declarations inside it, those of
entities and of default attribute values change what a reader sees; the others are passed over.
Declarations elsewhere are never fetched: after a reference to some, later ones are read only in a
document that says it stands alone.
-/
import ScreenForge.Assoc
import ScreenForge.Markup.Token

namespace ScreenForge
namespace Markup

/-- A declared attribute of an element. -/
structure AttributeRule where
  element : String
  name : String
  /-- Whether the value is plain text, so that its blanks count. -/
  plain : Bool
  /-- The value of an attribute that is left out. -/
  default : Option (List Char)

/-- What a document type declares. -/
structure Doctype where
  entities : Entities := {}
  attributes : List AttributeRule := []
  standalone : Bool := false
  /-- Whether further declarations count. -/
  active : Bool := true

namespace Doctype

/-- Notes declarations that are not read. -/
def outside (d : Doctype) : Doctype :=
  { d with entities := { d.entities with incomplete := !d.standalone } }

/-- Notes a reference to declarations that are not read. -/
def skip (d : Doctype) : Doctype := { d.outside with active := d.standalone }

/-- Declares an entity; the first declaration of a name counts. -/
def declare (d : Doctype) (name : String) (entity : Entity) : Doctype :=
  if !d.active || Assoc.has name d.entities.general then d
  else { d with entities := { d.entities with general := d.entities.general ++ [(name, entity)] } }

end Doctype

/-- A text between quotes, of characters that a document may hold. -/
def literal? (s : List Char) : Option (List Char × List Char) :=
  (quoted? s).filter fun (inside, _) => inside.all isLegal

/-- Whether a character may stand in a public name. -/
def isPublicChar (c : Char) : Bool :=
  c.isAlphanum || c == '\n' || c == '\r' || " -'()+,./:=?;!*#@$_%".toList.contains c

/-- A public name between quotes. -/
def publicId? (s : List Char) : Option (List Char) :=
  ((quoted? s).filter fun (inside, _) => inside.all isPublicChar).map Prod.snd

/-- A system name between quotes. -/
def systemId? (s : List Char) : Option (List Char) := (literal? s).map Prod.snd

/-- A reference to where something is: a system name, behind a public one or alone. -/
def externalId? (s : List Char) : Option (List Char) :=
  match need? "SYSTEM".toList s with
  | some r => needSpace? r >>= systemId?
  | none =>
    need? "PUBLIC".toList s >>= fun r => needSpace? r >>= publicId? >>= needSpace? >>= systemId?

/-- The replacement text of an entity: characters by number are replaced, entities are not. -/
def entityText : Nat → List Char → Option (List Char)
  | _, [] => some []
  | 0, _ => none
  | fuel + 1, c :: rest =>
    if c = '%' then none
    else if c = '&' then
      match reference? rest with
      | some (.char x, left) => (entityText fuel left).map (x :: ·)
      | some (.entity name, left) =>
        (entityText fuel left).map (('&' :: name.toList ++ [';']) ++ ·)
      | none => none
    else if isLegal c then (entityText fuel rest).map (c :: ·)
    else none

/-- What an entity is declared as, and what follows.  A text that does not count may refer to
anything. -/
def entityDefinition? (active parameter : Bool) (s : List Char) : Option (Entity × List Char) :=
  match literal? s with
  | some (literal, left) =>
    if active then (entityText literal.length literal).map fun text => (.internal text, left)
    else some (.internal [], left)
  | none =>
    externalId? s >>= fun r =>
      match need? "NDATA".toList (skipSpace r), parameter with
      | some q, false =>
        if (needSpace? r).isNone then none
        else needSpace? q >>= fun q => (plainName? q).map fun (_, left) => (.external, left)
      | some _, true => none
      | none, _ => some (.external, r)

/-- The end of a declaration. -/
def declarationEnd? (s : List Char) : Option (List Char) := need? ['>'] (skipSpace s)

/-- An entity declaration behind its keyword. -/
def entityDeclaration? (d : Doctype) (s : List Char) : Option (Doctype × List Char) :=
  needSpace? s >>= fun r =>
    let parameter := r.head? == some '%'
    (if parameter then needSpace? (r.drop 1) else some r) >>= fun r =>
      plainName? r >>= fun (name, r) =>
        needSpace? r >>= fun r =>
          entityDefinition? d.active parameter r >>= fun (entity, r) =>
            (declarationEnd? r).map fun left =>
              (if parameter then d else d.declare (String.ofList name) entity, left)

/-- A name in a declaration; behind the colon of a qualified one any name character may start. -/
def declaredName? (s : List Char) : Option (List Char × List Char) :=
  match plainName? s with
  | some (first, ':' :: rest) =>
    match rest.takeWhile isNameChar, rest.dropWhile isNameChar with
    | [], _ => none
    | _, ':' :: _ => none
    | second, left => some (first ++ ':' :: second, left)
  | r => r

/-- A word in a choice of values. -/
def choiceWord? (s : List Char) : Option (List Char) :=
  let inWord := fun c => isNameChar c || c == ':'
  match s.takeWhile inWord with
  | [] => none
  | _ => some (s.dropWhile inWord)

/-- A choice of words behind its opening bracket, each read by a reader. -/
def choice? (item? : List Char → Option (List Char)) : Nat → List Char → Option (List Char)
  | 0, _ => none
  | fuel + 1, s =>
    item? (skipSpace s) >>= fun r =>
      match skipSpace r with
      | ')' :: left => some left
      | '|' :: r => choice? item? fuel r
      | _ => none

/-- The type of an attribute: whether it is plain text, and what follows. -/
def attributeType? (s : List Char) : Option (Bool × List Char) :=
  match s with
  | '(' :: rest => (choice? choiceWord? (rest.length + 1) rest).map fun left => (false, left)
  | _ =>
    plainName? s >>= fun (word, left) =>
      let w := String.ofList word
      if w = "CDATA" then some (true, left)
      else if w = "NOTATION" then
        needSpace? left >>= need? ['('] >>= fun r =>
          (choice? (fun s => (plainName? s).map Prod.snd) (r.length + 1) r).map fun left =>
            (false, left)
      else if ["ID", "IDREF", "IDREFS", "ENTITY", "ENTITIES", "NMTOKEN", "NMTOKENS"].contains w then
        some (false, left)
      else none

/-- The default of an attribute, if it has one, and what follows. -/
def attributeDefault? (s : List Char) : Option (Option (List Char) × List Char) :=
  match need? "#REQUIRED".toList s, need? "#IMPLIED".toList s, need? "#FIXED".toList s with
  | some left, _, _ => some (none, left)
  | _, some left, _ => some (none, left)
  | _, _, some r => needSpace? r >>= fun r => (literal? r).map fun (v, left) => (some v, left)
  | _, _, _ => (literal? s).map fun (v, left) => (some v, left)

/-- Joins runs of spaces and drops those at the ends. -/
def collapse (s : List Char) : List Char :=
  let rec go : List Char → List Char
    | ' ' :: ' ' :: rest => go (' ' :: rest)
    | c :: rest => c :: go rest
    | [] => []
  let trimmed := (s.dropWhile (· == ' ')).reverse.dropWhile (· == ' ')
  go trimmed.reverse

/-- The value of an attribute, plain or not, from the text between its quotes. -/
def valueOf? (entities : Entities) (plain : Bool) (s : List Char) : Option (List Char) :=
  (attributeValue? entities s).map fun v => if plain then v else collapse v

/-- Declares an attribute; the first declaration counts.  A default is read where it stands. -/
def Doctype.declareAttribute? (d : Doctype) (element name : String) (plain : Bool)
    (default : Option (List Char)) : Option Doctype :=
  if !d.active then some d
  else
    (match default with
      | none => some none
      | some v => (valueOf? d.entities plain v).map some) >>= fun value =>
        if d.attributes.any fun a => a.element == element && a.name == name then some d
        else some { d with attributes := d.attributes ++ [⟨element, name, plain, value⟩] }

/-- Attributes of an element up to the end of the declaration. -/
def attributeRules? (element : String) : Nat → Doctype → List Char → Option (Doctype × List Char)
  | 0, _, _ => none
  | fuel + 1, d, s =>
    match declarationEnd? s with
    | some left => some (d, left)
    | none =>
      needSpace? s >>= fun r => declaredName? r >>= fun (name, r) => needSpace? r >>= fun r =>
        attributeType? r >>= fun (plain, r) => needSpace? r >>= fun r =>
          attributeDefault? r >>= fun (value, r) =>
            d.declareAttribute? element (String.ofList name) plain value >>= fun d =>
              attributeRules? element fuel d r

/-- An attribute declaration behind its keyword. -/
def attributeDeclaration? (d : Doctype) (s : List Char) : Option (Doctype × List Char) :=
  needSpace? s >>= fun r => declaredName? r >>= fun (element, r) =>
    attributeRules? (String.ofList element) (r.length + 1) d r

/-- Drops a mark that says how often something occurs. -/
def dropOccurrence : List Char → List Char
  | '?' :: rest => rest
  | '*' :: rest => rest
  | '+' :: rest => rest
  | s => s

/-- A content model inside its brackets: `marks` are the marks between the items of the open
groups, innermost first, and `item` says whether an item has to follow. -/
def modelFrom : Nat → List (Option Char) → Bool → List Char → Option (List Char)
  | 0, _, _, _ => none
  | _ + 1, [], _, s => some s
  | fuel + 1, mark :: outer, true, s =>
    match skipSpace s with
    | '(' :: r => modelFrom fuel (none :: mark :: outer) true r
    | r => declaredName? r >>= fun (_, r) => modelFrom fuel (mark :: outer) false (dropOccurrence r)
  | fuel + 1, mark :: outer, false, s =>
    match skipSpace s with
    | ')' :: r => modelFrom fuel outer false (dropOccurrence r)
    | c :: r =>
      if (c = ',' || c = '|') && (mark = none || mark = some c) then
        modelFrom fuel (some c :: outer) true r
      else none
    | [] => none

/-- A content model of text and elements, behind the mark for text. -/
def mixedFrom : Nat → Bool → List Char → Option (List Char)
  | 0, _, _ => none
  | fuel + 1, alone, s =>
    match skipSpace s with
    | ')' :: '*' :: r => some r
    | ')' :: r => if alone then some r else none
    | '|' :: r => declaredName? (skipSpace r) >>= fun (_, r) => mixedFrom fuel false r
    | _ => none

/-- What an element is declared to hold. -/
def contentModel? (s : List Char) : Option (List Char) :=
  match s with
  | '(' :: r =>
    match need? "#PCDATA".toList (skipSpace r) with
    | some r => mixedFrom (r.length + 1) true r
    | none => modelFrom (r.length + 1) [none] true r
  | _ =>
    plainName? s >>= fun (word, left) =>
      if word = "EMPTY".toList || word = "ANY".toList then some left else none

/-- An element declaration behind its keyword. -/
def elementDeclaration? (s : List Char) : Option (List Char) :=
  needSpace? s >>= declaredName? >>= fun (_, r) =>
    needSpace? r >>= contentModel? >>= declarationEnd?

/-- A declaration of a notation behind its keyword. -/
def notationDeclaration? (s : List Char) : Option (List Char) :=
  needSpace? s >>= plainName? >>= fun (_, r) => needSpace? r >>= fun r =>
    match externalId? r with
    | some r => declarationEnd? r
    | none =>
      need? "PUBLIC".toList r >>= fun r => needSpace? r >>= publicId? >>= declarationEnd?

/-- Declarations up to the closing bracket. -/
def subset? : Nat → Doctype → List Char → Option (Doctype × List Char)
  | 0, _, _ => none
  | fuel + 1, d, s =>
    match skipSpace s with
    | ']' :: left => some (d, left)
    | '%' :: r =>
      plainName? r >>= fun (_, r) => need? [';'] r >>= fun r => subset? fuel d.skip r
    | '<' :: '?' :: r => instruction? r >>= subset? fuel d
    | '<' :: '!' :: '-' :: '-' :: r => comment? r >>= subset? fuel d
    | r =>
      match need? "<!ENTITY".toList r, need? "<!ATTLIST".toList r, need? "<!ELEMENT".toList r,
        need? "<!NOTATION".toList r with
      | some r, _, _, _ => entityDeclaration? d r >>= fun (d, r) => subset? fuel d r
      | _, some r, _, _ => attributeDeclaration? d r >>= fun (d, r) => subset? fuel d r
      | _, _, some r, _ => elementDeclaration? r >>= subset? fuel d
      | _, _, _, some r => notationDeclaration? r >>= subset? fuel d
      | _, _, _, _ => none

/-- The part of a document type behind its name. -/
def doctypeRest? (d : Doctype) (s : List Char) : Option (Doctype × List Char) :=
  let located := (needSpace? s).isSome && (externalId? (skipSpace s)).isSome
  let d := if located then d.outside else d
  let r := skipSpace (if located then (externalId? (skipSpace s)).getD [] else s)
  match r with
  | '[' :: r =>
    subset? (r.length + 1) d r >>= fun (d, r) => (declarationEnd? r).map fun left => (d, left)
  | '>' :: left => some (d, left)
  | _ => none

/-- A document type behind its keyword. -/
def doctype? (standalone : Bool) (s : List Char) : Option (Doctype × List Char) :=
  needSpace? s >>= fun r => declaredName? r >>= fun (_, r) => doctypeRest? { standalone } r

end Markup
end ScreenForge
