/-
# Tokens

The content of a document is a sequence of tags, text and references.  Comments and processing
instructions are passed over.  `scan?` cuts a text into tokens, and `resolve?` replaces references
by the tokens of their replacement texts, each of which has to be balanced on its own.
-/
import ScreenForge.Markup.Reference

namespace ScreenForge
namespace Markup

/-- A piece of content. -/
inductive Token where
  /-- A start tag; attribute values as they stand between their quotes. -/
  | opening (name : String) (attributes : List (String × List Char)) (empty : Bool)
  /-- An end tag. -/
  | closing (name : String)
  /-- Text as it stands. -/
  | text (s : List Char)
  /-- Text that stands for itself: a marked section, or what replaced a reference. -/
  | verbatim (s : List Char)
  /-- A reference to an entity. -/
  | reference (name : String)
  deriving DecidableEq, Repr

/-- The attributes of a start tag, whether it is empty, and what follows it. -/
def tagRest? : Nat → List Char → List (String × List Char) →
    Option (List (String × List Char) × Bool × List Char)
  | 0, _, _ => none
  | fuel + 1, s, acc =>
    match skipSpace s with
    | '>' :: left => some (acc.reverse, false, left)
    | '/' :: '>' :: left => some (acc.reverse, true, left)
    | t =>
      match needSpace? s, qualifiedName? t with
      | some _, some (name, r) =>
        match skipSpace r with
        | '=' :: r =>
          match quoted? (skipSpace r) with
          | some (value, left) =>
            if value.contains '<' then none
            else tagRest? fuel left ((String.ofList name, value) :: acc)
          | none => none
        | _ => none
      | _, _ => none

/-- A start tag behind its bracket. -/
def startTag? (s : List Char) : Option (Token × List Char) :=
  match qualifiedName? s with
  | some (name, r) =>
    (tagRest? (r.length + 1) r []).map fun (attributes, empty, left) =>
      (.opening (String.ofList name) attributes empty, left)
  | none => none

/-- An end tag behind its bracket and slash. -/
def endTag? (s : List Char) : Option (Token × List Char) :=
  match qualifiedName? s with
  | some (name, r) =>
    match skipSpace r with
    | '>' :: left => some (.closing (String.ofList name), left)
    | _ => none
  | none => none

/-- What follows a comment, behind its opening mark. -/
def comment? (s : List Char) : Option (List Char) :=
  match upTo? ['-', '-'] s with
  | some (inside, '>' :: left) => if inside.all isLegal then some left else none
  | _ => none

/-- Whether a name is reserved for the declaration of a document. -/
def isReservedTarget (name : List Char) : Bool := name.map Char.toLower == ['x', 'm', 'l']

/-- What follows a processing instruction, behind its opening mark. -/
def instruction? (s : List Char) : Option (List Char) :=
  match plainName? s with
  | some (name, r) =>
    if isReservedTarget name then none
    else match r with
      | '?' :: '>' :: left => some left
      | _ =>
        match needSpace? r with
        | some r =>
          match upTo? ['?', '>'] r with
          | some (inside, left) => if inside.all isLegal then some left else none
          | none => none
        | none => none
  | none => none

/-- The opening mark of a section of verbatim text. -/
def sectionMark : List Char := "<![CDATA[".toList

/-- Whether plain text is allowed: legal characters, and no mark that closes a section. -/
def isPlain (s : List Char) : Bool := s.all isLegal && (Text.indexOf? [']', ']', '>'] s).isNone

/-- Whether a character is plain text. -/
def isTextChar (c : Char) : Bool := c != '<' && c != '&'

/-- The next token, if there is one, and what follows; comments and instructions give none. -/
def token? : List Char → Option (Option Token × List Char)
  | [] => none
  | '<' :: '/' :: rest => (endTag? rest).map fun (t, left) => (some t, left)
  | '<' :: '!' :: '-' :: '-' :: rest => (comment? rest).map fun left => (none, left)
  | '<' :: '?' :: rest => (instruction? rest).map fun left => (none, left)
  | '<' :: rest =>
    match need? sectionMark ('<' :: rest) with
    | some r =>
      match upTo? [']', ']', '>'] r with
      | some (inside, left) =>
        if inside.all isLegal then some (some (.verbatim inside), left) else none
      | none => none
    | none => (startTag? rest).map fun (t, left) => (some t, left)
  | '&' :: rest =>
    match reference? rest with
    | some (.char c, left) => some (some (.verbatim [c]), left)
    | some (.entity name, left) =>
      match predefined? name with
      | some c => some (some (.verbatim [c]), left)
      | none => some (some (.reference name), left)
    | none => none
  | c :: rest =>
    let run := (c :: rest).takeWhile isTextChar
    if isPlain run then some (some (.text run), (c :: rest).dropWhile isTextChar) else none

/-- The tokens of a text, with a bound on their number. -/
def scanFrom : Nat → List Char → Option (List Token)
  | _, [] => some []
  | 0, _ => none
  | fuel + 1, s =>
    match token? s with
    | some (t, left) => (scanFrom fuel left).map (t.toList ++ ·)
    | none => none

/-- The tokens of a text. -/
def scan? (s : List Char) : Option (List Token) := scanFrom s.length s

/-- Whether every element that tokens open is closed among them, with so many open before. -/
def balanced : Nat → List Token → Bool
  | depth, [] => depth == 0
  | depth, .opening _ _ empty :: rest => balanced (if empty then depth else depth + 1) rest
  | 0, .closing _ :: _ => false
  | depth + 1, .closing _ :: rest => balanced depth rest
  | depth, _ :: rest => balanced depth rest

/-- Text that replaced a reference. -/
def Token.replaced : Token → Token
  | .text s => .verbatim s
  | t => t

/-- What a token stands for, given how replacement texts are read. -/
def tokenValue (entities : Entities) (expand : List Char → Option (List Token)) :
    Token → Option (List Token)
  | .reference name =>
    match entities.general.lookup name with
    | some (.internal text) => expand text
    | _ => none
  | t => some [t]

/-- The tokens of a replacement text, which has to be balanced, with a bound on the nesting of
entities. -/
def expansionIn (entities : Entities) : Nat → List Char → Option (List Token)
  | 0, _ => none
  | depth + 1, text =>
    match scan? (Text.normalizeLines text) with
    | some tokens =>
      if balanced 0 tokens then
        (gather (tokenValue entities (expansionIn entities depth)) tokens).map
          (·.map Token.replaced)
      else none
    | none => none

/-- Tokens with references replaced. -/
def resolve? (entities : Entities) (tokens : List Token) : Option (List Token) :=
  gather (tokenValue entities (expansionIn entities entities.general.length)) tokens

end Markup
end ScreenForge
