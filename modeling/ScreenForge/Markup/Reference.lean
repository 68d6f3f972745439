/-
# References

Text and attribute values may hold references: to a character by number, to one of five characters
by name, or to an entity that the document type declares.  An entity has a replacement text, or
none that this reader may fetch.

In an attribute value, blanks become spaces and references are replaced at once, also inside
replacement texts; a bound on the nesting rules out entities that contain themselves.
-/
import ScreenForge.Markup.Chars
import ScreenForge.Number.Numeral

namespace ScreenForge
namespace Markup

/-- What a document type declares under an entity's name. -/
inductive Entity where
  /-- A replacement text. -/
  | internal (text : List Char)
  /-- A resource elsewhere. -/
  | external
  deriving DecidableEq, Repr

/-- The declared entities. -/
structure Entities where
  general : List (String × Entity) := []
  /-- Whether declarations may exist that were not read. -/
  incomplete : Bool := false

/-- The value of a hexadecimal digit. -/
def hexDigit? (c : Char) : Option Nat :=
  if '0' ≤ c ∧ c ≤ '9' then some (c.toNat - 0x30)
  else if 'a' ≤ c ∧ c ≤ 'f' then some (c.toNat - 0x61 + 10)
  else if 'A' ≤ c ∧ c ≤ 'F' then some (c.toNat - 0x41 + 10)
  else none

/-- The value of digits in base sixteen. -/
def hexValue? (ds : List Char) : Option Nat :=
  if ds.isEmpty then none else (ds.mapM hexDigit?).map fun vs => vs.foldl (fun n v => n * 16 + v) 0

/-- The value of digits in base ten. -/
def decValue? (ds : List Char) : Option Nat :=
  if ds.isEmpty || !ds.all Numeral.isDigit then none else some (Numeral.digitsValue ds)

/-- The character of a number, if a document may hold it. -/
def charOfNumber? (n : Nat) : Option Char :=
  if n < 0x110000 && !(0xD800 ≤ n && n ≤ 0xDFFF) && isLegal (Char.ofNat n) then some (Char.ofNat n)
  else none

/-- A reference. -/
inductive Reference where
  | char (c : Char)
  | entity (name : String)
  deriving DecidableEq, Repr

/-- The characters that have names of their own. -/
def predefined? (name : String) : Option Char :=
  if name = "lt" then some '<'
  else if name = "gt" then some '>'
  else if name = "amp" then some '&'
  else if name = "quot" then some '"'
  else if name = "apos" then some '\''
  else none

/-- A reference behind its ampersand. -/
def reference? : List Char → Option (Reference × List Char)
  | '#' :: 'x' :: rest =>
    match upTo? [';'] rest with
    | some (ds, left) => (hexValue? ds >>= charOfNumber?).map fun c => (.char c, left)
    | none => none
  | '#' :: rest =>
    match upTo? [';'] rest with
    | some (ds, left) => (decValue? ds >>= charOfNumber?).map fun c => (.char c, left)
    | none => none
  | s =>
    match plainName? s with
    | some (name, ';' :: left) => some (.entity (String.ofList name), left)
    | _ => none

/-- A part of an attribute value. -/
inductive Piece where
  /-- A character as it stands in the text. -/
  | plain (c : Char)
  | reference (r : Reference)
  deriving DecidableEq, Repr

/-- The parts of an attribute value, with a bound on their number. -/
def piecesFrom : Nat → List Char → Option (List Piece)
  | _, [] => some []
  | 0, _ => none
  | fuel + 1, c :: rest =>
    if c = '&' then
      match reference? rest with
      | some (r, left) => (piecesFrom fuel left).map (.reference r :: ·)
      | none => none
    else if c = '<' || !isLegal c then none
    else (piecesFrom fuel rest).map (.plain c :: ·)

/-- The parts of an attribute value. -/
def pieces? (s : List Char) : Option (List Piece) := piecesFrom s.length s

/-- A character of an attribute value: blanks become spaces. -/
def attributeChar (c : Char) : Char := if isSpace c then ' ' else c

/-- The results of a partial function on a list, one behind the other. -/
def gather {α β : Type} (f : α → Option (List β)) : List α → Option (List β)
  | [] => some []
  | a :: rest =>
    match f a, gather f rest with
    | some s, some t => some (s ++ t)
    | _, _ => none

/-- What a part of an attribute value stands for, given how replacement texts are read. -/
def pieceValue (entities : Entities) (expand : List Char → Option (List Char)) :
    Piece → Option (List Char)
  | .plain c => some [attributeChar c]
  | .reference (.char c) => some [c]
  | .reference (.entity name) =>
    match predefined? name, entities.general.lookup name with
    | some c, _ => some [c]
    | none, some (.internal text) => expand text
    | none, some .external => none
    | none, none => if entities.incomplete then some [] else none

/-- The value of an attribute from the text between its quotes, with a bound on the nesting of
entities. -/
def valueIn (entities : Entities) : Nat → List Char → Option (List Char)
  | 0, s => pieces? s >>= gather (pieceValue entities fun _ => none)
  | depth + 1, s => pieces? s >>= gather (pieceValue entities (valueIn entities depth))

/-- The value of an attribute from the text between its quotes. -/
def attributeValue? (entities : Entities) (s : List Char) : Option (List Char) :=
  valueIn entities entities.general.length s

end Markup
end ScreenForge
