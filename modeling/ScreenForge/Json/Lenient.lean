/-
# Reading damaged JSON

Descriptors edited by hand lose a comma or a bracket.  `repair` reads such a text as the value it
most likely was: commas between members and items are optional and may trail, strings take either
quote, names need no quotes, a list ends at its bracket, at a brace (which it takes) or at the end,
and an object ends at its brace or at the end.  A string in a list that a colon follows starts an
object.  Characters that can start nothing are passed over.  Values that follow the first one make
the whole a list.

A text that is well-formed except for numbers that are not finite is read as it stands.
-/
import ScreenForge.Json.Reader

namespace ScreenForge
namespace Json
namespace Lenient

/-- Whether a character opens a quoted string. -/
def isQuote (c : Char) : Bool := c == '"' || c == '\''

/-- Whether a character may start a word without quotes. -/
def isWordStart (c : Char) : Bool := c.isAlpha || Numeral.isDigit c || c.toNat ≥ 0x80

/-- A quoted string behind its opening quote: its characters and what follows the closing one. -/
def quotedFrom (quote : Char) : List Char → List Char → List Char × List Char
  | [], acc => (acc.reverse, [])
  | ['\\'], acc => (('\\' :: acc).reverse, [])
  | '\\' :: c :: rest, acc =>
    match simpleEscape? c with
    | some x => quotedFrom quote rest (x :: acc)
    | none => if c = quote then quotedFrom quote rest (c :: acc)
        else quotedFrom quote rest (c :: '\\' :: acc)
  | c :: rest, acc => if c = quote then (acc.reverse, rest) else quotedFrom quote rest (c :: acc)

/-- A word of a table at the start of the input, in any letter case. -/
def word? (input : List Char) : Option (Json × List Char) :=
  let starts := fun w : String => w.toList.isPrefixOf (input.map Char.toLower)
  if starts "true" then some (.bool true, input.drop 4)
  else if starts "false" then some (.bool false, input.drop 5)
  else if starts "null" then some (.null, input.drop 4)
  else none

/-- Text without quotes up to a separator, as a string. -/
def bare (input : List Char) : Json × List Char :=
  let stop := fun c : Char => c != ',' && c != '}' && c != ']'
  (.str (String.ofList (Text.dropEndWhile Text.isBlank (input.takeWhile stop))),
    input.dropWhile stop)

/-- A number, or the text that looks like one as a string. -/
def number (input : List Char) : Json × List Char :=
  let digit := fun c : Char => Numeral.isDigit c || c == '-' || c == '.' || c == 'e' || c == 'E'
  let lexeme := input.takeWhile digit
  (((number? extended lexeme).getD (.str (String.ofList lexeme))), input.dropWhile digit)

/-- A member's name and what follows it: quoted, or a word up to a colon, quote or blank. -/
def name (input : List Char) : String × List Char :=
  match input.dropWhile fun c => !isQuote c && !isWordStart c with
  | [] => ("", [])
  | c :: rest =>
    if isQuote c then
      let (chars, r) := quotedFrom c rest []
      (String.ofList chars, r)
    else
      let inWord := fun c : Char => c != ':' && c != '"' && !Text.isBlank c
      let r := (c :: rest).dropWhile inWord
      (String.ofList ((c :: rest).takeWhile inWord),
        match r with
        | '"' :: r => r
        | r => r)

/-- Whether a quoted string is a name: a colon follows it. -/
def isQuotedName (quote : Char) (rest : List Char) : Bool :=
  ((quotedFrom quote rest []).2.dropWhile Text.isBlank).head? == some ':'

/-- Drops one separator, then blanks. -/
def afterValue : List Char → List Char
  | c :: rest =>
    if c == ',' || isQuote c then rest.dropWhile Text.isBlank
    else (c :: rest).dropWhile Text.isBlank
  | [] => []

mutual

/-- The value at the start of the input, passing over what starts none. -/
def value : Nat → List Char → Json × List Char
  | 0, input => (.str "", input)
  | _ + 1, [] => (.str "", [])
  | fuel + 1, c :: rest =>
    if c = '{' then members fuel rest []
    else if c = '[' then items fuel rest []
    else if c = '}' then (.str "", c :: rest)
    else if isQuote c then
      let (chars, r) := quotedFrom c rest []
      (.str (String.ofList chars), r)
    else if Numeral.isDigit c || c == '-' || c == '.' then number (c :: rest)
    else if isWordStart c then (word? (c :: rest)).getD (bare (c :: rest))
    else value fuel rest

/-- Items of a list with those read so far, last first. -/
def items : Nat → List Char → List Json → Json × List Char
  | 0, input, acc => (.arr acc.reverse, input)
  | fuel + 1, input, acc =>
    match input.dropWhile fun c => Text.isBlank c || c == ',' with
    | [] => (.arr acc.reverse, [])
    | c :: rest =>
      if c = ']' || c = '}' then (.arr acc.reverse, rest)
      else
        let (v, r) := if isQuote c && isQuotedName c rest then members fuel (c :: rest) []
          else value fuel (c :: rest)
        items fuel r (v :: acc)

/-- Members of an object with those read so far. -/
def members : Nat → List Char → List (String × Json) → Json × List Char
  | 0, input, acc => (.obj acc, input)
  | fuel + 1, input, acc =>
    match input.dropWhile Text.isBlank with
    | [] => (.obj acc, [])
    | c :: rest =>
      if c = '}' then (.obj acc, rest)
      else
        let (key, r) := name (c :: rest)
        match r.dropWhile Text.isBlank with
        | [] => (.obj acc, [])
        | d :: r =>
          if d = '}' then (.obj acc, r)
          else
            let (v, r) := value fuel (r.dropWhile Text.isBlank)
            members fuel (afterValue r) (Assoc.put key v acc)

end

/-- Further containers behind the first value. -/
def others : Nat → List Char → List Json → List Json
  | 0, _, acc => acc.reverse
  | fuel + 1, input, acc =>
    match input.dropWhile fun c => c != '{' && c != '[' with
    | [] => acc.reverse
    | c :: rest =>
      let (v, r) := value (2 * rest.length + 4) (c :: rest)
      others fuel r (v :: acc)

end Lenient

/-- The value that a damaged text most likely was. -/
def repair (s : List Char) : Json :=
  match readWith extended (s.map some) with
  | .ok v => v
  | .error _ =>
    let (v, rest) := Lenient.value (2 * s.length + 2) s
    match Lenient.others rest.length rest [] with
    | [] => v
    | more => .arr (v :: more)

end Json
end ScreenForge
