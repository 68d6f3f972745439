/-
# Values in running text

A value inside a text stands as it would be spoken of: a text as it is, the other values by their
words and digits.  Inside lists and objects texts are quoted.
-/
import ScreenForge.Json.Writer

namespace ScreenForge
namespace Json

/-- A character inside a quoted text. -/
def shownChar (quote c : Char) : List Char :=
  if c = quote ∨ c = '\\' then ['\\', c]
  else if c = '\n' then ['\\', 'n']
  else if c = '\r' then ['\\', 'r']
  else if c = '\t' then ['\\', 't']
  else if c.toNat < 0x20 ∨ c.toNat = 0x7F then
    ['\\', 'x', hexDigit (c.toNat / 16), hexDigit (c.toNat % 16)]
  else [c]

/-- A text in single quotes, or in double quotes if it holds only single ones. -/
def shownText (s : String) : List Char :=
  let quote := if s.toList.contains '\'' && !s.toList.contains '"' then '"' else '\''
  quote :: (s.toList.flatMap (shownChar quote) ++ [quote])

mutual

/-- A value inside a container. -/
def shown : Json → List Char
  | .null => "None".toList
  | .bool true => "True".toList
  | .bool false => "False".toList
  | .int n => intChars n
  | .float x => (FloatStyle.plain.render x).toList
  | .str s => shownText s
  | .arr items => '[' :: (shownItems items ++ [']'])
  | .obj members => '{' :: (shownMembers members ++ ['}'])

/-- Items with separators. -/
def shownItems : List Json → List Char
  | [] => []
  | [v] => shown v
  | v :: w :: rest => shown v ++ ',' :: ' ' :: shownItems (w :: rest)

/-- Members with separators. -/
def shownMembers : List (String × Json) → List Char
  | [] => []
  | [(name, v)] => shownText name ++ ':' :: ' ' :: shown v
  | (name, v) :: m :: rest =>
    shownText name ++ ':' :: ' ' :: shown v ++ ',' :: ' ' :: shownMembers (m :: rest)

end

/-- A value in running text. -/
def display : Json → String
  | .str s => s
  | v => String.ofList (shown v)

end Json
end ScreenForge
