/-
# Writing JSON

A style says how strings are escaped, how numbers look and how containers are laid out.  Three are
in use: `compact` and `indented` write UTF-8 and escape what must be escaped, `ascii` escapes every
character outside printable ASCII and writes numbers that are not finite as words.

Data files hold whole numbers of 64 bits and at most 254 containers inside one another
(`fitsData`).  `dump?` picks the style: compact without indentation, with the ASCII style where the
value does not fit, indented by two if it fits, and the ASCII style for any other indentation.
-/
import ScreenForge.Json.Basic
import ScreenForge.Number.Style
import ScreenForge.Text.Split

namespace ScreenForge
namespace Json

/-- How a value is written. -/
structure Style where
  /-- The characters that a character of a string is written with. -/
  escape : Char → List Char
  /-- Floating point numbers. -/
  float : FloatStyle
  /-- What stands behind a member's name. -/
  colon : List Char
  /-- What stands between items on one line. -/
  comma : List Char
  /-- Blanks per level, with one item a line. -/
  indent : Option Nat

/-- A hexadecimal digit in lower case. -/
def hexDigit (v : Nat) : Char := if v < 10 then Char.ofNat (0x30 + v) else Char.ofNat (0x61 + v - 10)

/-- A code unit as an escape of six characters. -/
def unitEscape (unit : Nat) : List Char :=
  ['\\', 'u', hexDigit (unit / 4096 % 16), hexDigit (unit / 256 % 16), hexDigit (unit / 16 % 16),
    hexDigit (unit % 16)]

/-- The one-letter escapes that writers use. -/
def shortEscape? (c : Char) : Option Char :=
  if c = '"' then some '"'
  else if c = '\\' then some '\\'
  else if c = '\x08' then some 'b'
  else if c = '\x0c' then some 'f'
  else if c = '\n' then some 'n'
  else if c = '\r' then some 'r'
  else if c = '\t' then some 't'
  else none

/-- Escapes quotes, backslashes and control characters. -/
def escapeData (c : Char) : List Char :=
  match shortEscape? c with
  | some e => ['\\', e]
  | none => if c.toNat < 0x20 then unitEscape c.toNat else [c]

/-- Escapes whatever is not printable ASCII; characters beyond 16 bits become pairs. -/
def escapeAscii (c : Char) : List Char :=
  match shortEscape? c with
  | some e => ['\\', e]
  | none =>
    let n := c.toNat
    if 0x20 ≤ n && n ≤ 0x7E then [c]
    else if n < 0x10000 then unitEscape n
    else unitEscape (0xD800 + (n - 0x10000) / 0x400) ++ unitEscape (0xDC00 + (n - 0x10000) % 0x400)

/-- UTF-8 on one line without blanks. -/
def compact : Style := ⟨escapeData, .data, [':'], [','], none⟩

/-- UTF-8 with one item a line, two blanks a level. -/
def indented : Style := ⟨escapeData, .data, [':', ' '], [','], some 2⟩

/-- ASCII only, on one line or with one item a line. -/
def ascii (indent : Option Nat) : Style :=
  ⟨escapeAscii, .extended, [':', ' '], if indent.isSome then [','] else [',', ' '], indent⟩

/-- A string in a style. -/
def quoted (style : Style) (s : String) : List Char :=
  '"' :: (s.toList.flatMap style.escape ++ ['"'])

/-- The line break before an item at a depth. -/
def lineBreak (style : Style) (depth : Nat) : List Char :=
  match style.indent with
  | some n => '\n' :: List.replicate (n * depth) ' '
  | none => []

/-- A whole number in decimal digits. -/
def intChars (n : Int) : List Char :=
  if n < 0 then '-' :: Nat.toDigits 10 n.natAbs else Nat.toDigits 10 n.natAbs

mutual

/-- A value at a depth, in a style. -/
def write (style : Style) (depth : Nat) : Json → List Char
  | .null => ['n', 'u', 'l', 'l']
  | .bool true => ['t', 'r', 'u', 'e']
  | .bool false => ['f', 'a', 'l', 's', 'e']
  | .int n => intChars n
  | .float x => (style.float.render x).toList
  | .str s => quoted style s
  | .arr [] => ['[', ']']
  | .arr (v :: rest) =>
    '[' :: (lineBreak style (depth + 1) ++ write style (depth + 1) v
      ++ writeItems style (depth + 1) rest ++ lineBreak style depth ++ [']'])
  | .obj [] => ['{', '}']
  | .obj ((name, v) :: rest) =>
    '{' :: (lineBreak style (depth + 1) ++ quoted style name ++ style.colon
      ++ write style (depth + 1) v ++ writeMembers style (depth + 1) rest
      ++ lineBreak style depth ++ ['}'])

/-- Further items of a list, each behind its separator. -/
def writeItems (style : Style) (depth : Nat) : List Json → List Char
  | [] => []
  | v :: rest =>
    style.comma ++ lineBreak style depth ++ write style depth v ++ writeItems style depth rest

/-- Further members of an object, each behind its separator. -/
def writeMembers (style : Style) (depth : Nat) : List (String × Json) → List Char
  | [] => []
  | (name, v) :: rest =>
    style.comma ++ lineBreak style depth ++ quoted style name ++ style.colon
      ++ write style depth v ++ writeMembers style depth rest

end

/-- The text of a value in a style. -/
def render (style : Style) (v : Json) : String := String.ofList (write style 0 v)

/-- Whole numbers that data files hold. -/
def isDataInt (n : Int) : Bool := -0x8000000000000000 ≤ n && n < 0x10000000000000000

/-- The most containers inside one another in a data file. -/
def maxNesting : Nat := 254

mutual

/-- Whether a data file can hold a value, with this many more containers inside one another. -/
def fitsIn (room : Nat) : Json → Bool
  | .int n => isDataInt n
  | .arr items => room != 0 && itemsFitIn (room - 1) items
  | .obj members => room != 0 && membersFitIn (room - 1) members
  | _ => true

/-- `fitsIn` for every item. -/
def itemsFitIn (room : Nat) : List Json → Bool
  | [] => true
  | v :: rest => fitsIn room v && itemsFitIn room rest

/-- `fitsIn` for every member. -/
def membersFitIn (room : Nat) : List (String × Json) → Bool
  | [] => true
  | (_, v) :: rest => fitsIn room v && membersFitIn room rest

end

/-- Whether a data file can hold a value. -/
def fitsData (v : Json) : Bool := fitsIn maxNesting v

/-- A value with an indentation; `none` for a value that does not fit a file indented by two. -/
def dump? (indent : Int) (v : Json) : Option String :=
  if indent = 0 ∧ fitsData v = true then some (render compact v)
  else if indent = 2 then
    if fitsData v then some (render indented v) else none
  else some (render (ascii (if indent > 0 then some indent.toNat else none)) v)

end Json
end ScreenForge
