/-
# Attribute values

A mapping rule says for each property how its value is written as an attribute: `Format`.  Sizes
are whole numbers of density-independent pixels, with two negative codes for the size of the
content and of the parent; colours turn `&H` into `#`; truth values and visibility are words; an
asset becomes a reference to a drawable.  Plain text that would read as a reference gets a
backslash.

A size or a whole number is read as a floating point number and cut; a text that is no number is
kept.  One beyond the floating point range has no whole number: `render?` is `none` exactly there.
-/
import ScreenForge.Component.Scalar
import ScreenForge.Number.Numeral
import ScreenForge.Text.LetterCase
import ScreenForge.Text.Split

namespace ScreenForge
namespace Component

/-- How a property value is written as an attribute value. -/
inductive Format where
  | text
  | dimension
  | color
  | boolean
  | visibility
  | sp
  | integer
  | drawable
  deriving DecidableEq, Repr

namespace Format

/-- All formats. -/
def all : List Format :=
  [.text, .dimension, .color, .boolean, .visibility, .sp, .integer, .drawable]

/-- The name of a format in tables. -/
def name : Format → String
  | .text => "text"
  | .dimension => "dimension"
  | .color => "color"
  | .boolean => "boolean"
  | .visibility => "visibility"
  | .sp => "sp"
  | .integer => "integer"
  | .drawable => "drawable"

/-- The format of a name. -/
def ofName? (s : String) : Option Format := all.find? fun f => f.name == s

theorem ofName?_name (f : Format) : ofName? f.name = some f := by cases f <;> decide

end Format

/-- The characters of resource names. -/
def isResourceChar (c : Char) : Bool := ('a' ≤ c && c ≤ 'z') || c.isDigit || c == '_'

/-- The name of a file without directories and without its last extension. -/
def fileStem (file : List Char) : List Char := Text.beforeLast '.' (Text.afterLast '/' file)

/-- A resource name from characters: never empty, and a letter first. -/
def resourceShape : List Char → List Char
  | [] => "asset".toList
  | c :: rest => if 'a' ≤ c && c ≤ 'z' then c :: rest else "res_".toList ++ c :: rest

/-- The resource name of an asset: its stem in lower case, `_` for every other character. -/
def resourceName (file : String) : String :=
  String.ofList (resourceShape ((Text.lowerChars (fileStem file.toList)).map fun c =>
    if isResourceChar c then c else '_'))

/-- What a text says about a whole number. -/
inductive Cut where
  /-- The number, without its fraction. -/
  | number (n : Int)
  /-- No number at all. -/
  | noNumber
  /-- A number beyond the range. -/
  | unbounded
  deriving DecidableEq, Repr

/-- A text as a floating point number without its fraction. -/
def cut (s : String) : Cut :=
  match Numeral.decimal? s with
  | none => .noNumber
  | some (.infinite _) => .unbounded
  | some x =>
    match x.truncate? with
    | some n => .number n
    | none => .noNumber

/-- A size in density-independent pixels, with the codes for content and parent. -/
def sizeText (n : Int) : String :=
  if n = -1 then "wrap_content"
  else if n = -2 ∨ n ≤ -1000 then "match_parent"
  else toString n ++ "dp"

/-- A colour: `&H` in front becomes `#`, in upper case. -/
def colorText (s : String) : String :=
  if Text.startsWith (Text.upperChars s.toList) ['&', 'H'] then
    "#" ++ Text.upper (String.ofList (s.toList.drop 2))
  else s

/-- Text that is not read as a reference. -/
def literalText (s : String) : String :=
  match s.toList.head? with
  | some c => if c = '@' ∨ c = '?' then "\\" ++ s else s
  | none => s

/-- Whether a text says yes, in any letter case. -/
def isTrue (s : String) : Bool := Text.lower s == "true"

/-- An attribute value; `none` for a number beyond the range where a whole number is asked for. -/
def Format.render? (format : Format) (value : Scalar) : Option String :=
  let s := value.asText
  match format with
  | .dimension =>
    match cut s with
    | .number n => some (sizeText n)
    | .noNumber => some s
    | .unbounded => none
  | .color => some (colorText s)
  | .boolean => some (if isTrue s then "true" else "false")
  | .visibility => some (if isTrue s then "visible" else "gone")
  | .sp => some (s ++ "sp")
  | .integer =>
    match cut s with
    | .number n => some (toString n)
    | .noNumber => some s
    | .unbounded => none
  | .drawable => some (if s = "" then s else "@drawable/" ++ resourceName s)
  | .text => some (literalText s)

end Component
end ScreenForge
