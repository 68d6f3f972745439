/-
# Names in Kotlin

A name of a project becomes an identifier: blanks at its ends are dropped, every character but
ASCII letters, digits and the underscore becomes an underscore, the first letter takes the case
asked for, a leading digit gets an underscore in front and a keyword one behind.
-/
import ScreenForge.Text.Blank

namespace ScreenForge
namespace Kotlin

/-- The words that cannot be names. -/
def keywords : List String := [
  "as", "break", "class", "continue", "do", "else", "false", "for", "fun", "if", "in", "interface",
  "is", "null", "object", "package", "return", "super", "this", "throw", "true", "try", "typealias",
  "typeof", "val", "var", "when", "while"
]

/-- Whether an ASCII letter, a digit or the underscore. -/
def isNameChar (c : Char) : Bool := c.isAlphanum || c == '_'

/-- A character of a name, or an underscore in its place. -/
def nameChar (c : Char) : Char := if isNameChar c then c else '_'

/-- The case of the first letter of a name. -/
inductive Initial where
  | lower
  | upper
  deriving DecidableEq, Repr

/-- A letter in the case of an initial. -/
def Initial.apply : Initial → Char → Char
  | .lower, c => c.toLower
  | .upper, c => c.toUpper

/-- Characters of a name with its first letter in the case asked for; a leading digit gets an
underscore in front, and so does nothing at all. -/
def shape (initial : Initial) : List Char → List Char
  | [] => ['_']
  | c :: rest => if c.isDigit then '_' :: c :: rest else initial.apply c :: rest

/-- A name that is not a keyword. -/
def avoidKeyword (name : String) : String := if keywords.contains name then name ++ "_" else name

/-- The identifier of a name. -/
def identifier (name : String) (initial : Initial := .lower) : String :=
  avoidKeyword (String.ofList (shape initial ((Text.stripChars name.toList).map nameChar)))

end Kotlin
end ScreenForge
