/-
# Characters and names of markup

Which characters a document may hold, which ones are blank, and how names are spelt.  A plain name
has no colon; a qualified name has at most one, between two plain names.  The scanners return what
they took and what is left.
-/
import ScreenForge.Markup.NameTable
import ScreenForge.Text.LetterCase
import ScreenForge.Text.Split

namespace ScreenForge
namespace Markup

/-- Whether a document may hold a character. -/
def isLegal (c : Char) : Bool :=
  let n := c.toNat
  n == 0x09 || n == 0x0A || n == 0x0D || (0x20 ≤ n && n ≤ 0xFFFD) || 0x10000 ≤ n

/-- The four blanks of markup. -/
def isSpace (c : Char) : Bool := c == ' ' || c == '\t' || c == '\n' || c == '\r'

/-- Whether a character may start a plain name. -/
def isNameStart (c : Char) : Bool :=
  c.isAlpha || c == '_' || (0x80 ≤ c.toNat && Text.inStretches nameStartStretches c.toNat)

/-- Whether a character may stand in a plain name. -/
def isNameChar (c : Char) : Bool :=
  isNameStart c || c.isDigit || c == '-' || c == '.'
    || (0x80 ≤ c.toNat && Text.inStretches nameContinueStretches c.toNat)

/-- Drops blanks. -/
def skipSpace (s : List Char) : List Char := s.dropWhile isSpace

/-- Drops at least one blank. -/
def needSpace? : List Char → Option (List Char)
  | c :: rest => if isSpace c then some (skipSpace rest) else none
  | [] => none

/-- Drops an exact text. -/
def need? : List Char → List Char → Option (List Char)
  | [], s => some s
  | c :: rest, d :: s => if c = d then need? rest s else none
  | _ :: _, [] => none

/-- A plain name. -/
def plainName? : List Char → Option (List Char × List Char)
  | c :: rest =>
    if isNameStart c then some (c :: rest.takeWhile isNameChar, rest.dropWhile isNameChar)
    else none
  | [] => none

/-- A qualified name. -/
def qualifiedName? (s : List Char) : Option (List Char × List Char) :=
  match plainName? s with
  | some (first, ':' :: rest) =>
    match plainName? rest with
    | some (_, ':' :: _) => none
    | some (second, left) => some (first ++ ':' :: second, left)
    | none => none
  | r => r

/-- The text before the first occurrence of a mark, and the text behind the mark. -/
def upTo? (mark : List Char) : List Char → Option (List Char × List Char)
  | [] => none
  | c :: rest =>
    if Text.startsWith (c :: rest) mark then some ([], (c :: rest).drop mark.length)
    else (upTo? mark rest).map fun (taken, left) => (c :: taken, left)

/-- A text between two equal quotes of either kind. -/
def quoted? : List Char → Option (List Char × List Char)
  | '"' :: rest => upTo? ['"'] rest
  | '\'' :: rest => upTo? ['\''] rest
  | _ => none

end Markup
end ScreenForge
