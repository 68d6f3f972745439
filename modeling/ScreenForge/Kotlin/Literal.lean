/-
# Literals in Kotlin

A string literal escapes the backslash, the quote, the dollar sign that starts a template, and the
line breaks and tabs.  `textOfLiteral?` undoes the escapes.

A number block holds free text.  A whole number is written in canonical decimal digits, any other
finite number with the fewest digits that read back, and anything else is no number.
-/
import ScreenForge.Number.Numeral
import ScreenForge.Number.Style

namespace ScreenForge
namespace Kotlin

/-- The letter that stands for a character behind a backslash. -/
def escapeLetter? (c : Char) : Option Char :=
  if c = '\\' then some '\\'
  else if c = '"' then some '"'
  else if c = '$' then some '$'
  else if c = '\n' then some 'n'
  else if c = '\r' then some 'r'
  else if c = '\t' then some 't'
  else none

/-- A character inside a string literal. -/
def escapeChar (c : Char) : List Char :=
  match escapeLetter? c with
  | some e => ['\\', e]
  | none => [c]

/-- A text as a string literal. -/
def stringLiteral (s : String) : String :=
  String.ofList ('"' :: (s.toList.flatMap escapeChar ++ ['"']))

/-- The character that a letter behind a backslash stands for. -/
def unescapeLetter? (c : Char) : Option Char :=
  if c = '\\' then some '\\'
  else if c = '"' then some '"'
  else if c = '$' then some '$'
  else if c = 'n' then some '\n'
  else if c = 'r' then some '\r'
  else if c = 't' then some '\t'
  else none

/-- Characters of a literal behind its opening quote; the closing quote has to be the last one. -/
def unescape? : List Char → Option (List Char)
  | ['"'] => some []
  | '\\' :: e :: rest =>
    match unescapeLetter? e, unescape? rest with
    | some c, some cs => some (c :: cs)
    | _, _ => none
  | c :: rest =>
    if c = '"' ∨ c = '\\' ∨ c = '$' ∨ c = '\n' ∨ c = '\r' then none
    else (unescape? rest).map (c :: ·)
  | [] => none

/-- The text of a string literal. -/
def textOfLiteral? (literal : String) : Option String :=
  match literal.toList with
  | '"' :: rest => (unescape? rest).map String.ofList
  | _ => none

theorem unescapeLetter?_of_escapeLetter? {c e : Char} (h : escapeLetter? c = some e) :
    unescapeLetter? e = some c := by
  unfold escapeLetter? at h
  split at h
  · next hc => cases h; subst hc; decide
  split at h
  · next hc => cases h; subst hc; decide
  split at h
  · next hc => cases h; subst hc; decide
  split at h
  · next hc => cases h; subst hc; decide
  split at h
  · next hc => cases h; subst hc; decide
  split at h
  · next hc => cases h; subst hc; decide
  · cases h

theorem mem_letters_of_escapeLetter? {c e : Char} (h : escapeLetter? c = some e) :
    e ∈ ['\\', '"', '$', 'n', 'r', 't'] := by
  unfold escapeLetter? at h
  grind

/-- A text as a number literal, if it spells a finite number. -/
def numberLiteral? (s : String) : Option String :=
  let body := Text.stripChars s.toList
  match Numeral.integerChars? body with
  | some n => some (toString n)
  | none =>
    match Numeral.decimalChars? body with
    | some (.finite negative m e) => some (FloatStyle.plain.render (.finite negative m e))
    | _ => none

/-- An expression as the receiver of a member call: one that starts with a minus is bracketed. -/
def receiver (e : String) : String :=
  if e.toList.head? = some '-' then "(" ++ e ++ ")" else e

/-- Four blanks a level. -/
def tab (level : Int) : String := String.ofList (List.replicate (4 * level.toNat) ' ')

/-- Indents lines that are not empty. -/
def indent (lines : List String) (level : Int := 1) : List String :=
  lines.map fun line => if line = "" then line else tab level ++ line

end Kotlin
end ScreenForge
