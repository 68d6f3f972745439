/-
# Upper and lower case

`upper` and `lower` apply Unicode's full case mappings: a letter may become several characters
(`ß` becomes `SS`), and a capital sigma becomes the final form `ς` at the end of a word.  A word
ends where the next character that is not ignored for casing has no case, and a sigma is final
only after a cased letter.
-/
import ScreenForge.Text.LetterCase.Table

namespace ScreenForge
namespace Text

/-- Whether a code point lies in a class.  The class is given by the lengths of the stretches of
code points outside and inside it, by turns, from zero on. -/
def inStretches : List Nat → Nat → Bool
  | outside :: inside :: rest, code =>
    outside ≤ code
      && (code < outside + inside || inStretches rest (code - (outside + inside)))
  | _, _ => false

/-- Whether a character has an upper, lower or title case form. -/
def isCased (c : Char) : Bool := inStretches casedStretches c.toNat

/-- Whether a character is passed over when looking for a cased neighbour. -/
def isCaseIgnorable (c : Char) : Bool := inStretches caseIgnorableStretches c.toNat

/-- The image of a character outside ASCII under a table of runs and expansions. -/
def mapCase (expansions : List (Nat × List Nat)) (runs : List CaseRun) (c : Char) : List Char :=
  match expansions.find? fun e => e.1 == c.toNat with
  | some e => e.2.map Char.ofNat
  | none =>
    match runs.find? fun r => r.contains c.toNat with
    | some r => [Char.ofNat ((c.toNat : Int) + r.offset).toNat]
    | none => [c]

/-- The upper case of one character. -/
def upperChar (c : Char) : List Char :=
  if c.toNat < 128 then [c.toUpper] else mapCase upperExpansions upperRuns c

/-- The lower case of one character that is not a capital sigma. -/
def lowerChar (c : Char) : List Char :=
  if c.toNat < 128 then [c.toLower] else mapCase lowerExpansions lowerRuns c

/-- Whether the nearest character that counts for casing has a case. -/
def meetsCased (neighbours : List Char) : Bool :=
  match neighbours.dropWhile isCaseIgnorable with
  | [] => false
  | c :: _ => isCased c

/-- The small sigma between what precedes it, nearest first, and what follows it. -/
def smallSigma (before after : List Char) : Char :=
  if meetsCased before && !meetsCased after then 'ς' else 'σ'

/-- Lower case of a text whose earlier characters are given, nearest first. -/
def lowerAfter : List Char → List Char → List Char
  | _, [] => []
  | before, c :: rest =>
    (if c = 'Σ' then [smallSigma before rest] else lowerChar c) ++ lowerAfter (c :: before) rest

/-- The lower case of a text. -/
def lowerChars (s : List Char) : List Char := lowerAfter [] s

/-- The upper case of a text. -/
def upperChars (s : List Char) : List Char := s.flatMap upperChar

/-- The lower case of a text. -/
def lower (s : String) : String := String.ofList (lowerChars s.toList)

/-- The upper case of a text. -/
def upper (s : String) : String := String.ofList (upperChars s.toList)

theorem lowerChar_ascii {c : Char} (h : c.toNat < 128) : lowerChar c = [c.toLower] := by
  simp [lowerChar, h]

end Text
end ScreenForge
