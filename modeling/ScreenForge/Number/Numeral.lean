/-
# Numbers written by people

Properties and block fields hold numbers as free text.  A numeral may be surrounded by blanks, has
an optional sign, takes the decimal digits of any script, and may have single underscores between
digits.  `integer?` reads whole numbers of at most 4300 digits; `decimal?` also reads a point, an
exponent and the words for what is not finite.
-/
import ScreenForge.Text.Blank
import ScreenForge.Text.Digit
import ScreenForge.Number.Binary64

namespace ScreenForge
namespace Numeral

/-- Blanks that may surround a numeral: all but the four information separators. -/
def isPadding (c : Char) : Bool := Text.isBlank c && !(0x1C ≤ c.toNat && c.toNat ≤ 0x1F)

/-- A character of a numeral in ASCII: digits of other scripts become ASCII digits. -/
def toAscii (c : Char) : Char :=
  if c.toNat < 127 then c
  else match Text.digitValue? c with
    | some v => Text.asciiDigit v
    | none => c

/-- A numeral without surrounding blanks, digits in ASCII. -/
def clean (s : List Char) : List Char :=
  (Text.dropEndWhile isPadding (s.dropWhile isPadding)).map toAscii

/-- The sign of a numeral and the rest. -/
def takeSign : List Char → Bool × List Char
  | '+' :: rest => (false, rest)
  | '-' :: rest => (true, rest)
  | rest => (false, rest)

/-- Whether an ASCII digit. -/
def isDigit (c : Char) : Bool := '0' ≤ c && c ≤ '9'

/-- Drops underscores that stand between digits; `none` if one stands elsewhere. -/
def dropUnderscores? : Char → List Char → Option (List Char)
  | before, [] => if before = '_' then none else some []
  | before, c :: rest =>
    if c = '_' then
      if isDigit before then dropUnderscores? c rest else none
    else if before = '_' && !isDigit c then none
    else (dropUnderscores? c rest).map (c :: ·)

/-- The value of a list of ASCII digits. -/
def digitsValue (ds : List Char) : Nat := ds.foldl (fun n d => n * 10 + (d.toNat - 0x30)) 0

/-- The most digits that a whole number may be written with. -/
def maxDigits : Nat := 4300

/-- The whole number that a text spells. -/
def integerChars? (s : List Char) : Option Int :=
  let (negative, body) := takeSign (clean s)
  match dropUnderscores? ' ' body with
  | some (d :: ds) =>
    if (d :: ds).all isDigit && (d :: ds).length ≤ maxDigits then
      let n : Int := digitsValue (d :: ds)
      some (if negative then -n else n)
    else none
  | _ => none

/-- The whole number that a text spells. -/
def integer? (s : String) : Option Int := integerChars? s.toList

/-- The exponent part of a numeral; its absence is zero. -/
def exponent? : List Char → Option Int
  | [] => some 0
  | e :: rest =>
    if e = 'e' || e = 'E' then
      let (negative, ds) := takeSign rest
      if ds.isEmpty || !ds.all isDigit then none
      else
        let n : Int := digitsValue ds
        some (if negative then -n else n)
    else none

/-- A decimal numeral without sign and underscores: digits, a point among them, an exponent. -/
def unsigned? (negative : Bool) (s : List Char) : Option Binary64 :=
  let whole := s.takeWhile isDigit
  let rest := s.dropWhile isDigit
  let (fraction, tail) := match rest with
    | '.' :: r => (r.takeWhile isDigit, r.dropWhile isDigit)
    | r => ([], r)
  if whole.isEmpty && fraction.isEmpty then none
  else (exponent? tail).map fun e =>
    Binary64.ofDecimal negative (digitsValue (whole ++ fraction)) (e - fraction.length)

/-- The number that a text spells, rounded to the nearest of the format. -/
def decimalChars? (s : List Char) : Option Binary64 :=
  match dropUnderscores? ' ' (clean s) with
  | none => none
  | some body =>
    let (negative, rest) := takeSign body
    let word := String.ofList (rest.map Char.toLower)
    if word = "inf" || word = "infinity" then some (.infinite negative)
    else if word = "nan" then some .nan
    else unsigned? negative rest

/-- The number that a text spells, rounded to the nearest of the format. -/
def decimal? (s : String) : Option Binary64 := decimalChars? s.toList

end Numeral
end ScreenForge
