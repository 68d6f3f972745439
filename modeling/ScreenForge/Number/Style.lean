/-
# Floating point numbers as text

A style says where positional notation ends and how exponents look.  `render` writes a finite
number in a style: sign, digits, always a point in positional notation, and otherwise a mantissa
with an exponent.  Numbers that are not finite have their own words, which a style also names.
-/
import ScreenForge.Number.Shortest

namespace ScreenForge

/-- How floating point numbers are written. -/
structure FloatStyle where
  /-- The least exponent of a first digit that is written positionally. -/
  leastPositional : Int
  /-- The least exponent of a first digit that is written with an exponent again. -/
  firstScientific : Int
  /-- The least number of exponent digits. -/
  exponentWidth : Nat
  /-- The word for a positive number beyond the format. -/
  infinity : String
  /-- The word for a number that is none. -/
  notANumber : String

namespace FloatStyle

/-- Numbers in programs and messages: `1e-05`, `0.0001`, `1e+16`. -/
def plain : FloatStyle := ⟨-4, 16, 2, "inf", "nan"⟩

/-- Numbers in data files: `1e-7`, `0.00001`, `1e+16`.  What is not finite has no number there. -/
def data : FloatStyle := ⟨-5, 16, 1, "null", "null"⟩

/-- Numbers in data files that allow what is not finite. -/
def extended : FloatStyle := ⟨-4, 16, 2, "Infinity", "NaN"⟩

/-- Digits with the exponent of the first one, positionally. -/
def positional (digits : List Char) (place : Int) : List Char :=
  if place < 0 then
    '0' :: '.' :: (List.replicate (-place - 1).toNat '0' ++ digits)
  else
    let whole := place.toNat + 1
    let padded := digits ++ List.replicate (whole - digits.length) '0'
    let fraction := padded.drop whole
    padded.take whole ++ '.' :: (if fraction.isEmpty then ['0'] else fraction)

/-- Digits with the exponent of the first one, as mantissa and exponent. -/
def scientific (width : Nat) (digits : List Char) (place : Int) : List Char :=
  let mantissa := match digits with
    | [] => []
    | d :: [] => [d]
    | d :: rest => d :: '.' :: rest
  let magnitude := Nat.toDigits 10 place.natAbs
  mantissa ++ 'e' :: (if place < 0 then '-' else '+')
    :: (List.replicate (width - magnitude.length) '0' ++ magnitude)

/-- A decimal number in a style. -/
def decimal (style : FloatStyle) (d : Decimal) : List Char :=
  let digits := Nat.toDigits 10 d.digits
  let place := d.exponent + digits.length - 1
  if style.leastPositional ≤ place && place < style.firstScientific then positional digits place
  else scientific style.exponentWidth digits place

/-- A number in a style. -/
def render (style : FloatStyle) : Binary64 → String
  | .nan => style.notANumber
  | .infinite negative =>
    if negative && style.infinity != style.notANumber then "-" ++ style.infinity else style.infinity
  | .finite negative m e =>
    let body := if m = 0 then ['0', '.', '0'] else decimal style (Binary64.shortest m e)
    String.ofList (if negative then '-' :: body else body)

end FloatStyle
end ScreenForge
