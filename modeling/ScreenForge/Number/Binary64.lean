/-
# Binary floating point, exactly

A binary64 number is kept as the dyadic rational it is: `finite s m e` is `± m · 2 ^ e`.  Every
operation is exact arithmetic on natural numbers and integers, so what the converter computes can
be evaluated and reasoned about.

`ofRatio` rounds a positive quotient to the nearest number of the format, a tie going to the even
significand; `ofDecimal` and `ofInt?` are its two uses.  `truncate?` drops the fraction.
-/

namespace ScreenForge

/-- A number of the binary64 format.  A finite number is in normal form: the significand is below
`2 ^ 53`, the exponent at least `-1074`, and one of the two is at its limit. -/
inductive Binary64 where
  | finite (negative : Bool) (significand : Nat) (exponent : Int)
  | infinite (negative : Bool)
  | nan
  deriving DecidableEq, Repr

namespace Binary64

/-- The least exponent of a significand. -/
def leastExponent : Int := -1074

/-- The greatest exponent of a significand. -/
def greatestExponent : Int := 971

/-- Zero of either sign. -/
def zero (negative : Bool) : Binary64 := .finite negative 0 leastExponent

/-- The quotient rounded to a natural number, a half going to the even neighbour. -/
def roundQuotient (num den : Nat) : Nat :=
  let q := num / den
  let twice := 2 * (num % den)
  if twice > den || (twice == den && q % 2 == 1) then q + 1 else q

/-- The quotient `num / (den · 2 ^ e)` as a fraction of natural numbers. -/
def scaled (num den : Nat) (e : Int) : Nat × Nat :=
  if e ≥ 0 then (num, den * Nat.pow 2 e.toNat) else (num * Nat.pow 2 (-e).toNat, den)

/-- The exponent at which a positive quotient has a significand of 53 bits, or the least one. -/
def exponentFor (num den : Nat) : Int :=
  let guess := (num.log2 : Int) - den.log2 - 52
  let (n, d) := scaled num den guess
  max (if n / d < Nat.pow 2 52 then guess - 1 else guess) leastExponent

/-- The nearest number to a quotient of natural numbers with a positive denominator. -/
def ofRatio (negative : Bool) (num den : Nat) : Binary64 :=
  if num = 0 then zero negative
  else
    let e := exponentFor num den
    let (n, d) := scaled num den e
    let m := roundQuotient n d
    let (m, e) := if m = Nat.pow 2 53 then (Nat.pow 2 52, e + 1) else (m, e)
    if e > greatestExponent then .infinite negative else .finite negative m e

/-- The number of decimal digits of a natural number. -/
def digitCount (n : Nat) : Nat := (Nat.toDigits 10 n).length

/-- The nearest number to `± digits · 10 ^ exponent`.  A value of more than 310 places is beyond
the format, and one of fewer than -330 places below its least number. -/
def ofDecimal (negative : Bool) (digits : Nat) (exponent : Int) : Binary64 :=
  let places := (digitCount digits : Int) + exponent
  if digits = 0 then zero negative
  else if places > 310 then .infinite negative
  else if places < -330 then zero negative
  else if exponent ≥ 0 then ofRatio negative (digits * Nat.pow 10 exponent.toNat) 1
  else ofRatio negative digits (Nat.pow 10 (-exponent).toNat)

/-- The nearest number to an integer, if the format reaches that far. -/
def ofInt? (n : Int) : Option Binary64 :=
  match ofRatio (n < 0) n.natAbs 1 with
  | .infinite _ => none
  | x => some x

/-- A finite number as a fraction of integers. -/
def ratio (negative : Bool) (m : Nat) (e : Int) : Int × Nat :=
  let sign : Int := if negative then -1 else 1
  if e ≥ 0 then (sign * (m * Nat.pow 2 e.toNat : Nat), 1) else (sign * m, Nat.pow 2 (-e).toNat)

/-- The integer part, toward zero, of a finite number. -/
def truncate? : Binary64 → Option Int
  | .finite s m e =>
    let (n, d) := ratio s m e
    some (n.tdiv d)
  | _ => none

/-- Whether a number is finite and has no fraction. -/
def isInteger : Binary64 → Bool
  | .finite s m e =>
    let (n, d) := ratio s m e
    n % d == 0
  | _ => false

/-- A finite number in units of the least positive one. -/
def units (negative : Bool) (m : Nat) (e : Int) : Int :=
  let n : Int := (m * Nat.pow 2 (e - leastExponent).toNat : Nat)
  if negative then -n else n

/-- The order of the format; nothing compares with a number that is none. -/
def lt : Binary64 → Binary64 → Bool
  | .nan, _ => false
  | _, .nan => false
  | .infinite s, .infinite t => s && !t
  | .infinite s, .finite _ _ _ => s
  | .finite _ _ _, .infinite t => !t
  | .finite s m e, .finite t n f => units s m e < units t n f

/-- At most, in the order of the format. -/
def le : Binary64 → Binary64 → Bool
  | .nan, _ => false
  | _, .nan => false
  | x, y => !lt y x

/-- Whether a number equals zero, of either sign. -/
def isZero : Binary64 → Bool
  | .finite _ m _ => m == 0
  | _ => false

example : ofDecimal false 1 0 = .finite false (2 ^ 52) (-52) := by decide
example : ofDecimal false 9007199254740993 0 = .finite false (2 ^ 52) 1 := by decide
example : ofDecimal false 5 (-324) = .finite false 1 (-1074) := by decide +kernel
example : ofDecimal true 1 400 = .infinite true := by decide
example : (ofDecimal true 15 (-1)).truncate? = some (-1) := by decide

end Binary64
end ScreenForge
