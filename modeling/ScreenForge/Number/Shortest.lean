/-
# The fewest digits that read back

A finite number is written with the fewest decimal digits that round to it.  The reals that round
to `m · 2 ^ e` form an interval whose ends belong to it exactly when `m` is even.  On the grid of
the multiples of a power of ten, only the two neighbours of the number can be the nearest grid
point inside that interval, so for one, two, … digits those two are tried; the first grid with a
hit gives the digits, the nearer of two hits wins, and a tie goes to the even one.
-/
import ScreenForge.Number.Binary64

namespace ScreenForge

/-- A positive decimal number `digits · 10 ^ exponent`. -/
structure Decimal where
  digits : Nat
  exponent : Int
  deriving DecidableEq, Repr

namespace Decimal

/-- The number without trailing zeros, with a bound on how many there are. -/
def trimFrom : Nat → Decimal → Decimal
  | 0, d => d
  | fuel + 1, d =>
    if d.digits % 10 = 0 && d.digits != 0 then trimFrom fuel ⟨d.digits / 10, d.exponent + 1⟩ else d

/-- The number without trailing zeros. -/
def trim (d : Decimal) : Decimal := trimFrom (Binary64.digitCount d.digits) d

end Decimal

namespace Binary64

/-- Four times a positive number and the ends of its rounding interval, in units of `2 ^ e`. -/
structure Neighbourhood where
  below : Nat
  value : Nat
  above : Nat
  closed : Bool

/-- The rounding interval of `m · 2 ^ e`.  Below a power of two the grid is twice as fine. -/
def neighbourhood (m : Nat) (e : Int) : Neighbourhood where
  below := if m = Nat.pow 2 52 ∧ e > leastExponent then 4 * m - 1 else 4 * m - 2
  value := 4 * m
  above := 4 * m + 2
  closed := m % 2 == 0

/-- The point of the grid of `10 ^ g` that lies in the rounding interval of `m · 2 ^ e` and is
nearest to it, if there is one. -/
def gridPoint? (m : Nat) (e g : Int) : Option Nat :=
  let b := neighbourhood m e
  -- everything is scaled to integers: quarter units of the number, and the grid's unit
  let up := (if e - 2 ≥ 0 then Nat.pow 2 (e - 2).toNat else 1)
    * (if g < 0 then Nat.pow 10 (-g).toNat else 1)
  let unit := (if e - 2 < 0 then Nat.pow 2 (2 - e).toNat else 1)
    * (if g ≥ 0 then Nat.pow 10 g.toNat else 1)
  let inside := fun d : Nat =>
    if b.closed then b.below * up ≤ d * unit && d * unit ≤ b.above * up
    else b.below * up < d * unit && d * unit < b.above * up
  let low := b.value * up / unit
  let high := low + 1
  match inside low, inside high with
  | false, false => none
  | true, false => some low
  | false, true => some high
  | true, true =>
    let toLow := b.value * up - low * unit
    let toHigh := high * unit - b.value * up
    if toLow < toHigh || (toLow == toHigh && low % 2 == 0) then some low else some high

/-- The decimal exponent of the first digit of a positive number `num / den`. -/
def leadingPlace (num den : Nat) : Int :=
  let guess : Int := ((num.log2 : Int) - den.log2) * 30103 / 100000
  let atLeast := fun k : Int =>
    if k ≥ 0 then decide (den * Nat.pow 10 k.toNat ≤ num)
    else decide (den ≤ num * Nat.pow 10 (-k).toNat)
  if atLeast (guess + 1) then guess + 1
  else if atLeast guess then guess
  else guess - 1

/-- The digits on the coarsest grid with a hit, trying `fuel` grids from one of `count` digits. -/
def shortestFrom : Nat → Nat → Nat → Int → Int → Decimal
  | 0, _, m, e, _ => ⟨m * Nat.pow 2 e.toNat, 0⟩
  | fuel + 1, count, m, e, place =>
    match gridPoint? m e (place - count + 1) with
    | some d => Decimal.trim ⟨d, place - count + 1⟩
    | none => shortestFrom fuel (count + 1) m e place

/-- The shortest decimal number that rounds to `m · 2 ^ e`, for a positive `m`. -/
def shortest (m : Nat) (e : Int) : Decimal :=
  let (num, den) := if e ≥ 0 then (m * Nat.pow 2 e.toNat, 1) else (m, Nat.pow 2 (-e).toNat)
  shortestFrom 17 1 m e (leadingPlace num den)

end Binary64
end ScreenForge
