/-
# Texts in octets

A file or a request body arrives as octets.  `symbols` reads them as UTF-8 without giving up at
the first fault: each well-formed sequence becomes its character, and each octet that belongs to
none becomes `none`.  A reader can then decide for itself where a fault matters; `text?` is the
strict reading, defined where no octet is at fault.
-/

namespace ScreenForge
namespace Text

/-- A character of a document, or an octet that belongs to no well-formed character. -/
abbrev Symbol := Option Char

/-- Whether an octet continues a character. -/
def isTail (b : UInt8) : Bool := 0x80 ≤ b.toNat && b.toNat ≤ 0xBF

/-- The character of two, three or four octets, if they are its shortest form. -/
def wide? (lead : Nat) (tails : List UInt8) : Option Char :=
  let code := tails.foldl (fun n b => n * 64 + (b.toNat - 0x80)) lead
  let least := match tails.length with
    | 1 => 0x80
    | 2 => 0x800
    | _ => 0x10000
  if tails.all isTail && least ≤ code && (code < 0xD800 || 0xDFFF < code) && code ≤ 0x10FFFF then
    some (Char.ofNat code)
  else none

/-- The character that the octets start with, and the octets behind it. -/
def take? : List UInt8 → Option (Char × List UInt8)
  | [] => none
  | a :: rest =>
    let n := a.toNat
    if n < 0x80 then some (Char.ofNat n, rest)
    else if 0xC0 ≤ n && n < 0xE0 then
      match rest with
      | b :: r => (wide? (n - 0xC0) [b]).map fun c => (c, r)
      | _ => none
    else if 0xE0 ≤ n && n < 0xF0 then
      match rest with
      | b :: c :: r => (wide? (n - 0xE0) [b, c]).map fun x => (x, r)
      | _ => none
    else if 0xF0 ≤ n && n < 0xF8 then
      match rest with
      | b :: c :: d :: r => (wide? (n - 0xF0) [b, c, d]).map fun x => (x, r)
      | _ => none
    else none

/-- `symbols` with a bound on the octets still to read, and the symbols read, last first. -/
def symbolsFrom : Nat → List UInt8 → List Symbol → List Symbol
  | 0, _, acc => acc.reverse
  | _ + 1, [], acc => acc.reverse
  | fuel + 1, a :: rest, acc =>
    match take? (a :: rest) with
    | some (c, r) => symbolsFrom fuel r (some c :: acc)
    | none => symbolsFrom fuel rest (none :: acc)

/-- Octets read as UTF-8, faults kept in place. -/
def symbols (octets : List UInt8) : List Symbol := symbolsFrom octets.length octets []

/-- The text of well-formed octets. -/
def text? (octets : ByteArray) : Option String := String.fromUTF8? octets

/-- The symbols of a text: its characters. -/
def symbolsOf (s : String) : List Symbol := s.toList.map some

end Text
end ScreenForge
