/-
# Base64

Six bits a character, in the alphabet `A` to `Z`, `a` to `z`, `0` to `9`, `+`, `/`.  Three octets
make four characters; a last group of one or two octets makes two or three characters and is
filled up with `=`.

`decode?` reads strictly: letters of the alphabet, then padding.  A last group of two letters
takes exactly two marks and one of three letters exactly one; complete groups may be followed by
any number of marks, provided there is a group at all.  The bits that a last letter has to spare
are ignored.
-/

namespace ScreenForge
namespace Text
namespace Base64

/-- The character of a six-bit value. -/
def letter (v : Nat) : Char :=
  if v < 26 then Char.ofNat (0x41 + v)
  else if v < 52 then Char.ofNat (0x61 + (v - 26))
  else if v < 62 then Char.ofNat (0x30 + (v - 52))
  else if v = 62 then '+' else '/'

/-- The six-bit value of a character of the alphabet. -/
def value? (c : Char) : Option Nat :=
  if 'A' ≤ c ∧ c ≤ 'Z' then some (c.toNat - 0x41)
  else if 'a' ≤ c ∧ c ≤ 'z' then some (c.toNat - 0x61 + 26)
  else if '0' ≤ c ∧ c ≤ '9' then some (c.toNat - 0x30 + 52)
  else if c = '+' then some 62
  else if c = '/' then some 63
  else none

theorem value?_letter : ∀ v < 64, value? (letter v) = some v := by decide

/-- Octets in base64, padded. -/
def encode : List UInt8 → List Char
  | [] => []
  | [a] =>
    let n := a.toNat * 16
    [letter (n / 64), letter (n % 64), '=', '=']
  | [a, b] =>
    let n := (a.toNat * 256 + b.toNat) * 4
    [letter (n / 4096), letter (n / 64 % 64), letter (n % 64), '=']
  | a :: b :: c :: rest =>
    let n := (a.toNat * 256 + b.toNat) * 256 + c.toNat
    letter (n / 262144) :: letter (n / 4096 % 64) :: letter (n / 64 % 64) :: letter (n % 64)
      :: encode rest

/-- The octets of six-bit values; a group of one value has none. -/
def octets : List Nat → List UInt8
  | a :: b :: c :: d :: rest =>
    let n := ((a * 64 + b) * 64 + c) * 64 + d
    UInt8.ofNat (n / 65536) :: UInt8.ofNat (n / 256 % 256) :: UInt8.ofNat (n % 256) :: octets rest
  | [a, b, c] =>
    let n := (a * 64 + b) * 64 + c
    [UInt8.ofNat (n / 1024), UInt8.ofNat (n / 4 % 256)]
  | [a, b] => [UInt8.ofNat ((a * 64 + b) / 16)]
  | _ => []

/-- Whether a number of padding marks may follow a number of letters. -/
def paddingFits (letters marks : Nat) : Bool :=
  match letters % 4 with
  | 0 => marks == 0 || letters != 0
  | 1 => false
  | 2 => marks == 2
  | _ => marks == 1

/-- Strict decoding. -/
def decode? (s : List Char) : Option (List UInt8) :=
  let letters := s.takeWhile (· != '=')
  let marks := s.dropWhile (· != '=')
  if marks.all (· == '=') && paddingFits letters.length marks.length then
    (letters.mapM value?).map octets
  else none

end Base64
end Text
end ScreenForge
