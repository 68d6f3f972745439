/-
# Numbers in octets

Archives hold whole numbers of two or four octets, the least significant one first.  Reading
beyond the end gives zeros and cutting beyond it gives less, so both are total; callers check
lengths where they matter.
-/

namespace ScreenForge
namespace Archive

/-- A number as so many octets, the least significant one first. -/
def littleEndian : Nat → Nat → List UInt8
  | 0, _ => []
  | width + 1, n => UInt8.ofNat (n % 256) :: littleEndian width (n / 256)

/-- The octet at a position. -/
def octetAt (data : ByteArray) (pos : Nat) : Nat := (data[pos]?.getD 0).toNat

/-- The number of so many octets at a position, the least significant one first. -/
def numberAt (data : ByteArray) (pos : Nat) : Nat → Nat
  | 0 => 0
  | width + 1 => octetAt data pos + 256 * numberAt data (pos + 1) width

/-- So many octets from a position on, or what there is of them. -/
def cut (data : ByteArray) (pos length : Nat) : ByteArray := data.extract pos (pos + length)

/-- Octets from a list. -/
def bytes (octets : List UInt8) : ByteArray := ⟨octets.toArray⟩

end Archive
end ScreenForge
