/-
# Checksums

The checksum of an entry is the remainder of its bits, as a polynomial over two elements, under the
generator `0xEDB88320` (bits reversed), started from and ended with all ones.
-/

namespace ScreenForge
namespace Archive

/-- One bit of the division. -/
def crcBit (r : UInt32) : UInt32 :=
  if r &&& 1 = 1 then (r >>> 1) ^^^ 0xEDB88320 else r >>> 1

/-- One octet of the division. -/
def crcOctet (r : UInt32) (b : UInt8) : UInt32 :=
  Nat.repeat crcBit 8 (r ^^^ b.toUInt32)

/-- The checksum of octets. -/
def crc32 (data : ByteArray) : UInt32 := data.foldl crcOctet 0xFFFFFFFF ^^^ 0xFFFFFFFF

end Archive
end ScreenForge
