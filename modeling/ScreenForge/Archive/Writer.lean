/-
# Writing archives

Each file becomes an entry, in order: a header, the data as stored blocks of the compressed format,
and a description in the directory at the end.  All entries carry the same moment, the first one
that the format knows, so that the same files give the same archive.

A header counts the octets of a name in two octets, so a longer name cannot be written (`write?`).
-/
import ScreenForge.Archive.Crc
import ScreenForge.Archive.Octets

namespace ScreenForge
namespace Archive

/-- The most octets of a stored block. -/
def blockSize : Nat := 65535

/-- Data as stored blocks, with a bound on their number. -/
def storedFrom : Nat → List UInt8 → List UInt8
  | 0, _ => []
  | fuel + 1, data =>
    let block := data.take blockSize
    let rest := data.drop blockSize
    (if rest.isEmpty then 1 else 0)
      :: (littleEndian 2 block.length ++ littleEndian 2 (65535 - block.length) ++ block
      ++ if rest.isEmpty then [] else storedFrom fuel rest)

/-- Data in the compressed format, as stored blocks. -/
def stored (data : List UInt8) : List UInt8 := storedFrom (data.length / blockSize + 1) data

/-- The date of all entries: the first of January 1980. -/
def firstDate : Nat := 0x21

/-- The rights of all entries: readable by all and writable by their owner. -/
def fileRights : Nat := 420 * 65536

/-- The fields that an entry's header and its description share. -/
def sharedFields (flags : Nat) (data packed : List UInt8) (name : List UInt8) : List UInt8 :=
  littleEndian 2 20 ++ littleEndian 2 flags ++ littleEndian 2 8 ++ littleEndian 2 0
    ++ littleEndian 2 firstDate ++ littleEndian 4 (crc32 (bytes data)).toNat
    ++ littleEndian 4 packed.length ++ littleEndian 4 data.length
    ++ littleEndian 2 name.length ++ littleEndian 2 0

/-- A name as it is written: up to a null character, and marked if it is not ASCII. -/
def writtenName (path : String) : Nat × List UInt8 :=
  let name := String.ofList (path.toList.takeWhile fun c => c.toNat != 0)
  (if name.toList.all fun c => c.toNat < 128 then 0 else 0x800, name.toUTF8.toList)

/-- The header and data of a file. -/
def entryOctets (path : String) (data : List UInt8) : List UInt8 :=
  let (flags, name) := writtenName path
  let packed := stored data
  littleEndian 4 0x04034B50 ++ sharedFields flags data packed name ++ name ++ packed

/-- The description of a file whose header is at an offset. -/
def directoryOctets (path : String) (data : List UInt8) (offset : Nat) : List UInt8 :=
  let (flags, name) := writtenName path
  littleEndian 4 0x02014B50 ++ littleEndian 1 20 ++ littleEndian 1 3
    ++ sharedFields flags data (stored data) name ++ littleEndian 2 0 ++ littleEndian 2 0
    ++ littleEndian 2 0 ++ littleEndian 4 fileRights ++ littleEndian 4 offset ++ name

/-- Entries and descriptions of files from an offset on. -/
def layOut : Nat → List (String × List UInt8) → List UInt8 × List UInt8
  | _, [] => ([], [])
  | offset, (path, data) :: rest =>
    let entry := entryOctets path data
    let (entries, descriptions) := layOut (offset + entry.length) rest
    (entry ++ entries, directoryOctets path data offset ++ descriptions)

/-- The most octets of a name. -/
def maxNameLength : Nat := 65535

/-- Whether a header has room for the name of a file. -/
def nameFits (path : String) : Bool := (writtenName path).2.length ≤ maxNameLength

/-- The archive of files whose names fit, in order. -/
def write (files : List (String × ByteArray)) : ByteArray :=
  let (entries, descriptions) := layOut 0 (files.map fun f => (f.1, f.2.toList))
  bytes (entries ++ descriptions ++ littleEndian 4 0x06054B50 ++ littleEndian 2 0
    ++ littleEndian 2 0 ++ littleEndian 2 files.length ++ littleEndian 2 files.length
    ++ littleEndian 4 descriptions.length ++ littleEndian 4 entries.length ++ littleEndian 2 0)

/-- The archive of files, in order; `none` if a name is too long for it. -/
def write? (files : List (String × ByteArray)) : Option ByteArray :=
  if files.all fun f => nameFits f.1 then some (write files) else none

end Archive
end ScreenForge
