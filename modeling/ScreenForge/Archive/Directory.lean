/-
# Archives

An archive ends with a record that says where its directory is; the directory describes the
entries, and each entry has a header of its own before its data.  Junk before the archive and a
comment behind it do no harm.

`directory` reads the directory.  `Member.read` reads an entry, stored or compressed, and checks its
name and checksum.
-/
import ScreenForge.Archive.CodePage
import ScreenForge.Archive.Crc
import ScreenForge.Archive.Inflate

namespace ScreenForge
namespace Archive

/-- Why an archive or an entry cannot be read. -/
inductive Fault where
  /-- It is no archive, for a reason. -/
  | notArchive (detail : String)
  /-- An entry is damaged, in some way. -/
  | damaged (detail : String)
  /-- It asks for something that this reader lacks. -/
  | unsupported (detail : String)
  /-- An entry is encrypted. -/
  | encrypted
  /-- Compressed data breaks the rules. -/
  | badCompression
  /-- The data of an entry goes beyond the end of the archive. -/
  | cutOff
  /-- A name that is marked as UTF-8 is not. -/
  | undecodableName
  /-- The header of an entry would lie before the start of the archive. -/
  | negativeOffset
  /-- What another way to unpack may raise, by its type. -/
  | other (type detail : String)
  deriving DecidableEq, Repr

/-- The cause in words. -/
def Fault.message : Fault → String
  | .notArchive detail => detail
  | .damaged detail => detail
  | .unsupported detail => detail
  | .encrypted => "File is encrypted, password required for extraction"
  | .badCompression => "Error while decompressing data"
  | .cutOff => ""
  | .undecodableName => "an entry name is not valid UTF-8"
  | .negativeOffset => "negative seek value"
  | .other _ detail => detail

/-- An entry is not what its checksum says. -/
def wrongChecksum : Fault := .damaged "Bad CRC-32 for file"

/-- An entry is compressed in a way that this reader does not know. -/
def unknownMethod : Fault := .unsupported "That compression method is not supported"

/-- Whether a fault shows only while the data of an entry is unpacked. -/
def Fault.isLate (fault : Fault) : Bool :=
  fault == .badCompression || fault == .cutOff || fault == wrongChecksum

/-- An entry as the directory describes it. -/
structure Member where
  /-- The name as it is written. -/
  writtenName : String
  flags : Nat
  method : Nat
  time : Nat
  date : Nat
  crc : Nat
  compressedSize : Nat
  size : Nat
  attributes : Nat
  /-- Where its header starts. -/
  offset : Int
  /-- Where its data has to end: at the next header, or at the directory. -/
  bound : Int := 0
  deriving Repr

/-- The name of an entry, which ends before a null character. -/
def Member.name (m : Member) : String :=
  String.ofList (m.writtenName.toList.takeWhile fun c => c.toNat != 0)

/-- Day and time of an entry: year, month, day, hour, minute, second. -/
def Member.moment (m : Member) : List Nat :=
  [m.date / 512 + 1980, m.date / 32 % 16, m.date % 32, m.time / 2048, m.time / 32 % 64,
    m.time % 32 * 2]

/-- The size of the record at the end. -/
def endSize : Nat := 22

/-- The mark of an entry in the directory. -/
def directoryMark : Nat := 0x02014B50

/-- The mark of an entry's own header. -/
def headerMark : Nat := 0x04034B50

/-- Whether the mark of the last record is at a position. -/
def isEndMark (data : ByteArray) (pos : Nat) : Bool := numberAt data pos 4 == 0x06054B50

/-- The last position of the mark before a bound, at most so far back. -/
def lastEndMark (data : ByteArray) : Nat → Nat → Option Nat
  | 0, _ => none
  | fuel + 1, pos =>
    if isEndMark data pos then some pos
    else if pos = 0 then none
    else lastEndMark data fuel (pos - 1)

/-- Where the last record is: at the very end without a comment, or else the last mark within the
longest comment. -/
def endRecord? (data : ByteArray) : Option Nat :=
  let last := data.size - endSize
  if endSize ≤ data.size && isEndMark data last && numberAt data (last + 20) 2 == 0 then some last
  else
    match lastEndMark data (65536 + endSize - 3) (data.size - 4) with
    | some pos => if 4 ≤ data.size && pos + endSize ≤ data.size then some pos else none
    | none => none

/-- Bit of the flags that marks a name as UTF-8. -/
def isUtf8 (flags : Nat) : Bool := flags / 2048 % 2 == 1

/-- A name by its flags. -/
def nameText (flags : Nat) (octets : ByteArray) : Except Fault String :=
  if isUtf8 flags then
    match String.fromUTF8? octets with
    | some s => .ok s
    | none => .error .undecodableName
  else .ok (pageText octets)

/-- Sizes and offset of an entry after its extra fields, which hold those beyond 32 bits. -/
def wideSizes (extra : ByteArray) : Nat → Nat → Member → Except Fault Member
  | 0, _, m => .ok m
  | fuel + 1, pos, m =>
    if pos + 4 > extra.size then .ok m
    else
      let length := numberAt extra (pos + 2) 2
      if pos + 4 + length > extra.size then .error (.notArchive "Corrupt extra field")
      else if numberAt extra pos 2 != 1 then wideSizes extra fuel (pos + 4 + length) m
      else
        let field := cut extra (pos + 4) length
        let wide := fun (n used : Nat) =>
          if n != 0xFFFFFFFF then some (n, used)
          else if used + 8 ≤ field.size then some (numberAt field used 8, used + 8)
          else none
        match wide m.size 0 with
        | none => .error (.notArchive "Corrupt zip64 extra field. File size not found.")
        | some (size, used) =>
          match wide m.compressedSize used with
          | none => .error (.notArchive "Corrupt zip64 extra field. Compress size not found.")
          | some (compressedSize, used) =>
            match wide m.offset.toNat used with
            | none => .error (.notArchive "Corrupt zip64 extra field. Header offset not found.")
            | some (offset, _) =>
              wideSizes extra fuel (pos + 4 + length) { m with size, compressedSize, offset }

/-- The newest version of the format that this reader knows, times ten. -/
def newestVersion : Nat := 63

/-- One entry of a directory, and the position behind it. -/
def memberAt (dir : ByteArray) (shift : Int) (pos : Nat) : Except Fault (Member × Nat) :=
  if pos + 46 > dir.size then .error (.notArchive "Truncated central directory")
  else if numberAt dir pos 4 != directoryMark then
    .error (.notArchive "Bad magic number for central directory")
  else
    let nameLength := numberAt dir (pos + 28) 2
    let extraLength := numberAt dir (pos + 30) 2
    let commentLength := numberAt dir (pos + 32) 2
    let flags := numberAt dir (pos + 8) 2
    match nameText flags (cut dir (pos + 46) nameLength) with
    | .error e => .error e
    | .ok writtenName =>
      if numberAt dir (pos + 6) 1 > newestVersion then .error (.unsupported "zip file version")
      else
        let extra := cut dir (pos + 46 + nameLength) extraLength
        let m : Member :=
          { writtenName, flags
            method := numberAt dir (pos + 10) 2
            time := numberAt dir (pos + 12) 2
            date := numberAt dir (pos + 14) 2
            crc := numberAt dir (pos + 16) 4
            compressedSize := numberAt dir (pos + 20) 4
            size := numberAt dir (pos + 24) 4
            attributes := numberAt dir (pos + 38) 4
            offset := numberAt dir (pos + 42) 4 }
        (wideSizes extra extra.size 0 m).map fun m =>
          ({ m with offset := m.offset + shift },
            pos + 46 + nameLength + extraLength + commentLength)

/-- The entries of a directory of a size from a position on. -/
def membersFrom (dir : ByteArray) (size : Nat) (shift : Int) : Nat → Nat →
    Except Fault (List Member)
  | 0, _ => .ok []
  | fuel + 1, pos =>
    if pos ≥ size then .ok []
    else
      match memberAt dir shift pos with
      | .error e => .error e
      | .ok (m, next) => (membersFrom dir size shift fuel next).map (m :: ·)

/-- The least header position behind an entry's own.  A header that an earlier entry shares counts
as behind. -/
def nextHeader? (offset : Int) (earlier later : List Member) : Option Int :=
  let behind := (earlier.filter fun m => m.offset ≥ offset) ++
    (later.filter fun m => m.offset > offset)
  (behind.map Member.offset).min?

/-- Entries with the ends of their data, given those before them and where the directory starts. -/
def bounded (start : Int) (earlier : List Member) : List Member → List Member
  | [] => []
  | m :: later =>
    { m with bound := (nextHeader? m.offset earlier later).getD start }
      :: bounded start (m :: earlier) later

/-- Size and offset of the directory, and how far before the last record it ends: as a wide record
says if there is one and a locator of it, or else the last record. -/
def directoryPlace (data : ByteArray) (pos : Nat) : Except Fault (Nat × Nat × Nat) :=
  let locator := pos - 20
  let wide := pos - 76
  let narrow := (numberAt data (pos + 12) 4, numberAt data (pos + 16) 4, 0)
  if numberAt data locator 4 != 0x07064B50 then .ok narrow
  else if numberAt data (locator + 4) 4 != 0 || numberAt data (locator + 16) 4 > 1 then
    .error (.notArchive "zipfiles that span multiple disks are not supported")
  else if wide + 56 > data.size || numberAt data wide 4 != 0x06064B50 then .ok narrow
  else .ok (numberAt data (wide + 40) 8, numberAt data (wide + 48) 8, 76)

/-- The entries of an archive, in the order of its directory. -/
def directory (data : ByteArray) : Except Fault (List Member) := do
  let some pos := endRecord? data | throw (.notArchive "File is not a zip file")
  let (size, offset, gap) ← directoryPlace data pos
  let shift : Int := (pos : Int) - size - offset - gap
  let start : Int := offset + shift
  if start < 0 then throw (.notArchive "Bad offset for central directory")
  let members ← membersFrom (cut data start.toNat size) size shift (size + 1) 0
  return bounded start [] members

/-- The data of an entry from its compressed form, and whether that form was complete. -/
def expand (m : Member) (packed : ByteArray) : Except Fault ByteArray :=
  let whole := packed.size == m.compressedSize
  if m.method = 0 then
    if whole || (packed.size != 0 && m.size ≤ packed.size) then .ok (cut packed 0 m.size)
    else .error .cutOff
  else if m.method = 8 then
    let p := inflate packed
    match p.halt with
    | some .invalid => .error .badCompression
    | some .exhausted =>
      if whole || (packed.size != 0 && m.size ≤ p.out.size) then .ok (cut p.out 0 m.size)
      else .error .cutOff
    | none => .ok (cut p.out 0 m.size)
  else .error unknownMethod

/-- The data of an entry. -/
def Member.read (data : ByteArray) (m : Member) : Except Fault ByteArray := do
  let pos := m.offset.toNat
  if m.offset < 0 then throw .negativeOffset
  if pos + 30 > data.size then throw (.damaged "Truncated file header")
  if numberAt data pos 4 != headerMark then throw (.damaged "Bad magic number for file header")
  let nameLength := numberAt data (pos + 26) 2
  let extraLength := numberAt data (pos + 28) 2
  if m.flags / 32 % 2 = 1 then throw (.unsupported "compressed patched data (flag bit 5)")
  if m.flags / 64 % 2 = 1 then throw (.unsupported "strong encryption (flag bit 6)")
  let name ← nameText (numberAt data (pos + 6) 2) (cut data (pos + 30) nameLength)
  if name != m.writtenName then throw (.damaged "File name in directory and header differ")
  let first := min (pos + 30 + nameLength + extraLength) data.size
  if (first + m.compressedSize : Int) > m.bound then throw (.damaged "Overlapped entries")
  if m.flags % 2 = 1 then throw .encrypted
  let content ← expand m (cut data first m.compressedSize)
  if (crc32 content).toNat != m.crc then throw wrongChecksum
  return content

end Archive
end ScreenForge
