/-
# Project archives

A project arrives as an archive.  The screen that is converted is described by two entries, found
by their file names wherever they are; of several the least name counts.  Entries below `assets/`
are media files, in the order of their names.  Sizes are bounded before anything is unpacked.

`select` works on entries with their contents, in any order; `read` unpacks an archive first.  What
is wanted is worked out before (`planOf`) and read at once.  If several entries fail, the first
failure in time is told, so the pace of the readings is part of a way to unpack (`Unpacker`).
-/
import ScreenForge.Archive.Directory
import ScreenForge.Project.Asset

namespace ScreenForge
namespace Project

/-- An entry of an archive: its size as announced, and its content or why there is none. -/
structure Entry where
  name : String
  size : Nat
  content : Except Archive.Fault ByteArray

/-- The screen of a project and its assets. -/
structure Source where
  screenName : String
  layout : String
  blocks : String
  assets : List Asset := []

/-- Why a project archive cannot be read. -/
inductive ArchiveError where
  | notArchive (detail : String)
  /-- The screen has no layout. -/
  | noLayout (screen : String)
  | descriptorTooLarge (entry : String) (limit : Int)
  | assetsTooLarge (limit : Int)
  | damagedEntry (detail : String)
  | notUtf8 (entry : String)
  /-- Something that an archive reader does not expect. -/
  | unexpected (cause : Archive.Fault)
  deriving DecidableEq, Repr

/-- The cause in words. -/
def ArchiveError.message : ArchiveError → String
  | .notArchive detail => "Uploaded file is not a valid .aia archive: " ++ detail
  | .noLayout screen => s!"Archive has no {screen}.scm entry"
  | .descriptorTooLarge entry limit => s!"Entry {entry} exceeds maximum size of {limit} bytes"
  | .assetsTooLarge limit => s!"Assets exceed maximum total size of {limit} bytes"
  | .damagedEntry detail => "Could not read archive entries: " ++ detail
  | .notUtf8 entry => s!"Entry {entry} is not valid UTF-8: invalid octet"
  | .unexpected cause => cause.message

/-- Bounds on the sizes of entries. -/
structure ArchiveLimits where
  maxDescriptorSize : Int := 4194304
  maxTotalSize : Int := 52428800

/-- The directory of media files. -/
def assetsDirectory : List Char := "assets/".toList

/-- Whether a path is a file name or ends in one. -/
def isFile (fileName path : String) : Bool :=
  path == fileName || ('/' :: fileName.toList).isSuffixOf path.toList

/-- Entries by name in code point order; of several with one name the last counts. -/
def byName (entries : List Entry) : List Entry :=
  let last := Assoc.ofList (entries.map fun e => (e.name, e))
  (last.mergeSort fun a b => a.1 ≤ b.1).map Prod.snd

/-- The entry of a file name: the least path. -/
def entryFor (entries : List Entry) (fileName : String) : Option Entry :=
  entries.find? fun e => isFile fileName e.name

/-- Why an entry cannot be read. -/
def Entry.failure? (e : Entry) : Option ArchiveError :=
  match e.content with
  | .ok _ => none
  | .error (.damaged detail) => some (.damagedEntry detail)
  | .error cause => some (.unexpected cause)

/-- The octets of an entry that can be read. -/
def Entry.bytes (e : Entry) : ByteArray := e.content.toOption.getD .empty

/-- Octets without a byte order mark. -/
def withoutMark (data : ByteArray) : ByteArray :=
  if data.toList.take 3 = [0xEF, 0xBB, 0xBF] then data.extract 3 data.size else data

/-- The text of an entry that can be read. -/
def textOf (e : Entry) : Except ArchiveError String :=
  match String.fromUTF8? (withoutMark e.bytes) with
  | some s => .ok s
  | none => .error (.notUtf8 e.name)

/-- The entries that are media files. -/
def assetEntries (entries : List Entry) : List Entry :=
  entries.filter fun e => Text.startsWith e.name.toList assetsDirectory

/-- The media file of an entry that can be read. -/
def Entry.asset (e : Entry) : Asset :=
  ⟨String.ofList (e.name.toList.drop assetsDirectory.length), e.bytes⟩

/-- The entries that a project is read from. -/
structure Plan where
  layout : Entry
  blocks : Option Entry
  assets : List Entry

/-- All entries that are read. -/
def Plan.wanted (p : Plan) : List Entry := p.layout :: (p.blocks.toList ++ p.assets)

/-- What is read for a screen, of entries that are no directories. -/
def planOf (screen : String) (limits : ArchiveLimits) (entries : List Entry) :
    Except ArchiveError Plan :=
  let entries := byName entries
  match entryFor entries (screen ++ ".scm") with
  | none => .error (.noLayout screen)
  | some layout =>
    let blocks := entryFor entries (screen ++ ".bky")
    let assets := assetEntries entries
    match (layout :: blocks.toList).find? fun e => (e.size : Int) > limits.maxDescriptorSize with
    | some e => .error (.descriptorTooLarge e.name limits.maxDescriptorSize)
    | none =>
      if (assets.foldr (fun e n => e.size + n) 0 : Nat) > limits.maxTotalSize then
        .error (.assetsTooLarge limits.maxTotalSize)
      else .ok ⟨layout, blocks, assets⟩

/-- What stops the reading of entries that are read at once: of those that fail, the one whose
reading ends first. -/
def firstFailure? (pace : Entry → Nat) (entries : List Entry) : Option ArchiveError :=
  ((entries.filter fun e => e.failure?.isSome).minOn? pace).bind Entry.failure?

/-- The project of entries that have all been read. -/
def Plan.source (screen : String) (p : Plan) : Except ArchiveError Source := do
  let layout ← textOf p.layout
  let blocks ← p.blocks.elim (pure "") textOf
  return ⟨screen, layout, blocks, p.assets.map Entry.asset⟩

/-- The screen and the assets among entries that are no directories, which are read at a pace. -/
def select (pace : Entry → Nat) (screen : String) (limits : ArchiveLimits)
    (entries : List Entry) : Except ArchiveError Source :=
  match planOf screen limits entries with
  | .error e => .error e
  | .ok p =>
    match firstFailure? pace p.wanted with
    | some e => .error e
    | none => p.source screen

/-- Whether a name is that of a directory. -/
def isDirectory (name : String) : Bool := name.toList.getLast? == some '/'

/-- Entries that are no directories. -/
def filesOf (entries : List Entry) : List Entry := entries.filter fun e => !isDirectory e.name

/-- A way to unpack archives: the entries of an archive, directories among them, and when the
reading of each of them ends if all are read at once. -/
structure Unpacker where
  entries : ByteArray → Except Archive.Fault (List Entry)
  pace : Entry → Nat

/-- The octets that are unpacked while another reading starts. -/
def octetsPerStart : Nat := 16384

/-- How long the reading of an entry takes, by its size; a fault in its headers shows at once. -/
def Entry.effort (e : Entry) : Nat :=
  match e.content with
  | .error fault => if fault.isLate then e.size / octetsPerStart else 0
  | .ok _ => e.size / octetsPerStart

/-- Unpacks archives by their directory. -/
def Unpacker.standard : Unpacker where
  entries data := (Archive.directory data).map fun members =>
    members.map fun m => ⟨m.name, m.size, m.read data⟩
  pace := Entry.effort

/-- Reads a project archive. -/
def read (data : ByteArray) (screen : String) (limits : ArchiveLimits)
    (u : Unpacker := .standard) : Except ArchiveError Source :=
  match u.entries data with
  | .error (.notArchive detail) => .error (.notArchive detail)
  | .error cause => .error (.unexpected cause)
  | .ok entries => select u.pace screen limits (filesOf entries)

end Project
end ScreenForge
