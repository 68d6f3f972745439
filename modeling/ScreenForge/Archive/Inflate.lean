/-
# Compressed data

Compressed data is a sequence of blocks of bits, the least significant bit of an octet first.  A
block is stored as it is, or written in a prefix code for literals and lengths and one for
distances; the codes are fixed, or described by code lengths that are themselves written in a code.
A length and a distance repeat what was written before.

`inflate` gives what the data stands for.  It ends with the last block, or where the data is used
up, or at something that no rule covers.
-/
import ScreenForge.Archive.Octets

namespace ScreenForge
namespace Archive

/-- Why a step could not be taken. -/
inductive Halt where
  /-- There are no more bits. -/
  | exhausted
  /-- No rule covers the bits. -/
  | invalid
  deriving DecidableEq, Repr

/-- So many bits at a position, the first one least significant. -/
def bitsAt (data : ByteArray) : Nat → Nat → Except Halt Nat
  | 0, _ => .ok 0
  | count + 1, pos =>
    if pos / 8 < data.size then
      match bitsAt data count (pos + 1) with
      | .ok rest => .ok (octetAt data (pos / 8) / 2 ^ (pos % 8) % 2 + 2 * rest)
      | .error h => .error h
    else .error .exhausted

/-- A prefix code in canonical order: how many codes there are of each length from one on, and the
symbols by length and then by value. -/
structure Code where
  counts : List Nat
  symbols : Array Nat

/-- The longest code. -/
def maxCodeLength : Nat := 15

/-- The code of the lengths of symbols; zero stands for no code. -/
def Code.ofLengths (lengths : List Nat) : Code where
  counts := (List.range maxCodeLength).map fun i => lengths.count (i + 1)
  symbols := ((List.range maxCodeLength).flatMap fun i =>
    lengths.zipIdx.filterMap fun (l, s) => if l = i + 1 then some s else none).toArray

/-- The part of the code space that codes leave free, in units of the longest code; `none` if they
need more than there is. -/
def Code.room (code : Code) : Option Nat :=
  code.counts.foldl (fun left count => left.bind fun n =>
    if 2 * n < count then none else some (2 * n - count)) (some 1)

/-- Whether a code has no symbols or exactly one, of one bit. -/
def Code.isSmall (code : Code) : Bool := (code.counts.drop 1).all (· == 0)

/-- Whether a code may be used: it fills the code space, or is small enough to leave some free. -/
def Code.isUsable (code : Code) : Bool :=
  match code.room with
  | none => false
  | some 0 => true
  | some _ => code.isSmall

/-- The symbol at a position, trying longer and longer codes. -/
def Code.symbolFrom (code : Code) (data : ByteArray) : List Nat → Nat → Nat → Nat → Nat →
    Except Halt (Nat × Nat)
  | [], _, _, _, _ => .error .invalid
  | count :: longer, pos, value, first, index =>
    match bitsAt data 1 pos with
    | .error h => .error h
    | .ok bit =>
      let value := value + bit
      if value < first + count then
        match code.symbols[index + (value - first)]? with
        | some s => .ok (s, pos + 1)
        | none => .error .invalid
      else if longer.all (· == 0) then .error .invalid
      else code.symbolFrom data longer (pos + 1) (2 * value) (2 * (first + count)) (index + count)

/-- The symbol at a position, and the position behind it. -/
def Code.symbolAt (code : Code) (data : ByteArray) (pos : Nat) : Except Halt (Nat × Nat) :=
  code.symbolFrom data code.counts pos 0 0 0

/-- The least length of each length symbol and its number of extra bits. -/
def lengthTable : List (Nat × Nat) := [
  (3, 0), (4, 0), (5, 0), (6, 0), (7, 0), (8, 0), (9, 0), (10, 0), (11, 1), (13, 1), (15, 1),
  (17, 1), (19, 2), (23, 2), (27, 2), (31, 2), (35, 3), (43, 3), (51, 3), (59, 3), (67, 4), (83, 4),
  (99, 4), (115, 4), (131, 5), (163, 5), (195, 5), (227, 5), (258, 0)
]

/-- The least distance of each distance symbol and its number of extra bits. -/
def distanceTable : List (Nat × Nat) := [
  (1, 0), (2, 0), (3, 0), (4, 0), (5, 1), (7, 1), (9, 2), (13, 2), (17, 3), (25, 3), (33, 4),
  (49, 4), (65, 5), (97, 5), (129, 6), (193, 6), (257, 7), (385, 7), (513, 8), (769, 8), (1025, 9),
  (1537, 9), (2049, 10), (3073, 10), (4097, 11), (6145, 11), (8193, 12), (12289, 12), (16385, 13),
  (24577, 13)
]

/-- A value from a table with its extra bits, and the position behind them. -/
def tableValue (data : ByteArray) (table : List (Nat × Nat)) (symbol pos : Nat) :
    Except Halt (Nat × Nat) :=
  match table[symbol]? with
  | none => .error .invalid
  | some (base, extra) => (bitsAt data extra pos).map fun v => (base + v, pos + extra)

/-- Repeats so many octets from a distance back. -/
def copyBack (distance : Nat) : Nat → ByteArray → ByteArray
  | 0, out => out
  | length + 1, out => copyBack distance length (out.push (out[out.size - distance]?.getD 0))

/-- The code lengths of a block with fixed codes. -/
def fixedLengths : List Nat :=
  List.replicate 144 8 ++ List.replicate 112 9 ++ List.replicate 24 7 ++ List.replicate 8 8

/-- The fixed code of literals and lengths. -/
def fixedLiterals : Code := Code.ofLengths fixedLengths

/-- The fixed code of distances; its last two symbols stand for nothing. -/
def fixedDistances : Code := Code.ofLengths (List.replicate 32 5)

/-- How far decompression came: the position, the output, and what stopped it, if anything. -/
structure Progress where
  pos : Nat
  out : ByteArray
  halt : Option Halt := none

/-- The symbols of a block up to its end mark. -/
def inflateSymbols (data : ByteArray) (literals distances : Code) : Nat → Nat → ByteArray → Progress
  | 0, pos, out => ⟨pos, out, some .exhausted⟩
  | fuel + 1, pos, out =>
    match literals.symbolAt data pos with
    | .error h => ⟨pos, out, some h⟩
    | .ok (symbol, pos) =>
      if symbol < 256 then
        inflateSymbols data literals distances fuel pos (out.push (UInt8.ofNat symbol))
      else if symbol = 256 then ⟨pos, out, none⟩
      else
        let reference : Except Halt (Nat × Nat × Nat) := do
          let (length, pos) ← tableValue data lengthTable (symbol - 257) pos
          let (symbol, pos) ← distances.symbolAt data pos
          let (distance, pos) ← tableValue data distanceTable symbol pos
          if distance > out.size then throw .invalid
          return (length, distance, pos)
        match reference with
        | .error h => ⟨pos, out, some h⟩
        | .ok (length, distance, pos) =>
          inflateSymbols data literals distances fuel pos (copyBack distance length out)

/-- The order in which the lengths of the code of code lengths are given. -/
def codeLengthOrder : List Nat := [16, 17, 18, 0, 8, 7, 9, 6, 10, 5, 11, 4, 12, 3, 13, 2, 14, 1, 15]

/-- So many numbers of three bits. -/
def smallNumbers (data : ByteArray) : Nat → Nat → Except Halt (List Nat × Nat)
  | 0, pos => .ok ([], pos)
  | count + 1, pos => do
    let v ← bitsAt data 3 pos
    let (rest, pos) ← smallNumbers data count (pos + 3)
    return (v :: rest, pos)

/-- Code lengths up to so many, with those read so far, last first. -/
def codeLengths (data : ByteArray) (code : Code) (total : Nat) : Nat → Nat → List Nat →
    Except Halt (List Nat × Nat)
  | 0, _, _ => .error .exhausted
  | fuel + 1, pos, acc =>
    if acc.length = total then .ok (acc.reverse, pos)
    else do
      let (symbol, pos) ← code.symbolAt data pos
      if symbol < 16 then codeLengths data code total fuel pos (symbol :: acc)
      else
        let (value, base, extra) := if symbol = 16 then (acc.headD 0, 3, 2)
          else if symbol = 17 then (0, 3, 3) else (0, 11, 7)
        let count ← (bitsAt data extra pos).map (base + ·)
        if symbol = 16 && acc.isEmpty || acc.length + count > total then throw .invalid
        codeLengths data code total fuel (pos + extra) (List.replicate count value ++ acc)

/-- The two codes that a block describes. -/
def describedCodes (data : ByteArray) (pos : Nat) : Except Halt (Code × Code × Nat) := do
  let literalCount ← (bitsAt data 5 pos).map (257 + ·)
  let distanceCount ← (bitsAt data 5 (pos + 5)).map (1 + ·)
  let lengthCount ← (bitsAt data 4 (pos + 10)).map (4 + ·)
  if literalCount > 286 || distanceCount > 30 then throw .invalid
  let (given, pos) ← smallNumbers data lengthCount (pos + 14)
  let ordered := codeLengthOrder.zip (given ++ List.replicate (19 - lengthCount) 0)
  let code := Code.ofLengths ((List.range 19).map fun s => (ordered.lookup s).getD 0)
  if code.room != some 0 then throw .invalid
  let total := literalCount + distanceCount
  let (lengths, pos) ← codeLengths data code total (total + 1) pos []
  let literals := Code.ofLengths (lengths.take literalCount)
  let distances := Code.ofLengths (lengths.drop literalCount)
  if lengths[256]?.getD 0 = 0 || !literals.isUsable || !distances.isUsable then throw .invalid
  return (literals, distances, pos)

/-- A block that is stored as it is, behind its header. -/
def inflateStored (data : ByteArray) (pos : Nat) (out : ByteArray) : Progress :=
  let start := (pos + 7) / 8
  if start + 4 > data.size then ⟨pos, out, some .exhausted⟩
  else
    let length := numberAt data start 2
    if numberAt data (start + 2) 2 != 65535 - length then ⟨pos, out, some .invalid⟩
    else
      let stored := cut data (start + 4) length
      ⟨8 * (start + 4 + stored.size), out ++ stored,
        if stored.size < length then some .exhausted else none⟩

/-- One block behind the mark of the last one. -/
def inflateBlock (data : ByteArray) (pos : Nat) (out : ByteArray) : Progress :=
  match bitsAt data 2 pos with
  | .error h => ⟨pos, out, some h⟩
  | .ok 0 => inflateStored data (pos + 2) out
  | .ok 1 => inflateSymbols data fixedLiterals fixedDistances (8 * data.size + 1) (pos + 2) out
  | .ok 2 =>
    match describedCodes data (pos + 2) with
    | .error h => ⟨pos, out, some h⟩
    | .ok (literals, distances, pos) =>
      inflateSymbols data literals distances (8 * data.size + 1) pos out
  | .ok _ => ⟨pos, out, some .invalid⟩

/-- Blocks up to the last one. -/
def inflateFrom (data : ByteArray) : Nat → Nat → ByteArray → Progress
  | 0, pos, out => ⟨pos, out, some .exhausted⟩
  | fuel + 1, pos, out =>
    match bitsAt data 1 pos with
    | .error h => ⟨pos, out, some h⟩
    | .ok last =>
      let p := inflateBlock data (pos + 1) out
      if p.halt.isSome || last = 1 then p else inflateFrom data fuel p.pos p.out

/-- What compressed data stands for, and what stopped it before its last block. -/
def inflate (data : ByteArray) : Progress := inflateFrom data (8 * data.size + 1) 0 .empty

end Archive
end ScreenForge
