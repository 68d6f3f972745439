/-
# Reading JSON

The reader takes symbols, so that a document may come from a text or from octets; an octet that
belongs to no character is a fault of its own kind, noticed when the string that holds it is
complete.

Strings are read by a machine that takes one symbol at a time (`StringState`): outside an escape,
behind a backslash, among the four digits of `\u`, or behind the first half of a surrogate pair,
which only the second half may follow.  Numbers are cut off as the longest run of number
characters and then have to fit the grammar.  Values nest, and each level takes at least one symbol,
which bounds the recursion.

A dialect says whether the words for numbers that are not finite are read too.
-/
import ScreenForge.Json.Basic
import ScreenForge.Number.Numeral
import ScreenForge.Text.Utf8

namespace ScreenForge
namespace Json

open Text (Symbol)

/-- Why a document is no JSON. -/
inductive ReadError where
  /-- No rule covers what stands where this many symbols are left. -/
  | unexpected (left : Nat)
  /-- A complete string holds octets that belong to no character. -/
  | undecodable
  deriving DecidableEq, Repr

/-- The cause in words, for a document of a given length. -/
def ReadError.message (length : Nat) : ReadError → String
  | .unexpected left => s!"unexpected input at position {length - left}"
  | .undecodable => "a string is not valid UTF-8"

/-- What a reader accepts beyond the standard. -/
structure Dialect where
  /-- `NaN`, `Infinity` and numbers beyond the binary64 range. -/
  nonFinite : Bool

/-- The standard and nothing else. -/
def strict : Dialect := ⟨false⟩

/-- With numbers that are not finite. -/
def extended : Dialect := ⟨true⟩

/-- The four blanks of the standard. -/
def isSpace : Symbol → Bool
  | some c => c == ' ' || c == '\n' || c == '\r' || c == '\t'
  | none => false

/-- Where the reader of a string stands. -/
inductive StringState where
  /-- Outside any escape. -/
  | plain
  /-- Behind a backslash; the first half of a pair may wait for its second. -/
  | escaped (high : Option Nat)
  /-- Among the digits of `\u`, with this many still to come and this value so far. -/
  | hex (left value : Nat) (high : Option Nat)
  /-- Behind the first half of a pair. -/
  | paired (high : Nat)
  deriving DecidableEq, Repr

/-- The character of a one-letter escape. -/
def simpleEscape? (c : Char) : Option Char :=
  if c = '"' then some '"'
  else if c = '\\' then some '\\'
  else if c = '/' then some '/'
  else if c = 'b' then some '\x08'
  else if c = 'f' then some '\x0c'
  else if c = 'n' then some '\n'
  else if c = 'r' then some '\r'
  else if c = 't' then some '\t'
  else none

/-- The value of a hexadecimal digit. -/
def hexValue? (c : Char) : Option Nat :=
  if '0' ≤ c ∧ c ≤ '9' then some (c.toNat - 0x30)
  else if 'a' ≤ c ∧ c ≤ 'f' then some (c.toNat - 0x61 + 10)
  else if 'A' ≤ c ∧ c ≤ 'F' then some (c.toNat - 0x41 + 10)
  else none

/-- Whether a code unit is the first half of a pair. -/
def isHigh (unit : Nat) : Bool := 0xD800 ≤ unit && unit ≤ 0xDBFF

/-- Whether a code unit is the second half of a pair. -/
def isLow (unit : Nat) : Bool := 0xDC00 ≤ unit && unit ≤ 0xDFFF

/-- The character of a surrogate pair. -/
def pairChar (high low : Nat) : Char :=
  Char.ofNat (0x10000 + (high - 0xD800) * 0x400 + (low - 0xDC00))

/-- What a complete code unit does: it gives a character, waits for its second half, or fails. -/
def finishUnit (unit : Nat) : Option Nat → Option (StringState × List Symbol)
  | none =>
    if isHigh unit then some (.paired unit, [])
    else if isLow unit then none
    else some (.plain, [some (Char.ofNat unit)])
  | some high => if isLow unit then some (.plain, [some (pairChar high unit)]) else none

/-- One symbol of a string that does not close it: the next state and the symbols it yields. -/
def stringStep : StringState → Symbol → Option (StringState × List Symbol)
  | .plain, none => some (.plain, [none])
  | .plain, some c =>
    if c = '\\' then some (.escaped none, [])
    else if c.toNat < 0x20 then none
    else some (.plain, [some c])
  | .escaped high, some c =>
    if c = 'u' then some (.hex 4 0 high, [])
    else match high, simpleEscape? c with
      | none, some x => some (.plain, [some x])
      | _, _ => none
  | .hex left value high, some c =>
    match hexValue? c with
    | some v =>
      if left ≤ 1 then finishUnit (value * 16 + v) high
      else some (.hex (left - 1) (value * 16 + v) high, [])
    | none => none
  | .paired high, some c => if c = '\\' then some (.escaped (some high), []) else none
  | _, none => none

/-- The symbols of a string up to its closing quote, and what follows it. -/
def stringFrom : StringState → List Symbol → List Symbol →
    Except ReadError (List Symbol × List Symbol)
  | _, [], _ => .error (.unexpected 0)
  | state, c :: rest, acc =>
    if state = .plain ∧ c = some '"' then .ok (acc.reverse, rest)
    else match stringStep state c with
      | some (next, out) => stringFrom next rest (out.reverse ++ acc)
      | none => .error (.unexpected (rest.length + 1))

/-- A string behind its opening quote. -/
def readString (input : List Symbol) : Except ReadError (String × List Symbol) :=
  match stringFrom .plain input [] with
  | .error e => .error e
  | .ok (content, rest) =>
    match content.mapM id with
    | some chars => .ok (String.ofList chars, rest)
    | none => .error .undecodable

/-- Whether a symbol may stand in a number. -/
def isNumberSymbol : Symbol → Bool
  | some c => Numeral.isDigit c || c == '-' || c == '+' || c == '.' || c == 'e' || c == 'E'
  | none => false

/-- Whether digits are a whole part: not empty, and a leading zero only alone. -/
def isWholePart : List Char → Bool
  | [] => false
  | [_] => true
  | d :: _ => d != '0'

/-- The most characters of a whole number. -/
def maxNumeral : Nat := 4300

/-- The value of a number's characters. -/
def number? (dialect : Dialect) (lexeme : List Char) : Option Json :=
  let (negative, body) := match lexeme with
    | '-' :: r => (true, r)
    | r => (false, r)
  let whole := body.takeWhile Numeral.isDigit
  let rest := body.dropWhile Numeral.isDigit
  if !isWholePart whole then none
  else match rest with
    | [] =>
      if lexeme.length > maxNumeral then none
      else
        let n : Int := Numeral.digitsValue whole
        some (.int (if negative then -n else n))
    | '.' :: r =>
      if (r.takeWhile Numeral.isDigit).isEmpty then none
      else finite dialect (Numeral.unsigned? negative body)
    | _ => finite dialect (Numeral.unsigned? negative body)
where
  /-- A number beyond the range is one only in a dialect that says so. -/
  finite (dialect : Dialect) : Option Binary64 → Option Json
    | some (.infinite s) => if dialect.nonFinite then some (.float (.infinite s)) else none
    | some x => some (.float x)
    | none => none

/-- The words that stand for values. -/
def words (dialect : Dialect) : List (List Symbol × Json) :=
  let word := fun s : String => Text.symbolsOf s
  [(word "null", .null), (word "true", .bool true), (word "false", .bool false)]
    ++ if dialect.nonFinite then
      [(word "NaN", .float .nan), (word "Infinity", .float (.infinite false)),
        (word "-Infinity", .float (.infinite true))]
    else []

/-- A number or a word at the start of the input. -/
def readScalar (dialect : Dialect) (input : List Symbol) : Except ReadError (Json × List Symbol) :=
  match (words dialect).find? fun w => w.1.isPrefixOf input with
  | some (w, v) => .ok (v, input.drop w.length)
  | none =>
    match number? dialect ((input.takeWhile isNumberSymbol).filterMap id) with
    | some v => .ok (v, input.dropWhile isNumberSymbol)
    | none => .error (.unexpected input.length)

/-- A name, a colon and what a reader finds behind it. -/
def readMember {α : Type} (read : List Symbol → Except ReadError (α × List Symbol))
    (input : List Symbol) : Except ReadError ((String × α) × List Symbol) :=
  match input.dropWhile isSpace with
  | some '"' :: rest =>
    match readString rest with
    | .error e => .error e
    | .ok (name, r) =>
      match r.dropWhile isSpace with
      | some ':' :: r =>
        match read r with
        | .error e => .error e
        | .ok (v, r) => .ok ((name, v), r)
      | r => .error (.unexpected r.length)
  | r => .error (.unexpected r.length)

/-- Entries with commas between them up to a closing character, with the entries read so far, last
first. -/
def readSeries {α : Type} (entry : List Symbol → Except ReadError (α × List Symbol))
    (closing : Char) : Nat → List Symbol → List α → Except ReadError (List α × List Symbol)
  | 0, input, _ => .error (.unexpected input.length)
  | fuel + 1, input, acc =>
    match entry input with
    | .error e => .error e
    | .ok (a, rest) =>
      match rest.dropWhile isSpace with
      | some c :: r =>
        if c = ',' then readSeries entry closing fuel r (a :: acc)
        else if c = closing then .ok ((a :: acc).reverse, r)
        else .error (.unexpected (r.length + 1))
      | r => .error (.unexpected r.length)

/-- Entries behind an opening bracket: none, or a series of them. -/
def readEntries {α : Type} (entry : List Symbol → Except ReadError (α × List Symbol))
    (closing : Char) (fuel : Nat) (input : List Symbol) :
    Except ReadError (List α × List Symbol) :=
  match input.dropWhile isSpace with
  | some c :: r => if c = closing then .ok ([], r) else readSeries entry closing fuel input []
  | _ => readSeries entry closing fuel input []

/-- A value at the start of the input, behind blanks. -/
def readValue (dialect : Dialect) : Nat → List Symbol → Except ReadError (Json × List Symbol)
  | 0, input => .error (.unexpected input.length)
  | fuel + 1, input =>
    match input.dropWhile isSpace with
    | some '{' :: rest =>
      (readEntries (readMember (readValue dialect fuel)) '}' fuel rest).map fun found =>
        (.obj (Assoc.ofList found.1), found.2)
    | some '[' :: rest =>
      (readEntries (readValue dialect fuel) ']' fuel rest).map fun found => (.arr found.1, found.2)
    | some '"' :: rest => (readString rest).map fun found => (.str found.1, found.2)
    | r => readScalar dialect r

/-- A document of one value. -/
def readWith (dialect : Dialect) (input : List Symbol) : Except ReadError Json :=
  match readValue dialect (input.length + 1) input with
  | .error e => .error e
  | .ok (v, rest) =>
    match rest.dropWhile isSpace with
    | [] => .ok v
    | r => .error (.unexpected r.length)

/-- The value of a text. -/
def ofText (s : String) : Except ReadError Json := readWith strict (Text.symbolsOf s)

/-- The value of octets. -/
def ofOctets (octets : List UInt8) : Except ReadError Json := readWith strict (Text.symbols octets)

end Json
end ScreenForge
