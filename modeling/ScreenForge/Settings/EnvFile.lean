/-
# Environment files

A file of settings has a line for each: a name, perhaps behind `export`, an equals sign and a value
that may be quoted.  A value in quotes may go over several lines and has escapes; one without ends
at a comment or at the end of the line.  Every value may refer to others as `${NAME}`, with a
default behind `:-`; values above it in the file come before those of the environment.

A line that fits no rule is passed over.
-/
import ScreenForge.Assoc
import ScreenForge.Text.Blank
import ScreenForge.Text.Split

namespace ScreenForge
namespace EnvFile

/-- Whether a line end. -/
def isBreak (c : Char) : Bool := c == '\n' || c == '\r'

/-- Whether a blank inside a line. -/
def isInline (c : Char) : Bool := Text.isBlank c && !isBreak c

/-- Drops `export` and the blanks behind it. -/
def dropExport (s : List Char) : List Char :=
  let rest := s.drop 6
  if Text.startsWith s "export".toList && rest.head?.any isInline then rest.dropWhile isInline
  else s

/-- The name at the start of a line; a comment has none. -/
def name? : List Char → Option (Option String × List Char)
  | '#' :: rest => some (none, '#' :: rest)
  | '\'' :: rest =>
    let inside := rest.takeWhile (· != '\'')
    match inside, rest.dropWhile (· != '\'') with
    | _ :: _, _ :: left => some (some (String.ofList inside), left)
    | _, _ => none
  | s =>
    let inName := fun c : Char => c != '=' && c != '#' && !Text.isBlank c
    match s.takeWhile inName with
    | [] => none
    | name => some (some (String.ofList name), s.dropWhile inName)

/-- A quoted value up to its closing quote, as it is written.  If every quote behind is escaped,
the last one closes it; `kept` is where that would be. -/
def quotedFrom (quote : Char) : List Char → List Char → Option (List Char × List Char) →
    Option (List Char × List Char)
  | [], _, kept => kept
  | '\\' :: c :: rest, acc, kept =>
    if c = quote then quotedFrom quote rest (c :: '\\' :: acc) (some (('\\' :: acc).reverse, rest))
    else quotedFrom quote (c :: rest) ('\\' :: acc) kept
  | c :: rest, acc, kept =>
    if c = quote then some (acc.reverse, rest) else quotedFrom quote rest (c :: acc) kept

/-- The character of an escape in double quotes. -/
def doubleEscape? (c : Char) : Option Char :=
  if c = '\\' ∨ c = '\'' ∨ c = '"' then some c
  else if c = 'a' then some '\x07'
  else if c = 'b' then some '\x08'
  else if c = 'f' then some '\x0c'
  else if c = 'n' then some '\n'
  else if c = 'r' then some '\r'
  else if c = 't' then some '\t'
  else if c = 'v' then some '\x0b'
  else none

/-- The character of an escape in single quotes. -/
def singleEscape? (c : Char) : Option Char := if c = '\\' ∨ c = '\'' then some c else none

/-- Characters with escapes replaced. -/
def unescape (escape? : Char → Option Char) : List Char → List Char
  | '\\' :: c :: rest =>
    match escape? c with
    | some x => x :: unescape escape? rest
    | none => '\\' :: unescape escape? (c :: rest)
  | c :: rest => c :: unescape escape? rest
  | [] => []

/-- A value without quotes, up to a comment behind a blank. -/
def beforeComment : List Char → List Char
  | [] => []
  | c :: rest =>
    if Text.isBlank c && ((c :: rest).dropWhile Text.isBlank).head? = some '#' then []
    else c :: beforeComment rest

/-- The value behind an equals sign. -/
def value? (s : List Char) : Option (String × List Char) :=
  match s with
  | '\'' :: rest =>
    (quotedFrom '\'' rest [] none).map fun (v, left) =>
      (String.ofList (unescape singleEscape? v), left)
  | '"' :: rest =>
    (quotedFrom '"' rest [] none).map fun (v, left) =>
      (String.ofList (unescape doubleEscape? v), left)
  | _ =>
    let line := s.takeWhile fun c => !isBreak c
    some (String.ofList (Text.dropEndWhile Text.isBlank (beforeComment line)),
      s.dropWhile fun c => !isBreak c)

/-- Drops one line end. -/
def dropBreak : List Char → List Char
  | '\r' :: '\n' :: rest => rest
  | c :: rest => if isBreak c then rest else c :: rest
  | [] => []

/-- What follows a binding: a comment perhaps, and the end of the line. -/
def lineEnd? (s : List Char) : Option (List Char) :=
  let s := s.dropWhile isInline
  let s := if s.head? = some '#' then s.dropWhile fun c => !isBreak c else s
  match s.dropWhile isInline with
  | [] => some []
  | c :: rest => if isBreak c then some (dropBreak (c :: rest)) else none

/-- The end of a line behind a binding; the error is where the line goes on instead. -/
def finish (b : Option String × Option String) (s : List Char) :
    Except (List Char) ((Option String × Option String) × List Char) :=
  match lineEnd? s with
  | some left => .ok (b, left)
  | none => .error s

/-- One binding and what follows it; a name without a value has none.  The error is the place at
which no rule fits. -/
def binding (s : List Char) : Except (List Char) ((Option String × Option String) × List Char) :=
  let s := dropExport s
  match name? s with
  | none => .error s
  | some (name, r) =>
    match r.dropWhile isInline with
    | '=' :: r =>
      let r := r.dropWhile isInline
      match value? r with
      | some (v, r) => finish (name, some v) r
      | none => .error r
    | r => finish (name, none) r

/-- The rest of a text behind the line that it starts in. -/
def nextLine (s : List Char) : List Char := dropBreak (s.dropWhile fun c => !isBreak c)

/-- The bindings of a text in order, with a bound on their number. -/
def bindingsFrom : Nat → List Char → List (String × Option String)
  | 0, _ => []
  | fuel + 1, s =>
    match s.dropWhile Text.isBlank with
    | [] => []
    | t =>
      match binding t with
      | .ok ((some name, v), left) => (name, v) :: bindingsFrom fuel left
      | .ok ((none, _), left) => bindingsFrom fuel left
      | .error place => bindingsFrom fuel (nextLine place)

/-- A reference behind `$` and its opening brace: the name, the default, and what follows. -/
def reference? (s : List Char) : Option (String × Option String × List Char) :=
  let inName := fun c : Char => c != '}' && c != ':'
  let name := String.ofList (s.takeWhile inName)
  match s.dropWhile inName with
  | '}' :: left => some (name, none, left)
  | ':' :: '-' :: r =>
    match r.dropWhile (· != '}') with
    | _ :: left => some (name, some (String.ofList (r.takeWhile (· != '}'))), left)
    | [] => none
  | _ => none

/-- A value with references replaced, with a bound on its length. -/
def interpolate (env : List (String × Option String)) : Nat → List Char → List Char
  | 0, s => s
  | _ + 1, [] => []
  | fuel + 1, c :: rest =>
    match c, rest with
    | '$', '{' :: r =>
      match reference? r with
      | some (name, default, left) =>
        let found := match env.lookup name with
          | some v => v.getD ""
          | none => default.getD ""
        found.toList ++ interpolate env fuel left
      | none => c :: interpolate env fuel rest
    | _, _ => c :: interpolate env fuel rest

/-- Bindings with references replaced, each seeing those before it and then the environment. -/
def resolve (env : List (String × Option String)) : List (String × Option String) →
    List (String × Option String) → List (String × Option String)
  | done, [] => done
  | done, (name, v) :: rest =>
    let v := v.map fun s =>
      String.ofList (interpolate (done ++ env) (s.toList.length + 1) s.toList)
    resolve env (Assoc.put name v done) rest

/-- The values of a file of settings in an environment. -/
def read (env : List (String × String)) (text : String) : List (String × Option String) :=
  let lines := Text.normalizeLines text.toList
  resolve (env.map fun e => (e.1, some e.2)) [] (bindingsFrom (lines.length + 1) lines)

end EnvFile
end ScreenForge
