/-
# Command line arguments

A command is named by the first argument.  Behind it come values and options; an option may be
shortened as long as it stays unique, its value may stand behind an equals sign, directly behind a
one-letter option, or in the next argument.  Behind `--` all arguments are values.  An argument that
starts with a dash is a value only if it is a dash alone, a negative number, or has a blank in it.

Arguments are taken in order.  An option without its value ends the run at once, a request for help
too; what nobody takes is only found wrong at the end.
-/
import ScreenForge.Number.Numeral
import ScreenForge.Text.Split

namespace ScreenForge
namespace Service

/-- What a command line asks for. -/
inductive Command where
  /-- Converts an archive. -/
  | convert (input : String) (output name : Option String)
  /-- Runs the service. -/
  | serve (host : Option String) (port : Option Int)
  /-- Shows how the program is used. -/
  | help
  deriving DecidableEq, Repr

namespace Arguments

/-- An option with all its spellings. -/
structure Opt where
  key : String
  spellings : List String
  takesValue : Bool := true
  deriving DecidableEq, Repr

/-- What shows how a command is used. -/
def helpOption : Opt := ⟨"help", ["-h", "--help"], false⟩

/-- The options of a conversion. -/
def convertOptions : List Opt :=
  [helpOption, ⟨"output", ["-o", "--output"], true⟩, ⟨"name", ["-n", "--project-name"], true⟩]

/-- The options of the service. -/
def serveOptions : List Opt :=
  [helpOption, ⟨"host", ["--host"], true⟩, ⟨"port", ["--port"], true⟩]

/-- What an argument is. -/
inductive Token where
  | value (s : String)
  | option (o : Opt) (attached : Option String)
  /-- The two dashes behind which all are values. -/
  | divider
  /-- An option that nobody takes. -/
  | unknown
  deriving DecidableEq, Repr

/-- The option of a spelling. -/
def spelled? (options : List Opt) (s : String) : Option Opt :=
  options.find? fun o => o.spellings.contains s

/-- The digits of a negative number, with a point perhaps. -/
def isNegativeNumber (s : List Char) : Bool :=
  match s with
  | '-' :: body =>
    let whole := body.takeWhile Numeral.isDigit
    match body.dropWhile Numeral.isDigit with
    | [] => !whole.isEmpty
    | '.' :: fraction => !fraction.isEmpty && fraction.all Numeral.isDigit
    | _ => false
  | _ => false

/-- An option with the value attached to it. -/
abbrev Match := Opt × Option String

/-- Options that a spelling with two dashes shortens. -/
def longMatches (options : List Opt) (spelling : String) (attached : Option String) :
    List Match :=
  options.flatMap fun o =>
    (o.spellings.filter fun s => Text.startsWith s.toList spelling.toList).map fun _ =>
      (o, attached)

/-- Options that an argument with one dash means: a letter with its value, or a shortened one. -/
def shortMatches (options : List Opt) (arg : List Char) : List Match :=
  options.flatMap fun o => o.spellings.filterMap fun s =>
    if s.toList = arg.take 2 then some (o, some (String.ofList (arg.drop 2)))
    else if Text.startsWith s.toList arg then some (o, none)
    else none

/-- The parts of an argument around its first equals sign. -/
def splitEquals (arg : List Char) : String × Option String :=
  match arg.dropWhile (· != '=') with
  | [] => (String.ofList arg, none)
  | _ :: rest => (String.ofList (arg.takeWhile (· != '=')), some (String.ofList rest))

/-- What an argument is before any divider; an unclear option is refused. -/
def token? (options : List Opt) (arg : String) : Option Token :=
  let chars := arg.toList
  if arg = "--" then some .divider
  else if chars.head? ≠ some '-' || arg = "-" then some (.value arg)
  else match spelled? options arg with
    | some o => some (.option o none)
    | none =>
      let (spelling, attached) := splitEquals chars
      match attached.bind fun _ => spelled? options spelling with
      | some o => some (.option o attached)
      | none =>
        let found := if Text.startsWith chars "--".toList then
          longMatches options spelling attached else shortMatches options chars
        match found with
        | [(o, v)] => some (.option o v)
        | _ :: _ :: _ => none
        | [] =>
          some (if isNegativeNumber chars || chars.contains ' ' then .value arg else .unknown)

/-- What arguments are; behind a divider all are values. -/
def tokens? (options : List Opt) : List String → Option (List Token)
  | [] => some []
  | arg :: rest =>
    match token? options arg with
    | none => none
    | some .divider => some (.divider :: rest.map Token.value)
    | some t => (tokens? options rest).map (t :: ·)

/-- What has been taken so far. -/
structure Parsed where
  /-- The value that is no option's. -/
  input : Option String := none
  /-- Options with their values, in order. -/
  options : List (String × String) := []
  /-- Whether something was left that nobody takes. -/
  surplus : Bool := false

/-- A command as far as its arguments go. -/
structure Grammar where
  options : List Opt
  /-- Whether a value of its own belongs to it. -/
  hasInput : Bool
  /-- Whether an option may have a value. -/
  accepts : String → String → Bool := fun _ _ => true

/-- How taking arguments ends. -/
inductive Ending where
  | parsed (p : Parsed)
  | help
  | wrong

/-- Gives an option its value. -/
def Grammar.give (g : Grammar) (p : Parsed) (o : Opt) (value : String) : Option Parsed :=
  if g.accepts o.key value then some { p with options := p.options ++ [(o.key, value)] } else none

/-- Takes a value that is no option's. -/
def Grammar.take (g : Grammar) (p : Parsed) (value : String) : Parsed :=
  if g.hasInput && p.input.isNone then { p with input := some value }
  else { p with surplus := true }

/-- Whether help is asked for by letters behind `-h`: the next letter is an option, and one that
takes a value has it there or in the next argument. -/
def helpWith (g : Grammar) (letters : String) (next : List Token) : Bool :=
  match letters.toList with
  | [] => false
  | c :: rest =>
    match spelled? g.options (String.ofList ['-', c]) with
    | none => false
    | some o =>
      if o.takesValue then !rest.isEmpty || next.head?.any fun t => match t with
        | .value _ => true
        | _ => false
      else rest.all fun d => d == c

/-- Takes tokens in order; `open?` is an option that waits for its value, and `fresh` says that the
token before was the command's own value. -/
def Grammar.gather (g : Grammar) (p : Parsed) (open? : Option Opt) (fresh : Bool) :
    List Token → Ending
  | [] => if open?.isSome then .wrong else .parsed p
  | .value s :: rest =>
    match open? with
    | none => g.gather (g.take p s) none (g.hasInput && p.input.isNone) rest
    | some o =>
      match g.give p o s with
      | some p => g.gather p none false rest
      | none => .wrong
  | .divider :: rest =>
    match open? with
    | some _ => .wrong
    | none =>
      let taken := fresh || (g.hasInput && p.input.isNone && !rest.isEmpty)
      g.gather { p with surplus := p.surplus || !taken } none false rest
  | .unknown :: rest =>
    match open? with
    | some _ => .wrong
    | none => g.gather { p with surplus := true } none false rest
  | .option o attached :: rest =>
    match open?, o.takesValue, attached with
    | some _, _, _ => .wrong
    | none, true, some v =>
      match g.give p o v with
      | some p => g.gather p none false rest
      | none => .wrong
    | none, true, none => g.gather p (some o) false rest
    | none, false, some letters => if helpWith g letters rest then .help else .wrong
    | none, false, none => .help

/-- Takes the arguments of a command. -/
def Grammar.parse (g : Grammar) (args : List String) : Ending :=
  match tokens? g.options args with
  | none => .wrong
  | some ts => g.gather {} none false ts

/-- The value of an option; the last one counts. -/
def Parsed.option? (p : Parsed) (key : String) : Option String := p.options.reverse.lookup key

/-- The arguments of a conversion. -/
def convertGrammar : Grammar := { options := convertOptions, hasInput := true }

/-- The arguments of the service; a port is a whole number. -/
def serveGrammar : Grammar where
  options := serveOptions
  hasInput := false
  accepts key value := key != "port" || (Numeral.integer? value).isSome

end Arguments

open Arguments

/-- The command that taken arguments make. -/
def commandOf? (make : Parsed → Option Command) : Ending → Option Command
  | .help => some .help
  | .wrong => none
  | .parsed p => if p.surplus then none else make p

/-- The conversion that arguments ask for. -/
def convertCommand? (args : List String) : Option Command :=
  commandOf? (fun p => p.input.map fun input =>
    .convert input (p.option? "output") (p.option? "name")) (convertGrammar.parse args)

/-- The service that arguments ask for. -/
def serveCommand? (args : List String) : Option Command :=
  commandOf? (fun p => some (.serve (p.option? "host") ((p.option? "port").bind Numeral.integer?)))
    (serveGrammar.parse args)

/-- The command of a command line; `none` if it is used wrongly.  Behind an unknown option only help
can still be asked for. -/
def Command.ofArguments? : List String → Option Command
  | [] => none
  | first :: rest =>
    if first = "convert" then convertCommand? rest
    else if first = "serve" then serveCommand? rest
    else match token? [helpOption] first with
      | some (.option _ none) => some .help
      | some .unknown => (Command.ofArguments? rest).filter (· = .help)
      | _ => none

end Service
end ScreenForge
