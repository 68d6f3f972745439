/-
# Code from blocks

Each kind of block has its slots, fields and mutation entries; `exprOf` and `stmtOf` read them off.
A slot that is not there, or holds nothing, is a missing value.  A block that makes no sense in its
place is kept as such.
-/
import ScreenForge.Block.Reading
import ScreenForge.Code.Basic

namespace ScreenForge
namespace Code

/-- The comparison of a field's word. -/
def comparison? (word : String) : Option Comparison :=
  [("EQ", Comparison.equal), ("EQUAL", .equal), ("NEQ", .notEqual), ("LT", .less),
    ("LTE", .lessEqual), ("GT", .greater), ("GTE", .greaterEqual)].lookup word

/-- The connective of a field's word. -/
def connective? (word : String) : Option Connective :=
  [("AND", Connective.and), ("OR", .or)].lookup word

/-- A field, or a default in its absence. -/
def fieldOr (fields : List (String × String)) (name default : String) : String :=
  (fields.lookup name).getD default

/-- The first of two texts that is not empty. -/
def firstGiven (a : Option String) (b : String) : String := (a.bind Block.nonempty?).getD b

/-- The whole number of a mutation entry, or a default for its absence or for no number. -/
def numberOr (mutation : List (String × String)) (name : String) (default : Int) : Int :=
  ((mutation.lookup name).bind Numeral.integer?).getD default

/-- How many items a mutation announces. -/
def itemCount (mutation : List (String × String)) : Int := numberOr mutation "items" 2

/-- The names of numbered slots. -/
def slotNames (stem : String) (count : Int) : List String :=
  (List.range count.toNat).map fun i => stem ++ toString i

/-- A slot name that numbers an argument. -/
inductive ArgSlot where
  | numbered (n : Int)
  /-- It has more digits than a number may have. -/
  | long
  deriving DecidableEq, Repr

/-- Reads the name of an argument slot: `ARG`, digits of any script, perhaps a line break. -/
def argSlot? (name : String) : Option ArgSlot :=
  match name.toList with
  | 'A' :: 'R' :: 'G' :: rest =>
    let digits := if rest.getLast? = some '\n' then rest.dropLast else rest
    if digits.isEmpty || !digits.all fun c => (Text.digitValue? c).isSome then none
    else some (((Numeral.integerChars? digits).map ArgSlot.numbered).getD .long)
  | _ => none

/-- Numbered names in order: by number, then by name. -/
def sortSlots (slots : List (Int × String)) : List String :=
  (slots.mergeSort fun a b => a.1 < b.1 || (a.1 == b.1 && a.2 ≤ b.2)).map Prod.snd

/-- The argument slots among slot names, in order; `none` if one has a number beyond reading. -/
def argSlots? (names : List String) : Option (List String) :=
  let slots := names.filterMap fun n => (argSlot? n).map fun s => (n, s)
  let numbered : Option (List (Int × String)) := slots.mapM fun (n, s) =>
    match s with
    | .numbered k => some (k, n)
    | .long => none
  numbered.map sortSlots

/-- The slot that holds the body of a loop: its own, or one of two others if that is empty. -/
def loopSlot (statements : List (String × List Block)) (own : String) : String :=
  let filled := fun name => ((statements.lookup name).getD []).isEmpty == false
  if filled own then own else if filled "DO" then "DO" else "STATEMENT"

/-- The names that a declaration of local variables gives. -/
def localNames (fields : List (String × String)) (args : List String) : List String :=
  args.zipIdx.map fun (declared, i) => firstGiven (fields.lookup s!"VAR{i}") declared

/-- The truth value of a block. -/
def truthOf (type : String) (fields : List (String × String)) : Bool :=
  type != "logic_false" && Text.upper (fieldOr fields "BOOL" "TRUE") == "TRUE"

mutual

/-- The expression of a block. -/
def exprOf (block : Block) : Expr :=
  match block with
  | ⟨kind, type, _, fields, mutation, args, values, _⟩ =>
    match kind with
    | .number => .number (fieldOr fields "NUM" "") type
    | .text => .text (fieldOr fields "TEXT" "")
    | .boolean => .truth (truthOf type fields)
    | .arithmetic =>
      if type = "math_add" || type = "math_multiply" then
        let op := if type = "math_add" then ChainOp.add else .multiply
        let count := itemCount mutation
        if count < 0 then .emptyChain
        else .chain op ((slotNames "NUM" count).map fun slot => slotExpr type slot values)
      else
        let op := if type = "math_subtract" then BinaryOp.subtract
          else if type = "math_division" then .divide else .power
        .binary op (slotExpr type "A" values) (slotExpr type "B" values)
    | .negate => .negate (slotExpr type "NUM" values)
    | .compare =>
      let word := fieldOr fields "OP" "EQ"
      let left := slotExpr type "A" values
      let right := slotExpr type "B" values
      match comparison? word with
      | some op => .binary (.compare op) left right
      | none => .unknownOperator "comparison" type word left right
    | .logic =>
      let word := fieldOr fields "OP" "AND"
      let left := slotExpr type "A" values
      let right := slotExpr type "B" values
      match connective? word with
      | some op => .binary (.logic op) left right
      | none => .unknownOperator "logic operator" type word left right
    | .not => .not (slotExpr type "BOOL" values)
    | .choose =>
      .choose (slotExpr type "TEST" values) (slotExpr type "THENRETURN" values)
        (slotExpr type "ELSERETURN" values)
    | .textJoin =>
      .join ((slotNames "ADD" (itemCount mutation)).map fun slot => slotExpr type slot values)
    | .listCreate =>
      .list ((slotNames "ADD" (itemCount mutation)).map fun slot => slotExpr type slot values)
    | .propertyGet =>
      .property (Block.componentOf mutation fields)
        (firstGiven (mutation.lookup "property_name") (fieldOr fields "PROP" ""))
    | .methodCall =>
      match argSlots? (values.map Prod.fst) with
      | some slots =>
        .method (Block.componentOf mutation fields) ((mutation.lookup "method_name").getD "")
          (slots.map fun slot => slotExpr type slot values)
      | none => .longSlots
    | .componentRef => .component (Block.componentOf mutation fields)
    | .variableGet => .variable (fieldOr fields "VAR" "")
    | .procedureCall =>
      .procedure (firstGiven (fields.lookup "PROCNAME") ((mutation.lookup "name").getD ""))
        ((slotNames "ARG" args.length).map fun slot => slotExpr type slot values)
    | .unknown => .unsupported type
    | _ => .misplaced type

/-- The expression in a value slot of an owner. -/
def slotExpr (owner slot : String) : List (String × Option Block) → Expr
  | [] => .missing slot owner
  | (name, value) :: rest =>
    if name = slot then heldExpr owner slot value else slotExpr owner slot rest

/-- The expression that a value slot holds. -/
def heldExpr (owner slot : String) : Option Block → Expr
  | none => .missing slot owner
  | some block => exprOf block

end

mutual

/-- The statement of a block. -/
def stmtOf (block : Block) : Stmt :=
  match block with
  | ⟨kind, type, id, fields, mutation, args, values, statements⟩ =>
    let slot := fun name => slotExpr type name values
    match kind with
    | .branch =>
      let count := (numberOr mutation "elseif" 0 + 1).toNat
      let otherwise := (mutation.lookup "else").getD "0"
      .branch
        ((List.range count).map fun i =>
          (slot ("IF" ++ toString i), bodyIn ("DO" ++ toString i) statements))
        (if otherwise = "0" || otherwise = "" then none else some (bodyIn "ELSE" statements))
    | .loop =>
      let plain := type == "controls_while"
      .loop (fieldOr fields "MODE" "WHILE" == "UNTIL")
        (slot (if plain then "TEST" else "BOOL"))
        (bodyIn (loopSlot statements (if plain then "STATEMENT" else "DO")) statements)
    | .forRange =>
      .forRange (fieldOr fields "VAR" "number") (slot "START") (slot "END") (slot "STEP")
        (bodyIn (loopSlot statements "STATEMENT") statements)
    | .forEach =>
      .forEach (fieldOr fields "VAR" "item") (slot "LIST")
        (bodyIn (loopSlot statements "STATEMENT") statements)
    | .leave => .leave
    | .propertySet =>
      .setProperty (Block.componentOf mutation fields)
        (firstGiven (mutation.lookup "property_name") (fieldOr fields "PROP" "")) (slot "VALUE")
    | .variableSet => .setVariable (fieldOr fields "VAR" "") (slot "VALUE")
    | .localDeclaration =>
      .locals ((localNames fields args).zipIdx.map fun (name, i) => (name, slot s!"DECL{i}"))
        (bodyIn "STACK" statements)
    | .methodCall => .call (exprOf ⟨kind, type, id, fields, mutation, args, values, statements⟩)
    | .procedureCall => .call (exprOf ⟨kind, type, id, fields, mutation, args, values, statements⟩)
    | .unknown => .unsupported type fields
    | _ => .value (exprOf ⟨kind, type, id, fields, mutation, args, values, statements⟩)

/-- The statements in a statement slot. -/
def bodyIn (slot : String) : List (String × List Block) → List Stmt
  | [] => []
  | (name, blocks) :: rest => if name = slot then stmtsOf blocks else bodyIn slot rest

/-- The statements of a sequence of blocks. -/
def stmtsOf : List Block → List Stmt
  | [] => []
  | block :: rest => stmtOf block :: stmtsOf rest

end

end Code
end ScreenForge
